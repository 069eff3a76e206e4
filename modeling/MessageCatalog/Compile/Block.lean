/-
Compiling a block of a component file. The block holds its resource, or names a side file that does,
relative to the component file.
-/
import MessageCatalog.Compile.FileTree
import MessageCatalog.Compile.Pipeline
import MessageCatalog.Options.Record

namespace MessageCatalog

structure CustomBlock where
  content : String := ""
  lang : Option String := none
  /-- The side file. -/
  src : Option String := none
  locale : Option String := none
  isGlobal : Bool := false
  deriving DecidableEq, Repr, Inhabited

def CustomBlock.ofJson? (value : Json) : Option CustomBlock := do
  let fields ← value.fields? ["content", "lang", "src", "locale", "global"]
  let text := Json.nullable? Json.string?
  return {
    content := ← fieldOr fields "content" "" Json.string?
    lang := ← fieldOr fields "lang" none text
    src := ← fieldOr fields "src" none text
    locale := ← fieldOr fields "locale" none text
    isGlobal := ← fieldOr fields "global" false Json.bool? }

/-- The format of the stated language, else of the side file's name, else JSON. -/
def CustomBlock.format (block : CustomBlock) : ResourceFormat :=
  ((block.lang.bind ResourceFormat.ofLang?).or (block.src.bind ResourceFormat.ofFilename?)).getD
    .json

/-- The options of a compile with what the block itself states. -/
def CustomBlock.options (block : CustomBlock) (options : Options) : Options :=
  { options with
    kind := .component
    locale := block.locale.getD options.locale
    isGlobal := options.isGlobal || block.isGlobal }

/-- The text of the block and the name of the file it stands in. -/
def CustomBlock.load (block : CustomBlock) (component : String) (files : FileTree)
    (reason : String) : Compile (String × String) :=
  match block.src with
  | none => return (block.content, component)
  | some src =>
    let path := joinPath ((parentDirectory? component).getD "") src
    match files.read? path with
    | some text => return (text, path)
    | none => throw (.unreadable component path reason)

/-- Compiles a block; `reason` is the text for a side file that cannot be read. -/
def Compiler.compileBlock (compiler : Compiler) (block : CustomBlock) (component : String)
    (files : FileTree) (reason : String) (options : Options) : Compile CompileResult := do
  let (content, filename) ← block.load component files reason
  match ← runPipeline compiler content filename block.format (block.options options) with
  | .compiled result => return result
  | .unchanged => return ⟨content, .empty⟩

end MessageCatalog
