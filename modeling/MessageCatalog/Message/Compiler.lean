/-
Message compilers. A compiler turns one message into an expression of the generated module, or says
what is wrong with it; the built-in one understands the message syntax of the runtime.
-/
import MessageCatalog.Message.Function
import MessageCatalog.Message.Markup
import MessageCatalog.Message.Parser

namespace MessageCatalog

structure CompiledMessage where
  /-- An expression. -/
  code : String
  /-- Maps places in the code to places in the message. -/
  map : Option SourceMap
  warnings : List String
  deriving DecidableEq, Repr, Inhabited

/-- Compiles the message found at a path of the resource. -/
abbrev MessageCompiler :=
  (message : String) → Options → (path : List String) → Except Message.Error CompiledMessage

/-- A compiler with a memory: what it answers may depend on what it was asked before. -/
abbrev RememberingCompiler (μ : Type) :=
  (message : String) → Options → (path : List String) → μ →
    Except Message.Error CompiledMessage × μ

/-- A compiler as one that remembers nothing. -/
def MessageCompiler.forgetful (compiler : MessageCompiler) : RememberingCompiler Unit :=
  fun message options path memory => (compiler message options path, memory)

namespace Message

/-! ## The built-in compiler -/

/--
The text that is compiled and the warnings about it: markup is escaped if that is asked for, and
otherwise an error or a warning.
-/
def prepare (message : List Char) (options : Options) : Except Error (List Char × List String) :=
  if options.escapeHtml then .ok (escapeMarkup message, [])
  else
    match findTag 0 message with
    | none => .ok (message, [])
    | some offset =>
      if options.strictMessage then .error ⟨.markup message, offset⟩
      else .ok (message, [markupNotice message])

/-- The code and the map of a message whose cases are known. -/
def represent (cases : List Case) (source : List Char) (options : Options) (path : List String) :
    String × Option SourceMap :=
  match options.strategy with
  | .deferred => (quotedChars source, none)
  | .aheadOfTime =>
    let pieces := functionPieces cases source options.environment
    (piecesCode pieces, some (functionMap (anchorsFrom 0 pieces) source path))

/-- Both strategies reject the same messages. -/
def compile : MessageCompiler := fun message options path => do
  let (source, warnings) ← prepare message.toList options
  let cases ← parse source
  let (code, map) := represent cases source options path
  return ⟨code, map, warnings⟩

end Message

end MessageCatalog
