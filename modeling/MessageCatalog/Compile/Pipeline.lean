/-
Compiling a resource: read it, keep the requested locales, emit the module, and compose the source
maps. What is said on the way is kept in order, also when the compile fails.
-/
import MessageCatalog.Emission.Module
import MessageCatalog.LocaleFilter

namespace MessageCatalog

/-! ## Compilers -/

/-- The collaborators of a compile. Without a payload the resource itself is the bridge payload. -/
structure Compiler where
  messages : MessageCompiler := Message.compile
  diagnostics : Diagnostics := .silent
  bridgePayload : Option String := none

structure CompileResult where
  code : String
  /-- Empty unless a source map was asked for. -/
  map : SourceMap
  deriving DecidableEq, Repr, Inhabited

inductive Outcome where
  | compiled (result : CompileResult)
  /-- A module that is not static, left as it is. -/
  | unchanged
  deriving DecidableEq, Repr

/-- A computation that may fail and keeps all that was said. -/
abbrev Compile (α : Type) := ExceptT CompileError (StateM (List Notice)) α

namespace Compile

def say (notices : List Notice) : Compile PUnit := modifyThe (List Notice) (· ++ notices)

/-- Tells the warnings and goes on with the result. -/
def ofRead {α : Type} (diagnostics : Diagnostics) (read : Except CompileError α × List String) :
    Compile α := do
  say (read.2.flatMap diagnostics.warn)
  ExceptT.mk (pure read.1)

def logged {α : Type} (c : Compile α) : Except CompileError α × List Notice := c.run.run []

end Compile

/-! ## Steps -/

/-- The filtered document with its text, read again. -/
def refilter (document : Document) (format : ResourceFormat) (options : Options)
    (diagnostics : Diagnostics) : Compile (Option (Document × String)) := do
  match LocaleFilter.filteredText document format options with
  | none => return none
  | some text =>
    let filtered ← Compile.ofRead diagnostics (format.read text document.filename)
    return some (filtered, text)

/-- The module of a document, with its source maps composed. -/
def emitModule (compiler : Compiler) (document : Document) (source filename : String)
    (options : Options) : Compile CompileResult := do
  let bridgePayload :=
    match compiler.bridgePayload with
    | some payload => some payload
    | none =>
      if options.bridge && options.isComponent then some (Registration.resourceJson document)
      else none
  match Emission.emit document source options
      ⟨compiler.messages, compiler.diagnostics, bridgePayload⟩ with
  | .error refusal =>
    Compile.say refusal.log
    throw refusal.error
  | .ok (emission, log) =>
    Compile.say log
    match emission.map with
    | some structural =>
      let map ← ExceptT.mk (pure
        (mergeSourceMaps structural emission.codeMaps options.inSourceMap filename))
      return ⟨emission.code, map⟩
    | none => return ⟨emission.code, .empty⟩

/-- Compiles a source text in a format. -/
def runPipeline (compiler : Compiler) (source filename : String) (format : ResourceFormat)
    (options : Options) : Compile Outcome := do
  let (read, warnings) := format.read source filename
  Compile.say (warnings.flatMap compiler.diagnostics.warn)
  match read with
  | .error e =>
    match e with
    | .unsupportedShape .. =>
      if format = .plainModule && options.allowDynamic then return .unchanged else throw e
    | _ => throw e
  | .ok document =>
    let (document, source) :=
      match ← refilter document format options compiler.diagnostics with
      | some filtered => filtered
      | none => (document, source)
    if options.legacy then
      return .compiled ⟨Registration.emit document options, .empty⟩
    else
      return .compiled (← emitModule compiler document source filename options)

/-! ## Resources -/

def formatOf (filename : String) : Compile ResourceFormat :=
  match ResourceFormat.ofFilename? filename with
  | some format => return format
  | none => throw (.malformed filename "unsupported resource file extension" none)

/-- Compiles a resource file; a module that is left as it is has its own text as code. -/
def Compiler.compile (compiler : Compiler) (source filename : String) (options : Options) :
    Compile CompileResult := do
  let format ← formatOf filename
  match ← runPipeline compiler source filename format options with
  | .compiled result => return result
  | .unchanged => return ⟨source, .empty⟩

/-- Like `compile`, but `none` when the code would be the source. -/
def Compiler.transform (compiler : Compiler) (source filename : String) (options : Options) :
    Compile (Option CompileResult) := do
  let format ← formatOf filename
  match ← runPipeline compiler source filename format options with
  | .compiled result => return if result.code = source then none else some result
  | .unchanged => return none

structure ResourceInput where
  source : String
  filename : String
  deriving DecidableEq, Repr, Inhabited

/-- Compiles resources on their own; the results keep the order of the inputs. -/
def compileMany (inputs : List ResourceInput) (options : Options) :
    List (Except CompileError CompileResult) :=
  inputs.map fun input =>
    (Compile.logged (({} : Compiler).compile input.source input.filename options)).1

end MessageCatalog
