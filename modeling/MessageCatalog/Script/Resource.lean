/-
Resources in script text. A data text is one expression restricted to data; a module's resource is
the object behind its default export, where functions are kept as they are written. Both are lowered
by the same rules.
-/
import MessageCatalog.Error
import MessageCatalog.Resource.Node
import MessageCatalog.Script.Grammar

namespace MessageCatalog.Script

open MessageCatalog.Text

/-! ## Lowering -/

/-- Which values are accepted. -/
inductive Dialect where
  /--
  Also wrappers, templates, numeric keys and functions; what is refused has an unsupported shape.
  -/
  | module
  /-- Data only; what is refused is malformed. -/
  | data
  deriving DecidableEq, Repr

structure Lowering where
  source : List Char
  index : LineIndex
  filename : String
  dialect : Dialect

namespace Lowering

def new (source filename : String) (dialect : Dialect) : Lowering :=
  let cs := source.toList
  ⟨cs, .ofText cs, filename, dialect⟩

def span (l : Lowering) (x : Extent) : Span := l.index.span x.start x.stop

/-- A malformed text, at one byte. -/
def malformedAt (l : Lowering) (message : String) (offset : Nat) : CompileError :=
  .malformed l.filename message (some (l.index.span offset offset))

def refused (l : Lowering) (message : String) (x : Extent) : CompileError :=
  match l.dialect with
  | .module => .unsupportedShape l.filename message (some (l.span x))
  | .data => .malformed l.filename message (some (l.span x))

/-- A string between quotes: its content begins behind the first one. -/
def string (l : Lowering) (value : String) (x : Extent) : Node :=
  .scalar ⟨.string value, l.span x, l.index.position (x.start + 1)⟩

def bare (l : Lowering) (value : ScalarValue) (x : Extent) : Node :=
  .scalar (.bare value (l.span x))

/-- A number literal or a global that names a number; in modules also between parentheses. -/
def number? (l : Lowering) : Expr l.source → Option Double
  | .number d _ => some d
  | .identifier "Infinity" _ => some (.infinite false)
  | .identifier "NaN" _ => some .nan
  | .parenthesized inner _ => if l.dialect = .module then l.number? inner else none
  | _ => none

/-- The text of a key that is known. -/
def keyText? (l : Lowering) : PropertyKey → Option String
  | .identifier name => some name
  | .string value => some value
  | .number d => if l.dialect = .module then some (numberText d) else none
  | .other => none

def notStatic : String := "value is not a static literal"

/-- A function as it is written. -/
def code (l : Lowering) (x : Extent) : Node :=
  .verbatim ⟨String.ofList ((slice? l.source x.start x.stop).getD []), l.span x⟩

/-- A value without parts. -/
def leaf (l : Lowering) (e : Expr l.source) : Except CompileError Node :=
  match e with
  | .string literal => .ok (l.string literal.value literal.extent)
  | .bool b x => .ok (l.bare (.bool b) x)
  | .null x => .ok (l.bare .null x)
  | .signed negative argument x =>
    match l.number? argument with
    | some d => .ok (l.bare (.number (if negative then d.neg else d)) x)
    | none => .error (l.refused notStatic x)
  | .template text x =>
    if l.dialect = .module then .ok (l.string text x) else .error (l.refused notStatic x)
  | .function x =>
    if l.dialect = .module then .ok (l.code x) else .error (l.refused notStatic x)
  | e =>
    match l.number? e with
    | some d => .ok (l.bare (.number d) e.extent)
    | none => .error (l.refused notStatic e.extent)

mutual

/-- The node of a value; wrappers are taken off first where the dialect allows it. -/
def node (l : Lowering) : Expr l.source → Except CompileError Node
  | .object properties x => do
    let pairs ← l.pairs properties
    return .mapping pairs (l.span x)
  | .array elements x => do
    let items ← l.items x elements
    return .sequence items (l.span x)
  | .parenthesized inner x =>
    match l.dialect with
    | .module => l.node inner
    | .data => .error (l.refused notStatic x)
  | .ascribed inner x =>
    match l.dialect with
    | .module => l.node inner
    | .data => .error (l.refused notStatic x)
  | e => l.leaf e

def pairs (l : Lowering) : List (Property l.source) → Except CompileError (List (Key × Node))
  | [] => .ok []
  | .spread _ x :: _ => .error (l.refused "spread properties are not static" x)
  | .shorthand x :: _ | .computed _ x :: _ | .method _ x :: _ =>
    .error (l.refused "computed, shorthand, method and accessor properties are not static" x)
  | .pair key keyExtent value _ :: rest =>
    match l.keyText? key with
    | none => .error (l.refused "unsupported property key" keyExtent)
    | some text => do
      let value ← l.node value
      let others ← l.pairs rest
      return (⟨text, l.span keyExtent⟩, value) :: others

def items (l : Lowering) (x : Extent) : List (Element l.source) → Except CompileError (List Node)
  | [] => .ok []
  | .item e :: rest => do
    let item ← l.node e
    let others ← l.items x rest
    return item :: others
  | .hole :: _ | .spread .. :: _ =>
    .error (l.refused "array holes and spreads are not static" x)

end

end Lowering

/-- The text of a fault of the notation itself. -/
def syntaxMessage : String := "<syntax>"

/-! ## Data texts -/

/-- Only trivia may follow the expression of a data text. -/
def onlyTrivia (text : List Char) : Bool :=
  match readModule false text with
  | .ok contents => contents.statements.isEmpty && contents.directives = 0
  | .error _ => false

/-- A resource in the data dialect. -/
def readData (source filename : String) : Except CompileError Document := do
  let l := Lowering.new source filename .data
  match readExpression l.source with
  | .error offset => throw (l.malformedAt syntaxMessage offset)
  | .ok e =>
    let rest := ((cut? e.extent.stop l.source).getD ([], [])).2
    if !onlyTrivia rest then
      let blanks := byteLength (rest.takeWhile isBlank)
      throw (l.malformedAt "unexpected trailing content" (e.extent.stop + blanks))
    let root ← l.node e
    return ⟨root, filename⟩

/-! ## Modules -/

/-- A file of a typed script by its name. -/
def isTypedName (filename : String) : Bool :=
  [".ts", ".mts", ".cts"].any fun ending => ending.toList.isSuffixOf filename.toList

/-- The warnings about statements that take no part in the resource. -/
def ignoredStatements (l : Lowering) (statements : List (Statement l.source)) : List String :=
  statements.filterMap fun s =>
    match s.kind with
    | .other | .directive =>
      let p := l.index.position s.extent.start
      some (l.filename ++ ":" ++ toString p.line ++ ":" ++ toString (p.column + 1) ++
        ": statement outside the default export is ignored")
    | _ => none

/-- The last default export: its expression, if it is one, and its extent. -/
def defaultExport {source : List Char} (statements : List (Statement source)) :
    Option (Option (Expr source) × Extent) :=
  (statements.filterMap fun s =>
    match s.kind with
    | .exportDefault value => some (value, s.extent)
    | _ => none).getLast?

def noObject : String := "the default export must be an object literal"

/-- The resource of a module, and the warnings about the rest of it. -/
def readResourceModule (source filename : String) : Except CompileError Document × List String :=
  let l := Lowering.new source filename .module
  match readModule (isTypedName filename) l.source with
  | .error offset => (.error (l.malformedAt syntaxMessage offset), [])
  | .ok contents =>
    let statements := contents.statements.toList
    let document : Except CompileError Document :=
      match defaultExport statements with
      | none =>
        .error (.unsupportedShape filename "no `export default` object literal found" none)
      | some (none, x) => .error (l.refused noObject x)
      | some (some e, _) =>
        match e.unwrapped with
        | .object .. => (l.node e).map fun root => ⟨root, filename⟩
        | other => .error (l.refused noObject other.extent)
    (document, ignoredStatements l statements)

end MessageCatalog.Script
