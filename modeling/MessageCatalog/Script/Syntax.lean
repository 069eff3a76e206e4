/-
The part of script syntax that a resource can hold: expressions with their ranges, told apart as far
as data, functions and assignment targets need it, and top-level statements by what they mean for
the default export.
-/
import MessageCatalog.Script.Token

namespace MessageCatalog.Script

/-- The bytes from the start of a construct to its end. -/
structure Extent where
  start : Nat
  stop : Nat
  deriving DecidableEq, Repr, Inhabited

/-! ## Expressions -/

/-- A string of a source; its value is that of the token at its extent. -/
structure StringLiteral (source : List Char) where
  value : String
  extent : Extent
  stands : ∃ t rest, Token.Stands source t rest ∧ t.kind = .string value ∧ extent = ⟨t.start, t.stop⟩

/-- The key of a property. -/
inductive PropertyKey where
  | identifier (name : String)
  | string (value : String)
  | number (value : Double)
  /-- A key of another kind, or a computed one. -/
  | other
  deriving DecidableEq, Repr, Inhabited

mutual

inductive Expr (source : List Char) where
  | object (properties : List (Property source)) (extent : Extent)
  | array (elements : List (Element source)) (extent : Extent)
  | string (literal : StringLiteral source)
  | number (value : Double) (extent : Extent)
  | bool (value : Bool) (extent : Extent)
  | null (extent : Extent)
  | identifier (name : String) (extent : Extent)
  /-- A template without substitutions. -/
  | template (text : String) (extent : Extent)
  /-- Unary plus or minus. -/
  | signed (negative : Bool) (argument : Expr source) (extent : Extent)
  | parenthesized (inner : Expr source) (extent : Extent)
  /-- `as` and `satisfies`, which do not change the value. -/
  | ascribed (inner : Expr source) (extent : Extent)
  /-- An access to a member, also behind an assertion. -/
  | member (extent : Extent)
  /-- An assignment; a plain one can be read as a target with a default. -/
  | assignment (plain : Bool) (extent : Extent)
  /-- Operands joined by `&&` or `||`. -/
  | logical (extent : Extent)
  | function (extent : Extent)
  | other (extent : Extent)

inductive Property (source : List Char) where
  | spread (argument : Expr source) (extent : Extent)
  | pair (key : PropertyKey) (keyExtent : Extent) (value : Expr source) (extent : Extent)
  | shorthand (extent : Extent)
  /-- A computed property, with its value. -/
  | computed (value : Expr source) (extent : Extent)
  /-- A method, getter or setter. -/
  | method (value : Extent) (extent : Extent)

inductive Element (source : List Char) where
  | item (e : Expr source)
  | hole
  | spread (argument : Expr source) (extent : Extent)

end

variable {source : List Char}

instance : Inhabited (Expr source) := ⟨.other default⟩

def Expr.extent : Expr source → Extent
  | .string literal => literal.extent
  | .object _ x | .array _ x | .number _ x | .bool _ x | .null x | .identifier _ x
  | .template _ x | .signed _ _ x | .parenthesized _ x | .ascribed _ x | .member x
  | .assignment _ x | .logical x | .function x | .other x => x

def Property.extent : Property source → Extent
  | .spread _ x | .pair _ _ _ x | .shorthand x | .computed _ x | .method _ x => x

/-- An expression without the wrappers that do not change its value. -/
def Expr.unwrapped : Expr source → Expr source
  | .parenthesized inner _ => inner.unwrapped
  | .ascribed inner _ => inner.unwrapped
  | e => e

def Expr.isLogical : Expr source → Bool
  | .logical _ => true
  | _ => false

/-! ## Statements -/

inductive StatementKind (source : List Char) where
  /-- An expression statement that starts with its string literal. -/
  | directive
  /-- `export default`, with the expression unless a declaration follows. -/
  | exportDefault (value : Option (Expr source))
  /-- Imports, type aliases and interfaces. -/
  | silent
  | other

structure Statement (source : List Char) where
  kind : StatementKind source
  extent : Extent

end MessageCatalog.Script
