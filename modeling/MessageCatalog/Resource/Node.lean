/-
The tree that every resource notation is read into: mappings, sequences, scalars and code kept as
written, each with its place in the source text. A document materializes to a plain JSON value.
-/
import MessageCatalog.Json.Write
import MessageCatalog.Text.Position

namespace MessageCatalog

open MessageCatalog.Text

/-! ## Scalars -/

inductive ScalarValue where
  | string (s : String)
  | number (d : Double)
  | bool (b : Bool)
  | null
  deriving DecidableEq, Repr, Inhabited

/-- Whole numbers of this magnitude and more are not written digit by digit. -/
def positionalLimit : Nat := Nat.pow 10 21

/-- Numbers that are not whole have their shortest digits, and never an exponent. -/
def numberLayout : Double.Layout where
  positional := none
  wholeFraction := false
  plusSign := false
  tie := .up

/-- The text of a number in a script; zero has no sign. -/
def numberText : Double → String
  | .nan => "NaN"
  | .infinite negative => if negative then "-Infinity" else "Infinity"
  | .finite negative x =>
    let text :=
      match x.whole? with
      | some n => if n < positionalLimit then toString n else numberLayout.magnitude x
      | none => numberLayout.magnitude x
    if negative ∧ x.mantissa ≠ 0 then "-" ++ text else text

/-- The value as text. -/
def ScalarValue.text : ScalarValue → String
  | .string s => s
  | .number d => numberText d
  | .bool b => if b then "true" else "false"
  | .null => "null"

/-- The value as a literal of a script: a string is quoted. -/
def ScalarValue.literal : ScalarValue → String
  | .string s => Json.quoted s
  | value => value.text

structure Scalar where
  value : ScalarValue
  span : Span
  /-- Where the content begins, past an opening quote. -/
  contentStart : Position
  deriving DecidableEq, Repr, Inhabited

/-- A scalar without quotes: its content begins where it does. -/
def Scalar.bare (value : ScalarValue) (span : Span) : Scalar := ⟨value, span, span.start⟩

/-! ## Nodes -/

/-- The key of a pair and its place. -/
structure Key where
  text : String
  span : Span
  deriving DecidableEq, Repr, Inhabited

/-- Source text that is kept as it is, such as a function of a module. -/
structure Verbatim where
  code : String
  span : Span
  deriving DecidableEq, Repr, Inhabited

inductive Node where
  | mapping (pairs : List (Key × Node)) (span : Span)
  | sequence (items : List Node) (span : Span)
  | scalar (s : Scalar)
  | verbatim (v : Verbatim)
  deriving Repr, Inhabited

def Node.span : Node → Span
  | .mapping _ span | .sequence _ span => span
  | .scalar s => s.span
  | .verbatim v => v.span

structure Document where
  root : Node
  filename : String
  deriving Repr, Inhabited

/-! ## Materialization -/

/-- Whole numbers of this magnitude and more are no exact data. -/
def exactLimit : Nat := Nat.pow 2 53

/--
The JSON number of a double: whole below `2 ^ 53`, else the double; `null` if it is not finite.
-/
def numberValue (d : Double) : Json :=
  match d with
  | .finite negative x =>
    match x.whole? with
    | some n => if n < exactLimit then .number (.whole (if negative then -n else n))
                else .number (.double d)
    | none => .number (.double d)
  | _ => .null

def ScalarValue.materialize : ScalarValue → Json
  | .string s => .string s
  | .number d => numberValue d
  | .bool b => .bool b
  | .null => .null

mutual

/-- The value that a node denotes; code has none and becomes its text. -/
def Node.materialize : Node → Json
  | .mapping pairs _ => Json.ofMembers (materializePairs pairs)
  | .sequence items _ => .array (materializeItems items)
  | .scalar s => s.value.materialize
  | .verbatim v => .string v.code

def materializePairs : List (Key × Node) → List (String × Json)
  | [] => []
  | (key, value) :: rest => (key.text, value.materialize) :: materializePairs rest

def materializeItems : List Node → List Json
  | [] => []
  | item :: rest => item.materialize :: materializeItems rest

end

def Document.materialize (document : Document) : Json := document.root.materialize

end MessageCatalog
