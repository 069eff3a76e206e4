/-
Messages as the runtime understands them: plural cases, each a list of items that know where in the
message they start; and the ways in which a message can be wrong.
-/

namespace MessageCatalog.Message

/-! ## Items -/

inductive Part where
  | text (s : List Char)
  /-- `{name}` -/
  | named (name : List Char)
  /-- `{0}` -/
  | list (index : Nat)
  /-- `{'text'}` -/
  | literal (s : List Char)
  /-- `@:key`, `@.modifier:key` or `@:(key)` -/
  | linked (key : List Char) (modifier : Option (List Char))
  deriving DecidableEq, Repr, Inhabited

structure Item where
  part : Part
  /-- The byte of the message at which the item starts. -/
  offset : Nat
  deriving DecidableEq, Repr, Inhabited

/-- One plural case; a message without `|` has exactly one. -/
abbrev Case := List Item

/-! ## Errors -/

inductive Fault where
  | unterminatedPlaceholder
  | unterminatedLink
  | unterminatedLiteral
  | emptyPlaceholder
  | listIndexOutOfRange (digits : List Char)
  | invalidPlaceholder (content : List Char)
  | emptyLinkKey
  | markup (message : List Char)
  /-- A fault that another message compiler found. -/
  | custom (code text : String)
  deriving DecidableEq, Repr, Inhabited

structure Error where
  fault : Fault
  offset : Nat
  deriving DecidableEq, Repr, Inhabited

/-- What is said about a message that would render as markup. -/
def markupNotice (message : List Char) : String :=
  "Detected HTML in '" ++ String.ofList message ++
    "' message. Recommend not using HTML messages to avoid XSS."

namespace Fault

def code : Fault → String
  | .unterminatedPlaceholder | .unterminatedLink => "E-MSG-UNTERMINATED-PLACEHOLDER"
  | .unterminatedLiteral => "E-MSG-UNTERMINATED-LITERAL"
  | .emptyPlaceholder => "E-MSG-EMPTY-PLACEHOLDER"
  | .listIndexOutOfRange _ | .invalidPlaceholder _ => "E-MSG-INVALID-PLACEHOLDER"
  | .emptyLinkKey => "E-MSG-EMPTY-LINKED-KEY"
  | .markup _ => "E-MSG-HTML"
  | .custom code _ => code

def text : Fault → String
  | .unterminatedPlaceholder => "unterminated placeholder"
  | .unterminatedLink => "unterminated linked key"
  | .unterminatedLiteral => "unterminated literal in placeholder"
  | .emptyPlaceholder => "empty placeholder"
  | .listIndexOutOfRange digits => "list index `" ++ String.ofList digits ++ "` is out of range"
  | .invalidPlaceholder content =>
    "invalid token in placeholder: `" ++ String.ofList content ++ "`"
  | .emptyLinkKey => "linked message key is empty"
  | .markup message => markupNotice message
  | .custom _ text => text

end Fault

/-- The error with its place. -/
def Error.text (e : Error) : String := e.fault.text ++ " (offset " ++ toString e.offset ++ ")"

end MessageCatalog.Message
