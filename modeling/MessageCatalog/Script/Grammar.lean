/-
Whole texts of script: one expression, or a module. The grammar's rules are tied together with a
bound on nesting that no text reaches, and of all faults the one to report is chosen.
-/
import MessageCatalog.Script.Statement

namespace MessageCatalog.Script

/-! ## The knot -/

/-- The rule of every goal over readers for what is nested in it. -/
def rules {source : List Char} (go : Readers source) : Readers source
  | .expression => Expression.expression go
  | .assignment resultType => Expression.assignment go resultType
  | .binary level => Expression.binary go level
  | .unary => Expression.unary go
  | .statement sole => StatementSyntax.statement go sole
  | .pattern => Pattern.pattern go
  | .type => TypeSyntax.type go

/-- Readers for nesting up to a depth. -/
def readers {source : List Char} : Nat → Readers source
  | 0 => fun _ => Reader.unexpected
  | depth + 1 => rules (readers depth)

/-- No character of a text opens more than four goals within one another. -/
def nestingBound (size : Nat) : Nat := 4 * size + 16

/-- Places of a text are numbers of 32 bits, which bounds its size. -/
def sizeLimit : Nat := 4294967295

/-- Runs a reader on a text from its start. A text that is too long stops it at once. -/
def run {α : Type} (typed : Bool) (text : List Char) (r : Readers text → Reader text α) :
    Except Stop (α × ReaderState text) :=
  let setting : Setting text := .ofText text { typed }
  if setting.size ≤ sizeLimit then
    r (readers (nestingBound setting.size)) setting (.ofText setting)
  else
    .error ⟨0, #[], #[]⟩

/-! ## Expressions -/

/-- The faults of a text that was read to its end, in the order in which they are reported. -/
def ReaderState.allFaults {source : List Char} (s : ReaderState source) : List Nat :=
  s.tokenFaults.toList ++ s.faults.toList ++ s.openDefaults

/-- The expression at the start of a text, or the byte of the first fault. -/
def readExpression (text : List Char) : Except Nat (Expr text) :=
  match run false text (·.expression) with
  | .error stop => .error stop.offset
  | .ok (e, s) =>
    match s.allFaults with
    | fault :: _ => .error fault
    | [] => .ok e

/-! ## Modules -/

/-- The place of the first name that is exported a second time. -/
def repeatedExport (seen : List BoundName) : List BoundName → Option Nat
  | [] => none
  | (name, place) :: rest =>
    match seen.lookup name with
    | some earlier => some earlier
    | none => repeatedExport ((name, place) :: seen) rest

/-- The byte of the first fault when reading stopped: faults of tokens come first. -/
def Stop.firstFault (stop : Stop) : Nat :=
  ((stop.tokenFaults.toList ++ stop.faults.toList).head?).getD stop.offset

/-- A module, or the byte of the first fault. A typed module may export a name repeatedly. -/
def readModule (typed : Bool) (text : List Char) : Except Nat (StatementSyntax.Contents text) :=
  match run typed text StatementSyntax.moduleContents with
  | .error stop => .error stop.firstFault
  | .ok (contents, s) =>
    match s.allFaults with
    | fault :: _ => .error fault
    | [] =>
      match typed, repeatedExport [] contents.exports.toList with
      | false, some place => .error place
      | _, _ => .ok contents

end MessageCatalog.Script
