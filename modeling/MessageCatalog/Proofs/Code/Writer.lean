/-
Laws of the code writer: what is pushed piece by piece is pushed as one, a line break is a push, and
no push touches the level.
-/
import MessageCatalog.Code.Writer

namespace MessageCatalog.Code

open MessageCatalog.Text

theorem advance_append (place : Nat × Nat) (a b : List Char) :
    advance place (a ++ b) = advance (advance place a) b := by
  induction a generalizing place with
  | nil => rfl
  | cons c cs ih => exact ih _

namespace Writer

/-! ## Pushing -/

@[simp] theorem push_code (w : Writer) (s : String) : (w.push s).code = w.code ++ s := rfl

@[simp] theorem push_level (w : Writer) (s : String) : (w.push s).level = w.level := rfl

@[simp] theorem push_map (w : Writer) (s : String) : (w.push s).map = w.map := rfl

@[simp] theorem push_push (w : Writer) (a b : String) : (w.push a).push b = w.push (a ++ b) := by
  simp only [push, String.toList_append, advance_append, String.append_assoc]

@[simp] theorem push_empty (w : Writer) : w.push "" = w := by
  simp [push, advance]

@[simp] theorem pushMapped_code (w : Writer) (s : String) (p : Position) (name : Option String) :
    (w.pushMapped s p name).code = w.code ++ s := rfl

@[simp] theorem pushMapped_level (w : Writer) (s : String) (p : Position) (name : Option String) :
    (w.pushMapped s p name).level = w.level := rfl

/-! ## Lines -/

/-- The end of a line and the blanks of the next one. -/
def lineBreak (level : Nat) : String := "\n" ++ indentation level

theorem newline_eq (w : Writer) : w.newline = w.push (lineBreak w.level) := by
  rw [newline, push_push, lineBreak]

theorem pushLine_eq (w : Writer) (s : String) : w.pushLine s = w.push (s ++ lineBreak w.level) := by
  rw [pushLine, newline_eq, push_level, push_push]

/-! ## Levels -/

/-- The same code at another level. -/
def atLevel (w : Writer) (level : Nat) : Writer := { w with level }

@[simp] theorem atLevel_level (w : Writer) (level : Nat) : (w.atLevel level).level = level := rfl

@[simp] theorem atLevel_atLevel (w : Writer) (a b : Nat) :
    (w.atLevel a).atLevel b = w.atLevel b := rfl

@[simp] theorem atLevel_self (w : Writer) : w.atLevel w.level = w := rfl

/-- Pushing does not look at the level. -/
@[simp] theorem push_atLevel (w : Writer) (level : Nat) (s : String) :
    (w.atLevel level).push s = (w.push s).atLevel level := rfl

/-- A line break one level further in is a push at that level. -/
theorem indent_eq (w : Writer) :
    w.indent = (w.push (lineBreak (w.level + 1))).atLevel (w.level + 1) := by
  show (w.atLevel (w.level + 1)).newline = _
  rw [newline_eq, push_atLevel, atLevel_level]

theorem deindent_eq (w : Writer) :
    w.deindent = (w.push (lineBreak (w.level - 1))).atLevel (w.level - 1) := by
  show (w.atLevel (w.level - 1)).newline = _
  rw [newline_eq, push_atLevel, atLevel_level]

end Writer

end MessageCatalog.Code
