/-
The way from an expression down to an operand. Where neither the first token of an operand nor the
token behind it belongs to an operator, every level of the grammar hands the operand on as it is.
-/
import MessageCatalog.Proofs.Script.Facing
import MessageCatalog.Script.Grammar

namespace MessageCatalog.Script

open Reader Expression

variable {source : List Char} {setting : Setting source} {s s' : ReaderState source}
  {go : Readers source} {e : Expr source}

/-! ## First and last tokens -/

/-- Kinds of token that start a value of data, besides a sign. -/
def startsOperand : TokenKind → Bool
  | .string _ | .number _ => true
  | .punctuator p => p = "\x7b" || p = "["
  | .name text => ["true", "false", "null", "NaN", "Infinity"].contains text
  | _ => false

theorem startsOperand_cases {k : TokenKind} (h : startsOperand k = true) :
    (∃ v, k = .string v) ∨ (∃ d, k = .number d) ∨ k = .punctuator "\x7b" ∨ k = .punctuator "[" ∨
      k = .name "true" ∨ k = .name "false" ∨ k = .name "null" ∨ k = .name "NaN" ∨
      k = .name "Infinity" := by
  cases k <;> simp_all [startsOperand]

theorem ne_of_startsOperand {k : TokenKind} (h : startsOperand k = true) (k' : TokenKind)
    (h' : startsOperand k' = false) : k ≠ k' := by
  rintro rfl
  rw [h'] at h
  cases h

theorem closingKinds_cases {k : TokenKind} (h : k ∈ closingKinds) :
    k = .punctuator "," ∨ k = .punctuator "]" ∨ k = .punctuator "\x7d" ∨ k = .endOfText := by
  simpa [closingKinds] using h

/-! ## Words of operators -/

theorem isAwait_of_ne (h : s.token.kind ≠ .name "await") : isAwait setting s = .ok (false, s) := by
  simp [isAwait, h]

theorem isYield_of_ne (h : s.token.kind ≠ .name "yield") : isYield setting s = .ok (false, s) := by
  simp [isYield, h]

theorem isAsyncArrow_of_ne (h : s.token.kind ≠ .name "async") :
    isAsyncArrow setting s = .ok (false, s) := by
  simp [isAsyncArrow, h]

theorem tryArrow_no (h : likelyArrow setting s = .ok (.no, s)) (resultType : Bool) :
    tryArrow go resultType setting s = .ok (none, s) := by
  simp only [tryArrow, run_bind, run_start, ok_bind, h, run_pure]

/-! ## Levels -/

theorem accesses_closing (hk : s.token.kind ∈ closingKinds) (calls : Bool) (n : Nat)
    (e : Expr source) : accesses go calls n e setting s = .ok (e, s) := by
  rcases closingKinds_cases hk with hk | hk | hk | hk <;> simp [accesses, loop, repeatWhile, hk]

theorem leftHandSide_operand (hs : startsOperand s.token.kind = true)
    (hprimary : primary go setting s = .ok (e, s')) (hk : s'.token.kind ∈ closingKinds) :
    leftHandSide go setting s = .ok (e, s') := by
  have hnew := ne_of_startsOperand hs (.name "new") rfl
  simp [leftHandSide, hnew, hprimary, accesses_closing hk]

theorem update_operand (hs : startsOperand s.token.kind = true)
    (hprimary : primary go setting s = .ok (e, s')) (hk : s'.token.kind ∈ closingKinds) :
    update go setting s = .ok (e, s') := by
  have hinc := ne_of_startsOperand hs (.punctuator "++") rfl
  have hdec := ne_of_startsOperand hs (.punctuator "--") rfl
  simp [update, hinc, hdec, leftHandSide_operand hs hprimary hk]
  rcases closingKinds_cases hk with hk | hk | hk | hk <;> simp [hk]

theorem unary_operand (hs : startsOperand s.token.kind = true)
    (hprimary : primary go setting s = .ok (e, s')) (hk : s'.token.kind ∈ closingKinds) :
    unary go setting s = .ok (e, s') := by
  have hupdate := update_operand hs hprimary hk
  have hawait : isAwait setting s = .ok (false, s) :=
    isAwait_of_ne (ne_of_startsOperand hs (.name "await") rfl)
  have hne := ne_of_startsOperand hs
  simp only [unary, run_bind, run_start, ok_bind, run_kind, hne (.punctuator "+") rfl,
    hne (.punctuator "-") rfl, hne (.punctuator "!") rfl, hne (.punctuator "~") rfl,
    hne (.punctuator "<") rfl, hne (.name "delete") rfl, hne (.name "void") rfl,
    hne (.name "typeof") rfl, not_false_eq_true, imp_false, hawait, hupdate, Bool.false_eq_true, if_false]

/-- A sign in front of an operand. -/
theorem unary_sign {negative : Bool} (hs : s.token.kind = .punctuator (if negative then "-" else "+"))
    (hargument : go.unary setting (s.next setting) = .ok (e, s')) (hk : s'.token.kind ∈ closingKinds) :
    unary go setting s = .ok (.signed negative e ⟨s.token.start, s'.previousStop⟩, s') := by
  have hpower : s'.token.kind ≠ .punctuator "**" := by
    rcases closingKinds_cases hk with h | h | h | h <;> simp [h]
  cases negative with
  | true =>
    have hminus : s.token.kind = .punctuator "-" := hs
    simp [unary, hminus, hargument, hpower]
  | false =>
    have hplus : s.token.kind = .punctuator "+" := hs
    simp [unary, hplus, hargument, hpower]

theorem binary_closing (hprivate : s.token.kind ≠ .privateName)
    (hunary : go.unary setting s = .ok (e, s')) (hk : s'.token.kind ∈ closingKinds) (level : Nat) :
    binary go level setting s = .ok (e, s') := by
  simp [binary, operand, hprivate, hunary]
  rcases closingKinds_cases hk with h | h | h | h <;> simp [loop, repeatWhile, recutAngle, h, levelOf]

/-- What no arrow, assignment or question goes on with is an operand of operators. -/
theorem assignment_closing (hyield : s.token.kind ≠ .name "yield") (hasync : s.token.kind ≠ .name "async")
    (harrow : likelyArrow setting s = .ok (.no, s)) (hbinary : go (.binary 0) setting s = .ok (e, s'))
    (hk : s'.token.kind ∈ closingKinds) (resultType : Bool) :
    assignment go resultType setting s = .ok (e, s') := by
  simp only [assignment, run_bind, run_start, ok_bind, isYield_of_ne hyield, tryArrow_no harrow,
    isAsyncArrow_of_ne hasync, hbinary, Bool.false_eq_true, if_false, run_isPunctuator]
  rcases closingKinds_cases hk with h | h | h | h <;>
    simp [h, assignmentOperators, conditionalRest, eat]

/-- Kinds of token that start a value of data. -/
def startsData (k : TokenKind) : Bool := startsOperand k || k == .punctuator "-"

theorem likelyArrow_of_ne (hopen : s.token.kind ≠ .punctuator "(") (hangle : s.token.kind ≠ .punctuator "<")
    (hasync : s.token.kind ≠ .name "async") : likelyArrow setting s = .ok (.no, s) := by
  simp only [likelyArrow, run_bind, run_kind, ok_bind, run_pure]

theorem assignment_data (hs : startsData s.token.kind = true)
    (hbinary : go (.binary 0) setting s = .ok (e, s')) (hk : s'.token.kind ∈ closingKinds)
    (resultType : Bool) : assignment go resultType setting s = .ok (e, s') := by
  have hne : ∀ k, startsData k = false → s.token.kind ≠ k := by
    rintro k hk rfl
    rw [hk] at hs
    cases hs
  have harrow : likelyArrow setting s = .ok (.no, s) :=
    likelyArrow_of_ne (hne _ rfl) (hne _ rfl) (hne _ rfl)
  exact assignment_closing (hne _ rfl) (hne _ rfl) harrow hbinary hk resultType

theorem expression_ended (hassignment : go.assignment setting s = .ok (e, s'))
    (hk : s'.token.kind = .endOfText) : expression go setting s = .ok (e, s') := by
  simp [expression, hassignment, hk]

end MessageCatalog.Script
