/-
How expressions of data are read. The readers between an expression and its operand can return an
expression that data is made of only as they got it: everything that they make themselves is of
another kind.
-/
import MessageCatalog.Proofs.Script.Runs

namespace MessageCatalog.Script

open Reader Expression

variable {source : List Char} {setting : Setting source} {s s' : ReaderState source}
  {go : Readers source} {e : Expr source} {α β : Type}

/-! ## Looking around -/

theorem keeps_isOperatorWord (text : String) : Keeps (isOperatorWord text : Reader source Bool) :=
  keeps_around.bind fun _ => keeps_pure

theorem keeps_isPropertyModifier (word : String) : Keeps (isPropertyModifier word : Reader source Bool) := by
  refine (keeps_isWord word).bind fun at_ => ?_
  split
  · refine keeps_peek.bind fun next => ?_
    split <;> exact keeps_pure
  · exact keeps_pure

theorem keeps_isAsyncFunction : Keeps (isAsyncFunction : Reader source Bool) := by
  refine (keeps_isWord _).bind fun at_ => ?_
  split
  · exact keeps_peek.bind fun _ => keeps_pure
  · exact keeps_pure

theorem keeps_isAwait : Keeps (isAwait : Reader source Bool) := by
  refine (keeps_isWord _).bind fun at_ => ?_
  split
  · refine keeps_around.bind fun inside => ?_
    split
    · exact keeps_pure
    · refine keeps_peek.bind fun next => ?_
      split <;> exact keeps_pure
  · exact keeps_pure

theorem keeps_isYield : Keeps (isYield : Reader source Bool) := by
  refine (keeps_isWord _).bind fun at_ => ?_
  split
  · refine keeps_around.bind fun inside => ?_
    split
    · exact keeps_pure
    · refine keeps_peek.bind fun next => ?_
      split <;> exact keeps_pure
  · exact keeps_pure

theorem keeps_isAsyncArrow : Keeps (isAsyncArrow : Reader source Bool) := by
  refine (keeps_isWord _).bind fun at_ => ?_
  split
  · exact keeps_lookahead _ _
  · exact keeps_pure

theorem keeps_likelyArrow : Keeps (likelyArrow : Reader source Likely) := by
  refine keeps_kind.bind fun k => ?_
  split
  · exact keeps_lookahead _ _
  · exact keeps_lookahead _ _
  · exact keeps_lookahead _ _
  · exact keeps_pure

theorem tryTypeArguments_false (h : Runs (tryTypeArguments go) setting s false s') : s' = s := by
  unfold tryTypeArguments at h
  simp only [runs_around, runs_isPunctuator] at h
  split at h
  · obtain ⟨read, s₁, hattempt, h⟩ := runs_bind.1 h
    obtain ⟨hnone, rfl⟩ := runs_pure.1 h
    cases read with
    | none => exact runs_attempt_none hattempt
    | some _ => cases hnone
  · exact (runs_pure.1 h).2.symm

/-! ## Expressions of data -/

/-- The expressions that data is made of; all others are refused. -/
def Expr.isData : Expr source → Bool
  | .object .. | .array .. | .string _ | .number .. | .bool .. | .null _ | .identifier .. | .signed .. =>
    true
  | _ => false

/-- A reader returns no data. -/
abbrev NoData (r : Reader source (Expr source)) : Prop := Yields r fun e => e.isData = false

theorem noData_template (tagged : Bool) : NoData (template go tagged) := by
  refine .bind fun t => ?_
  split
  · split
    · exact .bind fun _ => .bind fun _ => .bind fun _ => yields_pure rfl
    · exact .bind fun _ => .bind fun _ => yields_pure rfl
  · split
    · exact .bind fun _ => .bind fun _ => .bind fun _ => .bind fun _ => yields_pure rfl
    · exact .bind fun _ => .bind fun _ => .bind fun _ => yields_pure rfl
  · exact yields_unexpected

theorem noData_parenthesized : NoData (parenthesized go) := by
  refine .bind fun start => .bind fun _ => .bind fun closes => ?_
  split
  · exact .bind fun _ => .bind fun _ => .bind fun _ => .bind fun _ => .bind fun _ => yields_pure rfl
  · exact .bind fun _ => .bind fun _ => .bind fun _ => yields_pure rfl

theorem noData_regexLiteral : NoData (regexLiteral : Reader source (Expr source)) := by
  refine .bind fun start => .bind fun _ => .bind fun k => ?_
  split
  · exact .bind fun _ => .bind fun _ => yields_pure rfl
  · exact yields_unexpected

theorem noData_importExpression : NoData (importExpression go) := by
  refine .bind fun start => .bind fun _ => .bind fun dot => ?_
  split
  · refine .bind fun k => ?_
    split
    · exact .bind fun _ => .bind fun _ => yields_pure rfl
    · exact .bind fun _ => .bind fun _ => .bind fun _ => yields_pure rfl
    · exact .bind fun _ => .bind fun _ => .bind fun _ => yields_pure rfl
    · exact .bind fun _ => .bind fun _ => yields_pure rfl
  · exact .bind fun _ => .bind fun _ => yields_pure rfl

/-! ## Repetition -/

/-- A round goes on with what has a property no more, or stops with what it was given. -/
def Round (P : α → Prop) (Q : ReaderState source → ReaderState source → Prop) (a : α)
    (s : ReaderState source) (p : α × Bool) (s' : ReaderState source) : Prop :=
  p.2 = true ∧ ¬ P p.1 ∨ p = (a, false) ∧ Q s s'

section

variable {body : α → Reader source (α × Bool)} {P : α → Prop}
  {Q : ReaderState source → ReaderState source → Prop} {a b : α}

/-- If the result of some rounds has the property, the first of them has stopped. -/
theorem repeatWhile_stops
    (hbody : ∀ ⦃a s p s'⦄, Runs (body a) setting s p s' → Round P Q a s p s') {n : Nat}
    (h : Runs (repeatWhile body n a) setting s b s') (hb : P b) : b = a ∧ (n = 0 ∨ Q s s') := by
  induction n generalizing a s with
  | zero => exact ⟨(runs_pure.1 h).1.symm, .inl rfl⟩
  | succ n ih =>
    obtain ⟨⟨c, again⟩, s₁, hround, hrest⟩ := runs_bind.1 h
    rcases hbody hround with ⟨rfl, hc⟩ | ⟨hstop, hQ⟩
    · obtain ⟨rfl, -⟩ := ih hrest
      exact absurd hb hc
    · cases hstop
      obtain ⟨rfl, rfl⟩ := runs_pure.1 hrest
      exact ⟨rfl, .inr hQ⟩

theorem loop_stops (hbody : ∀ ⦃a s p s'⦄, Runs (body a) setting s p s' → Round P Q a s p s')
    (h : Runs (loop a body) setting s b s') (hb : P b) : b = a ∧ Q s s' := by
  rw [loop, runs_rounds] at h
  obtain ⟨rfl, hQ⟩ := repeatWhile_stops hbody h hb
  exact ⟨rfl, hQ.resolve_left (Nat.succ_ne_zero _)⟩

theorem Round.goes {r : Reader source (α × Bool)} {p : α × Bool} {s₀ : ReaderState source}
    (hr : Yields r fun p => p.2 = true ∧ ¬ P p.1) (h : Runs r setting s p s') : Round P Q a s₀ p s' :=
  .inl (hr h)

theorem Round.stops {p : α × Bool} {s₀ : ReaderState source} (hQ : Q s₀ s)
    (h : Runs (pure (a, false)) setting s p s') : Round P Q a s₀ p s' := by
  obtain ⟨rfl, rfl⟩ := runs_pure.1 h
  exact .inr ⟨rfl, hQ⟩

end

/-! ## Operands -/

theorem yields_other (n : Nat) (chained : Bool) :
    Yields (do return ((.other (← extentFrom n), chained), true) :
      Reader source ((Expr source × Bool) × Bool))
      fun p => p.2 = true ∧ ¬ p.1.1.isData = true :=
  .bind fun _ => yields_pure ⟨rfl, Bool.false_ne_true⟩

/-- Every access makes another expression of its operand. -/
theorem accesses_of_data {n : Nat} {e₀ : Expr source} (h : Runs (accesses go true n e₀) setting s e s')
    (he : e.isData = true) : e = e₀ ∧ s' = s := by
  obtain ⟨⟨e', chained⟩, s₁, hloop, h⟩ := runs_bind.1 h
  obtain ⟨rfl, rfl⟩ := runs_pure.1 h
  have hstop := loop_stops (P := fun p => p.1.isData = true) (Q := fun s s' => s' = s) ?_ hloop he
  · exact ⟨congrArg Prod.fst hstop.1, hstop.2⟩
  · rintro ⟨e, chained⟩ s p s' h
    have hmember : ∀ x : Extent,
        ¬ (if chained then Expr.other x else Expr.member x : Expr source).isData = true := by
      intro x
      cases chained <;> exact Bool.false_ne_true
    rw [runs_kind] at h
    split at h
    · exact .goes (.bind fun _ => .bind fun _ => .bind fun _ => yields_pure ⟨rfl, hmember _⟩) h
    · refine .goes (.bind fun _ => .bind fun k => ?_) h
      split
      · exact .bind fun _ => yields_other n true
      · exact .bind fun _ => .bind fun _ => .bind fun _ => yields_other n true
      · exact .bind fun _ => .bind fun _ => yields_other n true
      · exact .bind fun _ => yields_other n true
      · exact .bind fun _ => yields_other n true
      · exact .bind fun _ => yields_other n true
    · exact .goes (.bind fun _ => .bind fun _ => .bind fun _ => .bind fun _ => yields_pure ⟨rfl, hmember _⟩) h
    · rw [runs_around, runs_onNewLine] at h
      split at h
      · refine .goes (.bind fun _ => .bind fun _ => yields_pure ⟨rfl, ?_⟩) h
        exact Bool.false_ne_true
      · exact .stops rfl h
    · exact .goes (.bind fun _ => yields_other n chained) h
    · exact .goes (.bind fun _ => yields_other n chained) h
    · exact .goes (.bind fun _ => yields_other n chained) h
    · obtain ⟨read, s₁, htry, h⟩ := runs_bind.1 h
      cases read with
      | true => exact .goes (yields_other n chained) h
      | false => exact .stops (tryTypeArguments_false htry) h
    · exact .stops rfl h

theorem noData_accesses {n : Nat} {e₀ : Expr source} (he₀ : e₀.isData = false) :
    NoData (accesses go true n e₀) := by
  intro setting s e s' h
  refine Bool.eq_false_iff.2 fun he => ?_
  obtain ⟨rfl, -⟩ := accesses_of_data h he
  rw [he₀] at he
  cases he

theorem noData_newExpression (fuel : Nat) : NoData (newExpression go fuel) := by
  cases fuel with
  | zero => exact yields_unexpected
  | succ fuel =>
    refine .bind fun start => .bind fun _ => .bind fun dot => ?_
    split
    · refine .bind fun target => ?_
      split
      · exact .bind fun _ => noData_accesses rfl
      · exact yields_stopAt _
    · refine .bind fun _ => .bind fun nested => ?_
      have hother : ∀ _ : Unit, NoData (do
          if ← isPunctuator "(" then arguments go
          return .other (← extentFrom start) : Reader source (Expr source)) := by
        intro _
        refine .bind fun call => ?_
        split
        · exact .bind fun _ => .bind fun _ => yields_pure rfl
        · exact .bind fun _ => yields_pure rfl
      split
      · exact .bind fun _ => hother ()
      · refine .bind fun _ => ?_
        split
        · exact .bind hother
        · exact .bind fun _ => .bind fun _ => hother ()

theorem leftHandSide_of_data (h : Runs (leftHandSide go) setting s e s') (he : e.isData = true) :
    Runs (primary go) setting s e s' := by
  rw [leftHandSide, runs_start, runs_isWord] at h
  split at h
  · rw [runs_rounds] at h
    obtain ⟨e₀, s₁, hnew, h⟩ := runs_bind.1 h
    have hrefused := noData_accesses (noData_newExpression _ hnew) h
    rw [hrefused] at he
    cases he
  · obtain ⟨e₀, s₁, hprimary, h⟩ := runs_bind.1 h
    obtain ⟨rfl, rfl⟩ := accesses_of_data h he
    exact hprimary

theorem NoData.absurd {r : Reader source (Expr source)} {C : Prop} (hr : NoData r)
    (h : Runs r setting s e s') (he : e.isData = true) : C := by
  rw [hr h] at he
  cases he

theorem update_of_data (h : Runs (update go) setting s e s') (he : e.isData = true) :
    Runs (primary go) setting s e s' := by
  rw [update, runs_start, runs_isPunctuator, runs_isPunctuator] at h
  split at h
  · exact NoData.absurd (.bind fun _ => .bind fun _ => .bind fun _ => .bind fun _ => yields_pure rfl) h he
  · obtain ⟨e₀, s₁, hoperand, h⟩ := runs_bind.1 h
    rw [runs_isPunctuator, runs_isPunctuator, runs_onNewLine] at h
    split at h
    · exact NoData.absurd (.bind fun _ => .bind fun _ => .bind fun _ => yields_pure rfl) h he
    · obtain ⟨rfl, rfl⟩ := runs_pure.1 h
      exact leftHandSide_of_data hoperand he

theorem noData_operator {n : Nat} : NoData (do
    advance
    let _ ← go.unary
    let x ← extentFrom n
    if ← isPunctuator "**" then
      fault n
      return .other x
    else return .other x : Reader source (Expr source)) := by
  refine .bind fun _ => .bind fun _ => .bind fun x => .bind fun power => ?_
  split
  · exact .bind fun _ => yields_pure rfl
  · exact yields_pure rfl

/-- What an operator in front of an operand is read as. -/
theorem operator_runs {wrap : Expr source → Extent → Expr source} {n : Nat}
    (h : Runs (do
      advance
      let argument ← go.unary
      let x ← extentFrom n
      if ← isPunctuator "**" then
        fault n
        return wrap argument x
      else return wrap argument x) setting s e s') (hfaults : s'.faults = #[]) :
    ∃ argument, Runs go.unary setting (s.next setting) argument s' ∧
      e = wrap argument ⟨n, s'.previousStop⟩ := by
  rw [runs_advance] at h
  obtain ⟨argument, s₁, hargument, h⟩ := runs_bind.1 h
  rw [runs_extentFrom, runs_isPunctuator] at h
  split at h
  · rw [runs_fault] at h
    obtain ⟨-, rfl⟩ := runs_pure.1 h
    exact absurd hfaults Array.push_ne_empty
  · obtain ⟨rfl, rfl⟩ := runs_pure.1 h
    exact ⟨argument, hargument, rfl⟩

/-- An operand of data is read as such, or it stands behind one sign. -/
theorem unary_of_data (h : Runs (unary go) setting s e s') (he : e.isData = true)
    (hfaults : s'.faults = #[]) :
    Runs (primary go) setting s e s' ∨ ∃ negative argument,
      s.token.kind = .punctuator (if negative then "-" else "+") ∧
        Runs go.unary setting (s.next setting) argument s' ∧
        e = .signed negative argument ⟨s.token.start, s'.previousStop⟩ := by
  rw [unary, runs_start] at h
  dsimp only at h
  rw [runs_kind] at h
  split at h
  · rename_i hsign
    obtain ⟨argument, hargument, rfl⟩ := operator_runs h hfaults
    exact .inr ⟨false, argument, hsign, hargument, rfl⟩
  · rename_i hsign
    obtain ⟨argument, hargument, rfl⟩ := operator_runs h hfaults
    exact .inr ⟨true, argument, hsign, hargument, rfl⟩
  · exact noData_operator.absurd h he
  · exact noData_operator.absurd h he
  · exact noData_operator.absurd h he
  · exact noData_operator.absurd h he
  · exact noData_operator.absurd h he
  · rw [runs_around] at h
    split at h
    · exact NoData.absurd (.bind fun _ => .bind fun _ => .bind fun _ => .bind fun _ => .bind fun _ =>
        yields_pure rfl) h he
    · exact absurd h runs_unexpected
  · obtain ⟨await, s₁, hawait, h⟩ := runs_bind.1 h
    obtain rfl := keeps_isAwait hawait
    split at h
    · rw [runs_around] at h
      split at h
      · exact NoData.absurd (.bind fun _ => noData_operator) h he
      · exact noData_operator.absurd h he
    · exact .inl (update_of_data h he)

/-! ## Operators -/

theorem levelOf_pos {k : TokenKind} {l : Nat} (h : levelOf k = some l) : 0 < l := by
  unfold levelOf at h
  split at h
  · split at h <;> cases h <;> decide
  · split at h <;> cases h
    decide
  · cases h

/-- Cut in full, a closing angle bracket is an operator between operands or of an assignment. -/
theorem angle_operator (s : ReaderState source) :
    ∃ p, (s.recut .angle setting).token.kind = .punctuator p ∧
      (p ∈ assignmentOperators ∨ ∃ l, levelOf (.punctuator p) = some l) := by
  have hcut : ∃ p ∈ angleOperators,
      (Recut.angle.cut (offsetIn setting.size) s.token).kind = .punctuator p := by
    simp only [Recut.angle]
    split
    · exact ⟨_, List.mem_of_find?_eq_some ‹_›, rfl⟩
    · exact ⟨">", by decide, rfl⟩
  obtain ⟨p, hp, hkind⟩ := hcut
  refine ⟨p, hkind, ?_⟩
  simp only [angleOperators, List.mem_cons, List.not_mem_nil, or_false] at hp
  rcases hp with rfl | rfl | rfl | rfl | rfl | rfl
  · exact .inl (by decide)
  · exact .inr ⟨_, rfl⟩
  · exact .inl (by decide)
  · exact .inr ⟨_, rfl⟩
  · exact .inr ⟨_, rfl⟩
  · exact .inr ⟨_, rfl⟩

/-- In front of an assignment. -/
def AtAssignment (s : ReaderState source) : Prop := ∃ p ∈ assignmentOperators, s.token.kind = .punctuator p

theorem noData_privateOperand {n : Nat} : NoData (do
    advance
    if ← isWord "in" then return .other (← extentFrom n) else unexpected : Reader source (Expr source)) := by
  refine .bind fun _ => .bind fun word => ?_
  split
  · exact .bind fun _ => yields_pure rfl
  · exact yields_unexpected

theorem recutAngle_runs {u : PUnit} (h : Runs recutAngle setting s u s') :
    s' = s ∨ ∃ p, s'.token.kind = .punctuator p ∧
      (p ∈ assignmentOperators ∨ ∃ l, levelOf (.punctuator p) = some l) := by
  rw [recutAngle, runs_isPunctuator] at h
  split at h
  · cases h
    exact .inr (angle_operator s)
  · exact .inl (runs_pure.1 h).2.symm

/-- Operands that are joined are no data: behind data stands no operator but one of assignment. -/
theorem binary_of_data (h : Runs (binary go 0) setting s e s') (he : e.isData = true)
    (hassign : ¬ AtAssignment s') : Runs go.unary setting s e s' := by
  rw [binary, runs_start] at h
  obtain ⟨first, s₁, hoperand, h⟩ := runs_bind.1 h
  have hstop := loop_stops (P := fun e => e.isData = true)
    (Q := fun s s' => AtAssignment s' ∨ s' = s) ?_ h he
  · obtain ⟨rfl, hs⟩ := hstop
    obtain rfl := hs.resolve_left hassign
    rw [operand, runs_start, runs_kind] at hoperand
    split at hoperand
    · exact noData_privateOperand.absurd hoperand he
    · exact hoperand
  · intro e s p s' h
    obtain ⟨_, s₁, hrecut, h⟩ := runs_bind.1 h
    have hangle := recutAngle_runs hrecut
    rw [runs_kind] at h
    split at h
    · rename_i hlevel
      refine .stops ?_ h
      rcases hangle with rfl | ⟨p, hkind, hp | ⟨l, hl⟩⟩
      · exact .inr rfl
      · exact .inl ⟨p, hp, hkind⟩
      · rw [hkind, hl] at hlevel
        cases hlevel
    · rename_i l hlevel
      have hpos := levelOf_pos hlevel
      -- a word is no angle bracket, so it is where it was
      have hword : ∀ text, s₁.token.kind = .name text → s₁ = s := by
        intro text htext
        refine hangle.resolve_right fun ⟨p, hkind, _⟩ => ?_
        rw [htext] at hkind
        cases hkind
      rw [if_neg (by simp; omega), runs_around] at h
      split at h
      · rename_i hin
        simp only [Bool.and_eq_true, beq_iff_eq] at hin
        exact .stops (.inr (hword _ hin.1)) h
      · split at h
        · rename_i has
          rw [runs_onNewLine] at h
          split at h
          · simp only [Bool.or_eq_true, beq_iff_eq] at has
            exact .stops (.inr (has.elim (hword _) (hword _))) h
          · refine .goes (.bind fun _ => .bind fun _ => .bind fun _ => ?_) h
            split
            · exact .bind fun _ => .bind fun _ => yields_pure ⟨rfl, Bool.false_ne_true⟩
            · exact .bind fun _ => yields_pure ⟨rfl, Bool.false_ne_true⟩
        · refine .goes (.bind fun _ => .bind fun right => .bind fun x => ?_) h
          have hjoined : Yields (if s₁.token.kind == .punctuator "&&" ||
              s₁.token.kind == .punctuator "||" then
              return (.logical x, true) else return (.other x, true) : Reader source (Expr source × Bool))
              fun p => p.2 = true ∧ ¬ p.1.isData = true := by
            split <;> exact yields_pure ⟨rfl, Bool.false_ne_true⟩
          dsimp only
          by_cases hmixed : (s₁.token.kind == .punctuator "??" && (e.isLogical || right.isLogical)) = true
          · rw [if_pos hmixed]
            exact .bind fun _ => hjoined
          · rw [if_neg hmixed]
            exact hjoined

/-! ## Whole expressions -/

theorem conditionalRest_of_data {resultType : Bool} {n : Nat} {condition : Expr source}
    (h : Runs (conditionalRest go resultType n condition) setting s e s') (he : e.isData = true) :
    e = condition ∧ s' = s := by
  rcases runs_eat.1 h with ⟨-, h⟩ | ⟨-, h⟩
  · exact NoData.absurd (.bind fun _ => .bind fun _ => .bind fun _ => .bind fun _ => yields_pure rfl) h he
  · obtain ⟨rfl, rfl⟩ := runs_pure.1 h
    exact ⟨rfl, rfl⟩

theorem noData_yieldExpression : NoData (yieldExpression go) := by
  refine .bind fun start => .bind fun inside => ?_
  have hended : ∀ delegate ended : Bool, NoData (do
      if delegate || !ended then
        let _ ← go.assignment
      return .other (← extentFrom start) : Reader source (Expr source)) := by
    intro delegate ended
    dsimp only
    split
    · exact .bind fun _ => .bind fun _ => yields_pure rfl
    · exact .bind fun _ => yields_pure rfl
  split
  case' isTrue => refine .bind fun _ => ?_
  all_goals
    refine .bind fun _ => .bind fun line => ?_
    split
    · refine .bind fun delegate => .bind fun k => ?_
      split <;> exact .bind fun ended => hended delegate ended
    · exact .bind fun _ => yields_pure rfl

/-- An arrow function is a function, and without one nothing is taken. -/
theorem tryArrow_runs {resultType : Bool} {found : Option (Expr source)}
    (h : Runs (tryArrow go resultType) setting s found s') :
    (∀ e ∈ found, e.isData = false) ∧ (found = none → s' = s) := by
  rw [tryArrow, runs_start] at h
  dsimp only at h
  have hwhole : NoData (do
    let head ← arrowHead go
    arrowBody go head.1 resultType
    return .function (← extentFrom s.token.start)) :=
    .bind fun _ => .bind fun _ => .bind fun _ => yields_pure rfl
  obtain ⟨likely, s₁, hlikely, h⟩ := runs_bind.1 h
  obtain rfl := keeps_likelyArrow hlikely
  split at h
  · obtain ⟨rfl, rfl⟩ := runs_pure.1 h
    exact ⟨fun _ he => absurd he (Option.not_mem_none _), fun _ => rfl⟩
  · obtain ⟨e, s₂, he, h⟩ := runs_bind.1 h
    obtain ⟨rfl, rfl⟩ := runs_pure.1 h
    exact ⟨fun _ h => Option.some.inj h ▸ hwhole he, fun hnone => absurd hnone (Option.some_ne_none _)⟩
  · obtain ⟨head, s₂, hhead, h⟩ := runs_bind.1 h
    obtain rfl := keeps_lookahead _ _ hhead
    split at h
    · obtain ⟨rfl, rfl⟩ := runs_pure.1 h
      exact ⟨fun _ he => absurd he (Option.not_mem_none _), fun _ => rfl⟩
    · split at h
      · refine ⟨fun e he => ?_, fun hnone => ?_⟩
        · cases he
          obtain ⟨e', s₃, he, h⟩ := runs_bind.1 (runs_attempt_some h)
          rw [runs_isPunctuator] at h
          split at h
          · obtain ⟨rfl, -⟩ := runs_pure.1 h
            exact hwhole he
          · exact absurd h runs_unexpected
        · subst hnone
          exact runs_attempt_none h
      · obtain ⟨e, s₂, he, h⟩ := runs_bind.1 h
        obtain ⟨rfl, rfl⟩ := runs_pure.1 h
        exact ⟨fun _ h => Option.some.inj h ▸ hwhole he, fun hnone => absurd hnone (Option.some_ne_none _)⟩

/-- Behind the operands of an expression, which are kept where neither an assignment nor a question
follows. -/
theorem assignmentRest_of_data {resultType : Bool} {n : Nat} {left : Expr source}
    (h : Runs (do
      match ← kind with
      | .punctuator p =>
        if assignmentOperators.contains p then
          let plain := p = "="
          takeAsTarget plain left
          advance
          let _ ← go (.assignment resultType)
          return .assignment plain (← extentFrom n)
        else conditionalRest go resultType n left
      | _ => conditionalRest go resultType n left) setting s e s') (he : e.isData = true) :
    e = left ∧ s' = s ∧ ¬ AtAssignment s := by
  rw [runs_kind] at h
  split at h
  · rename_i p hkind
    split at h
    · exact NoData.absurd (.bind fun _ => .bind fun _ => .bind fun _ => .bind fun _ => yields_pure rfl) h he
    · rename_i hassign
      obtain ⟨rfl, rfl⟩ := conditionalRest_of_data h he
      refine ⟨rfl, rfl, fun ⟨q, hq, hkind'⟩ => hassign ?_⟩
      rw [hkind] at hkind'
      cases hkind'
      exact List.contains_iff_mem.2 hq
  · rename_i hkind
    obtain ⟨rfl, rfl⟩ := conditionalRest_of_data h he
    exact ⟨rfl, rfl, fun ⟨q, _, hkind'⟩ => hkind q hkind'⟩

theorem assignment_of_data {resultType : Bool} (h : Runs (assignment go resultType) setting s e s')
    (he : e.isData = true) : Runs (go (.binary 0)) setting s e s' ∧ ¬ AtAssignment s' := by
  rw [assignment, runs_start] at h
  obtain ⟨yields, s₁, hyield, h⟩ := runs_bind.1 h
  obtain rfl := keeps_isYield hyield
  split at h
  · exact noData_yieldExpression.absurd h he
  obtain ⟨found, s₂, harrow, h⟩ := runs_bind.1 h
  obtain ⟨hfound, hnone⟩ := tryArrow_runs harrow
  cases found with
  | some e₀ =>
    obtain ⟨rfl, -⟩ := runs_pure.1 h
    rw [hfound _ rfl] at he
    cases he
  | none =>
    obtain rfl := hnone rfl
    obtain ⟨isAsync, s₃, hasync, h⟩ := runs_bind.1 h
    obtain rfl := keeps_isAsyncArrow hasync
    split at h
    · exact NoData.absurd (.bind fun _ => .bind fun _ => .bind fun _ => .bind fun _ => .bind fun _ =>
        yields_pure rfl) h he
    · obtain ⟨left, s₄, hleft, h⟩ := runs_bind.1 h
      dsimp only at h
      rw [runs_isPunctuator] at h
      have hrest : e = left ∧ s' = s₄ ∧ ¬ AtAssignment s₄ := by
        split at h
        · split at h
          · refine NoData.absurd (.bind fun _ => ?_) h he
            split
            · exact .bind fun _ => .bind fun _ => .bind fun _ => .bind fun _ => .bind fun _ => yields_pure rfl
            · exact .bind fun _ => .bind fun _ => .bind fun _ => yields_pure rfl
          · exact assignmentRest_of_data h he
        · exact assignmentRest_of_data h he
      obtain ⟨rfl, rfl, hassign⟩ := hrest
      exact ⟨hleft, hassign⟩

theorem expression_of_data (h : Runs (expression go) setting s e s') (he : e.isData = true) :
    Runs go.assignment setting s e s' := by
  rw [expression, runs_start] at h
  obtain ⟨first, s₁, hfirst, h⟩ := runs_bind.1 h
  rw [runs_isPunctuator] at h
  split at h
  · exact NoData.absurd (.bind fun _ => .bind fun _ => yields_pure rfl) h he
  · obtain ⟨rfl, rfl⟩ := runs_pure.1 h
    exact hfirst

/-! ## Nesting -/

/-- An expression of data is read as an operand, with readers for less nesting. -/
theorem readers_unary_of_data {depth : Nat} (h : Runs (readers depth).unary setting s e s')
    (he : e.isData = true) (hfaults : s'.faults = #[]) :
    ∃ d < depth, Runs (primary (readers d)) setting s e s' ∨ ∃ negative argument,
      s.token.kind = .punctuator (if negative then "-" else "+") ∧
        Runs (readers d).unary setting (s.next setting) argument s' ∧
        e = .signed negative argument ⟨s.token.start, s'.previousStop⟩ := by
  cases depth with
  | zero => exact absurd h runs_unexpected
  | succ d => exact ⟨d, Nat.lt_succ_self d, unary_of_data h he hfaults⟩

theorem readers_assignment_of_data {depth : Nat} (h : Runs (readers depth).assignment setting s e s')
    (he : e.isData = true) : ∃ d < depth, Runs (readers d).unary setting s e s' := by
  cases depth with
  | zero => exact absurd h runs_unexpected
  | succ d =>
    obtain ⟨hbinary, hassign⟩ := assignment_of_data h he
    cases d with
    | zero => exact absurd hbinary runs_unexpected
    | succ d => exact ⟨d, by omega, binary_of_data hbinary he hassign⟩

/-! ## Literals -/

/-- How an operand of data is read: as one token, or between brackets. -/
inductive OperandRun (go : Readers source) (setting : Setting source) (s : ReaderState source) :
    Expr source → ReaderState source → Prop where
  | string {literal : StringLiteral source} (reads : s.stringLiteral? = some literal) :
    OperandRun go setting s (.string literal) (s.next setting)
  | number {d : Double} (kind : s.token.kind = .number d) :
    OperandRun go setting s (.number d ⟨s.token.start, s.token.stop⟩) (s.next setting)
  | bool (b : Bool) (kind : s.token.kind = .name (if b then "true" else "false")) :
    OperandRun go setting s (.bool b ⟨s.token.start, s.token.stop⟩) (s.next setting)
  | null (kind : s.token.kind = .name "null") :
    OperandRun go setting s (.null ⟨s.token.start, s.token.stop⟩) (s.next setting)
  | identifier {name : String} (kind : s.token.kind = .name name) :
    OperandRun go setting s (.identifier name ⟨s.token.start, s.token.stop⟩) (s.next setting)
  | object {properties : List (Property source)} {s₁ : ReaderState source}
    (opening : s.token.kind = .punctuator "\x7b")
    (inner : Runs (commaList "\x7d" (property go)) setting (s.next setting) properties s₁)
    (close : s₁.token.kind = .punctuator "\x7d") :
    OperandRun go setting s (.object properties ⟨s.token.start, s₁.token.stop⟩) (s₁.next setting)
  | array {elements : List (Element source)} {s₁ : ReaderState source}
    (opening : s.token.kind = .punctuator "[")
    (inner : Runs (commaList "]" (element go)) setting (s.next setting) elements s₁)
    (close : s₁.token.kind = .punctuator "]") :
    OperandRun go setting s (.array elements ⟨s.token.start, s₁.token.stop⟩) (s₁.next setting)

theorem objectLiteral_runs (h : Runs (objectLiteral go) setting s e s') : OperandRun go setting s e s' := by
  rw [objectLiteral, runs_start] at h
  obtain ⟨hopening, hrest⟩ := runs_expect.1 h
  obtain ⟨properties, s₁, hinner, hrest⟩ := runs_bind.1 hrest
  obtain ⟨hclose, hrest⟩ := runs_expect.1 hrest
  rw [runs_extentFrom] at hrest
  obtain ⟨rfl, rfl⟩ := runs_pure.1 hrest
  exact .object hopening hinner hclose

theorem arrayLiteral_runs (h : Runs (arrayLiteral go) setting s e s') : OperandRun go setting s e s' := by
  rw [arrayLiteral, runs_start] at h
  obtain ⟨hopening, hrest⟩ := runs_expect.1 h
  obtain ⟨elements, s₁, hinner, hrest⟩ := runs_bind.1 hrest
  obtain ⟨hclose, hrest⟩ := runs_expect.1 hrest
  rw [runs_extentFrom] at hrest
  obtain ⟨rfl, rfl⟩ := runs_pure.1 hrest
  exact .array hopening hinner hclose

theorem primary_of_data (h : Runs (primary go) setting s e s') (he : e.isData = true) :
    OperandRun go setting s e s' := by
  rw [primary, runs_start, runs_kind] at h
  split at h
  · rw [runs_get] at h
    split at h
    · rw [runs_advance] at h
      obtain ⟨rfl, rfl⟩ := runs_pure.1 h
      exact .string ‹_›
    · exact absurd h runs_unexpected
  · rw [runs_advance, runs_extentFrom] at h
    obtain ⟨rfl, rfl⟩ := runs_pure.1 h
    exact .number ‹_›
  · exact NoData.absurd (.bind fun _ => .bind fun _ => yields_pure rfl) h he
  · exact (noData_template false).absurd h he
  · exact (noData_template false).absurd h he
  · exact objectLiteral_runs h
  · exact arrayLiteral_runs h
  · exact noData_parenthesized.absurd h he
  · exact noData_regexLiteral.absurd h he
  · exact noData_regexLiteral.absurd h he
  · exact NoData.absurd (.bind fun _ => .bind fun _ => .bind fun _ => yields_pure rfl) h he
  · rw [runs_advance, runs_extentFrom] at h
    obtain ⟨rfl, rfl⟩ := runs_pure.1 h
    exact .bool true ‹_›
  · rw [runs_advance, runs_extentFrom] at h
    obtain ⟨rfl, rfl⟩ := runs_pure.1 h
    exact .bool false ‹_›
  · rw [runs_advance, runs_extentFrom] at h
    obtain ⟨rfl, rfl⟩ := runs_pure.1 h
    exact .null ‹_›
  · exact NoData.absurd (.bind fun _ => .bind fun _ => yields_pure rfl) h he
  · exact NoData.absurd (.bind fun _ => .bind fun _ => yields_pure rfl) h he
  · exact NoData.absurd (.bind fun _ => .bind fun _ => yields_pure rfl) h he
  · exact noData_importExpression.absurd h he
  · refine NoData.absurd (.bind fun _ => .bind fun k => ?_) h he
    split
    · exact .bind fun _ => yields_pure rfl
    · exact .bind fun _ => yields_pure rfl
    · exact .bind fun _ => yields_pure rfl
    · exact yields_unexpected
  · obtain ⟨isAsync, s₁, hasync, h⟩ := runs_bind.1 h
    obtain rfl := keeps_isAsyncFunction hasync
    split at h
    · exact NoData.absurd (.bind fun _ => .bind fun _ => .bind fun _ => yields_pure rfl) h he
    · obtain ⟨word, s₂, hword, h⟩ := runs_bind.1 h
      obtain rfl := keeps_isOperatorWord _ hword
      split at h
      · rw [runs_advance, runs_extentFrom] at h
        obtain ⟨rfl, rfl⟩ := runs_pure.1 h
        exact .identifier ‹_›
      · exact absurd h runs_unexpected
  · exact absurd h runs_unexpected

theorem element_of_item (h : Runs (element go) setting s (.item e) s') :
    Runs (withIn go.assignment) setting s e s' := by
  rw [element, runs_start, runs_isPunctuator, runs_isPunctuator] at h
  split at h
  · cases (runs_pure.1 h).1
  · rcases runs_eat.1 h with ⟨-, h⟩ | ⟨-, h⟩
    · obtain ⟨_, _, -, h⟩ := runs_bind.1 h
      rw [runs_extentFrom] at h
      cases (runs_pure.1 h).1
    · obtain ⟨e', s₁, hitem, h⟩ := runs_bind.1 h
      obtain ⟨heq, rfl⟩ := runs_pure.1 h
      cases heq
      exact hitem

/-- A key of data is one token, a name or a string. -/
theorem propertyKey_runs {key : PropertyKey} {x : Extent} {computed : Bool}
    (h : Runs (propertyKey go) setting s (key, x, computed) s') :
    (∃ text, (s.token.kind = .name text ∧ key = .identifier text ∨
        s.token.kind = .string text ∧ key = .string text) ∧
      x = ⟨s.token.start, s.token.stop⟩ ∧ s' = s.next setting) ∨ (∃ d, key = .number d) ∨ key = .other := by
  rw [propertyKey, runs_start, runs_kind] at h
  split at h
  · rw [runs_advance, runs_extentFrom] at h
    obtain ⟨heq, rfl⟩ := runs_pure.1 h
    cases heq
    exact .inl ⟨_, .inl ⟨‹_›, rfl⟩, rfl, rfl⟩
  · rw [runs_advance, runs_extentFrom] at h
    obtain ⟨heq, rfl⟩ := runs_pure.1 h
    cases heq
    exact .inl ⟨_, .inr ⟨‹_›, rfl⟩, rfl, rfl⟩
  · rw [runs_advance, runs_extentFrom] at h
    cases (runs_pure.1 h).1
    exact .inr (.inl ⟨_, rfl⟩)
  · rw [runs_advance, runs_extentFrom] at h
    cases (runs_pure.1 h).1
    exact .inr (.inr rfl)
  · rw [runs_advance] at h
    obtain ⟨_, _, -, h⟩ := runs_bind.1 h
    obtain ⟨-, h⟩ := runs_expect.1 h
    rw [runs_extentFrom] at h
    cases (runs_pure.1 h).1
    exact .inr (.inr rfl)
  · exact absurd h runs_unexpected

/-- A property that is a key with its value. -/
def Property.isPair : Property source → Bool
  | .pair .. => true
  | _ => false

/-- A reader returns no key with its value. -/
abbrev NoPair (r : Reader source (Property source)) : Prop := Yields r fun p => p.isPair = false

theorem NoPair.absurd {r : Reader source (Property source)} {p : Property source} {C : Prop} (hr : NoPair r)
    (h : Runs r setting s p s') (hp : p.isPair = true) : C := by
  rw [hr h] at hp
  cases hp

theorem noPair_methodProperty {n : Nat} {isAsync generator : Bool} :
    NoPair (methodProperty go n isAsync generator) :=
  .bind fun _ => .bind fun _ => .bind fun _ => .bind fun _ => yields_pure rfl

/-- Behind what may stand in front of a key: a key with its value has none of it. -/
theorem propertyRest_of_pair {n : Nat} {isAsync generator mayBeShorthand : Bool} {key : PropertyKey}
    {keyExtent x : Extent} (h : Runs (do
      let (key, keyExtent, computed) ← propertyKey go
      if isAsync || generator || (← isPunctuator "(") || (← isPunctuator "<") then
        methodProperty go n isAsync generator
      else if mayBeShorthand && !(← isPunctuator ":") then
        if ← eat "=" then
          let _ ← withIn go.assignment
          modify fun st => { st with openDefaults := st.openDefaults ++ [n] }
          return .shorthand (← extentFrom n)
        else return .shorthand (← extentFrom n)
      else
        expect ":"
        let value ← withIn go.assignment
        if computed then return .computed value (← extentFrom n)
        else return .pair key keyExtent value (← extentFrom n)) setting s (.pair key keyExtent e x) s') :
    isAsync = false ∧ generator = false ∧ ∃ s₁, Runs (propertyKey go) setting s (key, keyExtent, false) s₁ ∧
      s₁.token.kind = .punctuator ":" ∧ Runs (withIn go.assignment) setting (s₁.next setting) e s' := by
  obtain ⟨⟨key', keyExtent', computed⟩, s₁, hkey, h⟩ := runs_bind.1 h
  dsimp only at h
  rw [runs_isPunctuator, runs_isPunctuator] at h
  split at h
  · exact noPair_methodProperty.absurd h rfl
  rename_i hplain
  rw [runs_isPunctuator] at h
  split at h
  · refine NoPair.absurd (.bind fun hasDefault => ?_) h rfl
    split
    · exact .bind fun _ => .bind fun _ => .bind fun _ => yields_pure rfl
    · exact .bind fun _ => yields_pure rfl
  · obtain ⟨hcolon, h⟩ := runs_expect.1 h
    obtain ⟨value, s₂, hvalue, h⟩ := runs_bind.1 h
    split at h
    · rw [runs_extentFrom] at h
      cases (runs_pure.1 h).1
    · rw [runs_extentFrom] at h
      obtain ⟨heq, rfl⟩ := runs_pure.1 h
      cases heq
      cases computed with
      | true => contradiction
      | false =>
        simp only [Bool.or_eq_true, not_or, Bool.not_eq_true] at hplain
        exact ⟨hplain.1.1.1, hplain.1.1.2, s₁, hkey, hcolon, hvalue⟩

theorem property_of_pair {key : PropertyKey} {keyExtent x : Extent}
    (h : Runs (property go) setting s (.pair key keyExtent e x) s') :
    ∃ s₁, Runs (propertyKey go) setting s (key, keyExtent, false) s₁ ∧
      s₁.token.kind = .punctuator ":" ∧ Runs (withIn go.assignment) setting (s₁.next setting) e s' := by
  rw [property, runs_start] at h
  rcases runs_eat.1 h with ⟨-, h⟩ | ⟨-, h⟩
  · exact NoPair.absurd (.bind fun _ => .bind fun _ => yields_pure rfl) h rfl
  · obtain ⟨isAsync, s₁, hasync, h⟩ := runs_bind.1 h
    obtain rfl := keeps_isPropertyModifier _ hasync
    dsimp only at h
    cases isAsync with
    | true =>
      refine NoPair.absurd (.bind fun _ => .bind fun isGetter => .bind fun isSetter => ?_) h rfl
      refine .bind fun generator => .bind fun k => ?_
      split
      · exact .bind fun _ => .bind fun _ => .bind fun _ => .bind fun _ => .bind fun _ => noPair_methodProperty
      · exact .bind fun _ => .bind fun _ => .bind fun _ => .bind fun _ => noPair_methodProperty
    | false =>
      obtain ⟨isGetter, s₂, hget, h⟩ := runs_bind.1 h
      obtain rfl := keeps_isPropertyModifier _ hget
      obtain ⟨isSetter, s₃, hset, h⟩ := runs_bind.1 h
      obtain rfl := keeps_isPropertyModifier _ hset
      split at h
      · exact NoPair.absurd (.bind fun _ => .bind fun _ => .bind fun _ => .bind fun _ => .bind fun _ =>
          .bind fun _ => yields_pure rfl) h rfl
      · -- a star in front of the key makes a method of it
        rcases runs_eat.1 h with ⟨-, h⟩ | ⟨-, h⟩
        · rw [runs_kind] at h
          split at h
          · obtain ⟨word, s₄, hword, h⟩ := runs_bind.1 h
            obtain ⟨-, hgenerator, -⟩ := propertyRest_of_pair h
            cases hgenerator
          · obtain ⟨-, hgenerator, -⟩ := propertyRest_of_pair h
            cases hgenerator
        · rw [runs_kind] at h
          split at h
          · obtain ⟨word, s₄, hword, h⟩ := runs_bind.1 h
            obtain rfl := keeps_isOperatorWord _ hword
            exact (propertyRest_of_pair h).2.2
          · exact (propertyRest_of_pair h).2.2

end MessageCatalog.Script
