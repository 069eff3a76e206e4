/-
Runs of readers, taken apart: a run of one reader behind another is a run of each. A reader is known by
what all its runs return, or by taking nothing.
-/
import MessageCatalog.Proofs.Error
import MessageCatalog.Proofs.Script.Run
import MessageCatalog.Script.Grammar

namespace MessageCatalog.Script

open Reader Expression

variable {source : List Char} {setting : Setting source} {s s' : ReaderState source}
  {go : Readers source} {e : Expr source} {α β : Type}

/-! ## Runs -/

/-- A reader gets from a state to another one and returns something. -/
def Runs (r : Reader source α) (setting : Setting source) (s : ReaderState source) (a : α)
    (s' : ReaderState source) : Prop := r setting s = .ok (a, s')

section

variable {r : Reader source α} {a : α} {b : β}

theorem runs_bind {f : α → Reader source β} :
    Runs (r >>= f) setting s b s' ↔ ∃ a s₁, Runs r setting s a s₁ ∧ Runs (f a) setting s₁ b s' := by
  refine bind_eq_ok.trans ?_
  exact ⟨fun ⟨⟨a, s₁⟩, h⟩ => ⟨a, s₁, h⟩, fun ⟨a, s₁, h⟩ => ⟨(a, s₁), h⟩⟩

@[simp] theorem runs_pure {c : α} : Runs (pure c : Reader source α) setting s a s' ↔ c = a ∧ s = s' := by
  simp [Runs]

@[simp] theorem runs_stopAt {n : Nat} : ¬ Runs (stopAt n : Reader source α) setting s a s' := nofun

@[simp] theorem runs_kind {f : TokenKind → Reader source β} :
    Runs (kind >>= f) setting s b s' ↔ Runs (f s.token.kind) setting s b s' := .rfl

@[simp] theorem runs_current {f : Token → Reader source β} :
    Runs (current >>= f) setting s b s' ↔ Runs (f s.token) setting s b s' := .rfl

@[simp] theorem runs_start {f : Nat → Reader source β} :
    Runs (start >>= f) setting s b s' ↔ Runs (f s.token.start) setting s b s' := .rfl

@[simp] theorem runs_get {f : ReaderState source → Reader source β} :
    Runs (get >>= f) setting s b s' ↔ Runs (f s) setting s b s' := .rfl

@[simp] theorem runs_isPunctuator {text : String} {f : Bool → Reader source β} :
    Runs (isPunctuator text >>= f) setting s b s' ↔
      Runs (f (s.token.kind == .punctuator text)) setting s b s' := .rfl

@[simp] theorem runs_isWord {text : String} {f : Bool → Reader source β} :
    Runs (isWord text >>= f) setting s b s' ↔ Runs (f (s.token.kind == .name text)) setting s b s' := .rfl

@[simp] theorem runs_onNewLine {f : Bool → Reader source β} :
    Runs (onNewLine >>= f) setting s b s' ↔ Runs (f s.token.onNewLine) setting s b s' := .rfl

@[simp] theorem runs_around {f : Surroundings → Reader source β} :
    Runs (around >>= f) setting s b s' ↔ Runs (f setting.around) setting s b s' := .rfl

@[simp] theorem runs_rounds {f : Nat → Reader source β} :
    Runs (rounds >>= f) setting s b s' ↔ Runs (f (setting.size + 2)) setting s b s' := .rfl

@[simp] theorem runs_extentFrom {n : Nat} {f : Extent → Reader source β} :
    Runs (extentFrom n >>= f) setting s b s' ↔ Runs (f ⟨n, s.previousStop⟩) setting s b s' := .rfl

@[simp] theorem runs_peek {f : TokenKind × Bool → Reader source β} :
    Runs (peek >>= f) setting s b s' ↔
      Runs (f ((s.next setting).token.kind, (s.next setting).token.onNewLine)) setting s b s' := .rfl

@[simp] theorem runs_advance {f : PUnit → Reader source β} :
    Runs (advance >>= f) setting s b s' ↔ Runs (f ()) setting (s.next setting) b s' := .rfl

@[simp] theorem runs_fault {n : Nat} {f : PUnit → Reader source β} :
    Runs (fault n >>= f) setting s b s' ↔
      Runs (f ()) setting { s with faults := s.faults.push n } b s' := .rfl

@[simp] theorem runs_unexpected : ¬ Runs (unexpected : Reader source α) setting s a s' := by
  unfold unexpected
  rw [runs_get]
  repeat' split
  all_goals first | exact runs_stopAt | nofun

theorem runs_eat {text : String} {f : Bool → Reader source β} :
    Runs (eat text >>= f) setting s b s' ↔
      s.token.kind = .punctuator text ∧ Runs (f true) setting (s.next setting) b s' ∨
        s.token.kind ≠ .punctuator text ∧ Runs (f false) setting s b s' := by
  by_cases h : s.token.kind = .punctuator text
  · have heat : Runs (eat text) setting s true (s.next setting) := by simp [Runs, eat, h]
    simp only [Runs] at heat ⊢
    simp [heat, h]
  · have heat : Runs (eat text) setting s false s := run_eat_of_ne h
    simp only [Runs] at heat ⊢
    simp [heat, h]

theorem runs_expect {text : String} {f : PUnit → Reader source β} :
    Runs (expect text >>= f) setting s b s' ↔
      s.token.kind = .punctuator text ∧ Runs (f ()) setting (s.next setting) b s' := by
  by_cases h : s.token.kind = .punctuator text
  · have hexpect : expect text setting s = _ := run_expect h
    simp [Runs, hexpect, h]
  · refine ⟨fun hrun => ?_, fun hrun => absurd hrun.1 h⟩
    obtain ⟨_, _, hexpect, -⟩ := runs_bind.1 hrun
    simp [expect, h] at hexpect

theorem runs_withIn : Runs (withIn r) setting s a s' ↔
    Runs r { setting with around := { setting.around with allowIn := true } } s a s' := .rfl

end

/-! ## What readers return -/

/-- Whatever a reader returns has a property. -/
def Yields (r : Reader source α) (P : α → Prop) : Prop :=
  ∀ ⦃setting : Setting source⦄ ⦃s : ReaderState source⦄ ⦃a : α⦄ ⦃s' : ReaderState source⦄,
    Runs r setting s a s' → P a

/-- A reader looks around and takes nothing. -/
def Keeps (r : Reader source α) : Prop :=
  ∀ ⦃setting : Setting source⦄ ⦃s : ReaderState source⦄ ⦃a : α⦄ ⦃s' : ReaderState source⦄,
    Runs r setting s a s' → s' = s

section

variable {P : β → Prop} {r : Reader source α} {f : α → Reader source β}

theorem yields_pure {b : β} (h : P b) : Yields (pure b : Reader source β) P := by
  intro setting s a s' hrun
  obtain ⟨rfl, -⟩ := runs_pure.1 hrun
  exact h

theorem yields_unexpected : Yields (unexpected : Reader source β) P :=
  fun _ _ _ _ h => absurd h runs_unexpected

theorem yields_stopAt (n : Nat) : Yields (stopAt n : Reader source β) P :=
  fun _ _ _ _ h => absurd h runs_stopAt

theorem Yields.bind (h : ∀ a, Yields (f a) P) : Yields (r >>= f) P := by
  intro setting s b s' hrun
  obtain ⟨a, s₁, -, hrun⟩ := runs_bind.1 hrun
  exact h a hrun

theorem keeps_pure {b : β} : Keeps (pure b : Reader source β) := by
  intro setting s a s' hrun
  exact (runs_pure.1 hrun).2.symm

theorem keeps_lookahead (default : α) (r : Reader source α) : Keeps (lookahead default r) := by
  intro setting s a s' hrun
  simp only [Runs, lookahead] at hrun
  split at hrun
  · cases hrun
    rfl
  · cases hrun
    rfl

theorem Keeps.bind (hr : Keeps r) (hf : ∀ a, Keeps (f a)) : Keeps (r >>= f) := by
  intro setting s b s' hrun
  obtain ⟨a, s₁, hfirst, hrun⟩ := runs_bind.1 hrun
  rw [hf a hrun, hr hfirst]

theorem keeps_kind : Keeps (kind : Reader source TokenKind) := by
  intro setting s a s' hrun
  cases hrun
  rfl

theorem keeps_isWord (text : String) : Keeps (isWord text : Reader source Bool) := by
  intro setting s a s' hrun
  cases hrun
  rfl

theorem keeps_around : Keeps (around : Reader source Surroundings) := by
  intro setting s a s' hrun
  cases hrun
  rfl

theorem keeps_peek : Keeps (peek : Reader source (TokenKind × Bool)) := keeps_lookahead _ _

/-- An attempt that comes to nothing is taken back. -/
theorem runs_attempt_none (h : Runs (attempt r) setting s none s') : s' = s := by
  simp only [Runs, attempt] at h
  split at h <;> cases h
  rfl

theorem runs_attempt_some {a : α} (h : Runs (attempt r) setting s (some a) s') : Runs r setting s a s' := by
  simp only [Runs, attempt] at h
  split at h <;> cases h
  assumption

end

end MessageCatalog.Script
