/-
What the small readers do to a state: most only look at the current token, and none but `advance`
moves on.
-/
import MessageCatalog.Script.Goal

namespace MessageCatalog.Script

namespace Reader

variable {source : List Char} {setting : Setting source} {s s' : ReaderState source} {α β : Type}

/-! ## Chaining -/

@[simp] theorem run_pure (a : α) : (pure a : Reader source α) setting s = .ok (a, s) := rfl

@[simp] theorem run_bind (r : Reader source α) (f : α → Reader source β) :
    (r >>= f) setting s = (r setting s).bind fun p => f p.1 setting p.2 := rfl

@[simp] theorem run_map (f : α → β) (r : Reader source α) :
    (f <$> r) setting s = (r setting s).bind fun p => .ok (f p.1, p.2) := rfl

@[simp] theorem ok_bind {ε γ δ : Type} (a : γ) (f : γ → Except ε δ) : (Except.ok a).bind f = f a := rfl

/-! ## Looking at the current token -/

@[simp] theorem run_get : (get : Reader source (ReaderState source)) setting s = .ok (s, s) := rfl

@[simp] theorem run_current : current setting s = .ok (s.token, s) := rfl

@[simp] theorem run_kind : kind setting s = .ok (s.token.kind, s) := rfl

@[simp] theorem run_start : start setting s = .ok (s.token.start, s) := rfl

@[simp] theorem run_extentFrom (n : Nat) : extentFrom n setting s = .ok (⟨n, s.previousStop⟩, s) := rfl

@[simp] theorem run_isPunctuator (text : String) :
    isPunctuator text setting s = .ok (s.token.kind == .punctuator text, s) := rfl

@[simp] theorem run_isWord (text : String) :
    isWord text setting s = .ok (s.token.kind == .name text, s) := rfl

@[simp] theorem run_onNewLine : onNewLine setting s = .ok (s.token.onNewLine, s) := rfl

@[simp] theorem run_around : around setting s = .ok (setting.around, s) := rfl

@[simp] theorem run_rounds : rounds setting s = .ok (setting.size + 2, s) := rfl

@[simp] theorem run_peek : peek setting s =
    .ok (((s.next setting).token.kind, (s.next setting).token.onNewLine), s) := rfl

/-! ## Moving on -/

@[simp] theorem run_advance : advance setting s = .ok ((), s.next setting) := rfl

@[simp] theorem next_previousStop : (s.next setting).previousStop = s.token.stop := rfl

@[simp] theorem run_modify (f : ReaderState source → ReaderState source) :
    (modify f : Reader source PUnit) setting s = .ok ((), f s) := rfl

@[simp] theorem run_within (change : Surroundings → Surroundings) (r : Reader source α) :
    within change r setting s = r { setting with around := change setting.around } s := rfl

theorem run_eat_of_ne {text : String} (h : s.token.kind ≠ .punctuator text) :
    eat text setting s = .ok (false, s) := by
  simp [eat, h]

theorem run_expect {text : String} (h : s.token.kind = .punctuator text) :
    expect text setting s = .ok ((), s.next setting) := by
  simp [expect, h]

end Reader

end MessageCatalog.Script
