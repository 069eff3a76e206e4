/-
Texts by the tokens they are cut into, and readers that stand in front of such a text without having
found a fault.
-/
import MessageCatalog.Proofs.Script.Run
import MessageCatalog.Proofs.Text.Position

namespace MessageCatalog.Script

open MessageCatalog.Text

/-! ## Trivia -/

/-- Blanks and comments of a text lead to a text that starts with none. -/
def Leads (cs text : List Char) : Prop :=
  ∀ (newLine : Bool) (fuel : Nat), cs.length < fuel →
    ∃ newLine', skipTrivia newLine fuel cs = .skipped newLine' text

theorem Leads.suffix {cs text : List Char} (h : Leads cs text) : text <:+ cs := by
  obtain ⟨newLine, hskip⟩ := h false _ (Nat.lt_succ_self _)
  have hsuffix := skipTrivia_suffix false (cs.length + 1) cs
  rwa [hskip] at hsuffix

theorem Leads.nextToken {cs text : List Char} (h : Leads cs text) (offset : OffsetOf) :
    ∃ newLine atStart, nextToken offset cs =
      (⟨(cutToken offset atStart text).kind, offset text, offset (cutToken offset atStart text).rest,
          newLine, text⟩,
        (cutToken offset atStart text).rest, (cutToken offset atStart text).faults) := by
  obtain ⟨newLine, hskip⟩ := h false _ (Nat.lt_succ_self _)
  refine ⟨newLine, offset cs = 0 && offset text = 0, ?_⟩
  unfold Script.nextToken
  rw [hskip]

/-! ## Pieces -/

/-- A part of a text: a token, or the code of a function. -/
inductive Piece where
  | token (kind : TokenKind)
  | code (text : List Char)

abbrev Piece.punctuator (text : String) : Piece := .token (.punctuator text)

/-- How many goals within one another the reading of a piece may take. -/
def Piece.depth : Piece → Nat
  | .token _ => 4
  | .code text => 4 * text.length

def depthOf : List Piece → Nat
  | [] => 0
  | p :: ps => p.depth + depthOf ps

@[simp] theorem depthOf_nil : depthOf [] = 0 := rfl

@[simp] theorem depthOf_cons (p : Piece) (ps : List Piece) : depthOf (p :: ps) = p.depth + depthOf ps := rfl

@[simp] theorem depthOf_append (ps qs : List Piece) : depthOf (ps ++ qs) = depthOf ps + depthOf qs := by
  induction ps with
  | nil => simp
  | cons p ps ih =>
    rw [List.cons_append, depthOf_cons, depthOf_cons, ih]
    omega

theorem depthOf_le_of_sublist {ps qs : List Piece} (h : ps.Sublist qs) : depthOf ps ≤ depthOf qs := by
  induction h with
  | slnil => exact Nat.le_refl _
  | cons _ _ ih =>
    rw [depthOf_cons]
    omega
  | cons_cons _ _ ih =>
    rw [depthOf_cons, depthOf_cons]
    omega

/-- The kinds of token that a function can start with. -/
def startsFunction : TokenKind → Bool
  | .name _ => true
  | .punctuator p => p = "(" || p = "<"
  | _ => false

/-- A text is cut into pieces without a fault. -/
inductive Cuts (offset : OffsetOf) : List Char → List Piece → Prop where
  | done {cs : List Char} (leads : Leads cs []) : Cuts offset cs []
  | token {cs text rest : List Char} {kind : TokenKind} {ps : List Piece} (leads : Leads cs text)
    (cut : ∀ atStart, cutToken offset atStart text = ⟨kind, rest, []⟩)
    (shorter : rest.length < text.length) (behind : Cuts offset rest ps) :
    Cuts offset cs (.token kind :: ps)
  | code {cs code rest inner : List Char} {kind : TokenKind} {ps : List Piece}
    (leads : Leads cs (code ++ rest))
    (cut : ∀ atStart, cutToken offset atStart (code ++ rest) = ⟨kind, inner, []⟩)
    (starts : startsFunction kind = true) (nonempty : code ≠ []) (behind : Cuts offset rest ps) :
    Cuts offset cs (.code code :: ps)

section

variable {offset : OffsetOf} {cs : List Char} {ps : List Piece}

theorem Cuts.length_le (h : Cuts offset cs ps) : ps.length ≤ cs.length := by
  induction h with
  | done => exact Nat.zero_le _
  | token leads _ shorter _ ih =>
    exact Nat.lt_of_le_of_lt ih (Nat.lt_of_lt_of_le shorter leads.suffix.length_le)
  -- a code counts as one piece, however long it is
  | code leads _ _ nonempty _ ih =>
    have htext := leads.suffix.length_le
    have hcode := List.length_pos_iff.2 nonempty
    rw [List.length_append] at htext
    rw [List.length_cons]
    omega

theorem Cuts.depth_le (h : Cuts offset cs ps) : depthOf ps ≤ 4 * cs.length := by
  induction h with
  | done => exact Nat.zero_le _
  | token leads _ shorter _ ih =>
    have htext := leads.suffix.length_le
    rw [depthOf_cons, Piece.depth]
    omega
  | code leads _ _ _ _ ih =>
    have htext := leads.suffix.length_le
    rw [List.length_append] at htext
    rw [depthOf_cons, Piece.depth]
    omega

theorem Cuts.faultless (h : Cuts offset cs ps) : (nextToken offset cs).2.2 = [] := by
  cases h with
  | done leads =>
    obtain ⟨_, _, hnext⟩ := leads.nextToken offset
    rw [hnext]
    rfl
  | token leads cut =>
    obtain ⟨_, atStart, hnext⟩ := leads.nextToken offset
    rw [hnext, cut]
  | code leads cut =>
    obtain ⟨_, atStart, hnext⟩ := leads.nextToken offset
    rw [hnext, cut]

end

/-- What stands behind a value in a literal: a comma or a closing bracket. -/
def Closes : List Piece → Prop
  | .token kind :: _ =>
    kind = .punctuator "," ∨ kind = .punctuator "]" ∨ kind = .punctuator "\x7d"
  | _ => False

/-! ## Standing in front of a text -/

/-- A reader that is in front of a text and has found no fault. -/
structure ReaderState.Faces {source : List Char} (size : Nat) (s : ReaderState source)
    (cs : List Char) : Prop where
  inSource : cs <:+ source
  cut : nextToken (offsetIn size) cs = (s.token, s.rest, [])
  tokenFaults : s.tokenFaults = #[]
  faults : s.faults = #[]
  openDefaults : s.openDefaults = []

/-- A reader that is in front of pieces. -/
def ReaderState.At {source : List Char} (size : Nat) (s : ReaderState source) (ps : List Piece) : Prop :=
  ∃ cs, s.Faces size cs ∧ Cuts (offsetIn size) cs ps

/-- A reader that is in front of pieces and knows where it came from. -/
def ReaderState.Behind {source : List Char} (size : Nat) (s : ReaderState source)
    (ps : List Piece) : Prop :=
  ∃ cs, s.Faces size cs ∧ Cuts (offsetIn size) cs ps ∧ s.previousStop = offsetIn size cs

section

variable {source : List Char} {setting : Setting source} {s : ReaderState source} {ps : List Piece}
  {kind : TokenKind} {size : Nat}

theorem ReaderState.Behind.at (h : s.Behind size ps) : s.At size ps := by
  obtain ⟨cs, hfaces, hcuts, -⟩ := h
  exact ⟨cs, hfaces, hcuts⟩

/-- A text has at least as many bytes as pieces. -/
theorem ReaderState.At.length_le (h : s.At setting.size ps) : ps.length ≤ setting.size := by
  obtain ⟨cs, hfaces, hcuts⟩ := h
  rw [setting.size_eq]
  exact Nat.le_trans hcuts.length_le
    (Nat.le_trans hfaces.inSource.length_le (length_le_byteLength source))

/-- Taking a token leads to what is behind it. -/
theorem ReaderState.Faces.advanced {cs rest : List Char} (h : s.Faces setting.size cs)
    (hrest : s.rest = rest) (hcuts : Cuts (offsetIn setting.size) rest ps) :
    (s.next setting).Faces setting.size rest ∧
      (s.next setting).previousStop = offsetIn setting.size rest := by
  subst hrest
  refine ⟨⟨s.stands.inText.trans s.stands.inSource, ?_, ?_, h.faults, h.openDefaults⟩, ?_⟩
  · rw [← hcuts.faultless]
    rfl
  · show s.tokenFaults ++ (nextToken _ s.rest).2.2.toArray = #[]
    rw [h.tokenFaults, hcuts.faultless]
    rfl
  · show s.token.stop = _
    rw [s.stands.stop, setting.size_eq]
    rfl

theorem ReaderState.Faces.next {cs rest : List Char} (h : s.Faces setting.size cs)
    (hrest : s.rest = rest) (hcuts : Cuts (offsetIn setting.size) rest ps) :
    (s.next setting).Behind setting.size ps := by
  obtain ⟨hfaces, hstop⟩ := h.advanced hrest hcuts
  exact ⟨rest, hfaces, hcuts, hstop⟩

theorem ReaderState.At.kind_eq (h : s.At size (.token kind :: ps)) : s.token.kind = kind := by
  obtain ⟨cs, hfaces, hcuts⟩ := h
  cases hcuts with
  | token leads cut =>
    obtain ⟨_, atStart, hnext⟩ := leads.nextToken (offsetIn size)
    rw [hfaces.cut, cut] at hnext
    rw [(Prod.mk.inj hnext).1]

theorem ReaderState.At.ended (h : s.At size []) : s.token.kind = .endOfText := by
  obtain ⟨cs, hfaces, hcuts⟩ := h
  cases hcuts with
  | done leads =>
    obtain ⟨_, atStart, hnext⟩ := leads.nextToken (offsetIn size)
    rw [hfaces.cut] at hnext
    rw [(Prod.mk.inj hnext).1]
    rfl

theorem ReaderState.At.next (h : s.At setting.size (.token kind :: ps)) :
    (s.next setting).Behind setting.size ps := by
  obtain ⟨cs, hfaces, hcuts⟩ := h
  cases hcuts with
  | token leads cut _ behind =>
    obtain ⟨_, atStart, hnext⟩ := leads.nextToken (offsetIn setting.size)
    rw [hfaces.cut, cut] at hnext
    exact hfaces.next (Prod.mk.inj (Prod.mk.inj hnext).2).1 behind

/-- The kinds of token that close a value. -/
def closingKinds : List TokenKind :=
  [.punctuator ",", .punctuator "]", .punctuator "\x7d", .endOfText]

theorem ReaderState.At.closes (h : s.At size ps) (hps : ps = [] ∨ Closes ps) :
    s.token.kind ∈ closingKinds := by
  rcases hps with rfl | hps
  · simp [h.ended, closingKinds]
  · match ps, hps with
    | .token kind :: _, hkind =>
      rw [h.kind_eq]
      rcases hkind with rfl | rfl | rfl <;> simp [closingKinds]

end

end MessageCatalog.Script
