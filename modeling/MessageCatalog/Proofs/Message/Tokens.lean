/-
The tokens of a message: `Tokenized` has one rule for each kind of token that can come first, at any
place of the text in the message, and derives the tokens that are cut.
-/
import MessageCatalog.Message.Parser
import MessageCatalog.Proofs.Error

namespace MessageCatalog.Message

open MessageCatalog.Text

/-! ## What is read -/

/-- A placeholder is a quoted literal between its braces, or a name or an index. -/
theorem placeholder_eq_ok {opening : Nat} {cs rest : List Char} {part : Part} :
    placeholder opening cs = .ok (part, rest) ↔
      (∃ body behind s, cs.dropWhile isBlank = '\'' :: body ∧ quotedLiteral body = some (s, behind) ∧
        behind.dropWhile isBlank = '\x7d' :: rest ∧ part = .literal s) ∨
      (∀ body, cs.dropWhile isBlank ≠ '\'' :: body) ∧
        (cs.dropWhile isBlank).dropWhile (!isBrace ·) = '\x7d' :: rest ∧
        placeholderPart (trim ((cs.dropWhile isBlank).takeWhile (!isBrace ·))) = .ok part := by
  constructor
  · intro h
    unfold placeholder at h
    split at h
    · rename_i body hbody
      split at h
      · cases h
      · rename_i s behind hread
        split at h
        · rename_i hclose
          cases h
          exact .inl ⟨body, behind, s, hbody, hread, hclose, rfl⟩
        · cases h
    · rename_i hquote
      split at h
      · rename_i hclose
        split at h
        · rename_i hpart
          cases h
          exact .inr ⟨hquote, hclose, hpart⟩
        · cases h
      · cases h
  · rintro (⟨body, behind, s, hbody, hread, hclose, rfl⟩ | ⟨hquote, hclose, hpart⟩)
    · simp only [placeholder, hbody, hread, hclose]
    · unfold placeholder
      split
      · exact absurd ‹_› (hquote _)
      · simp only [hclose, hpart]

theorem linkKey_eq_ok {cs key rest : List Char} :
    linkKey cs = .ok (key, rest) ↔
      (∃ body, cs = '(' :: body ∧ body.dropWhile (· ≠ ')') = ')' :: rest ∧
        key = trim (body.takeWhile (· ≠ ')'))) ∨
      (∀ body, cs ≠ '(' :: body) ∧ key = dropDots (cs.takeWhile isLinkKeyChar) ∧
        rest = cs.drop key.length := by
  constructor
  · intro h
    unfold linkKey at h
    split at h
    · rename_i body
      split at h
      · rename_i hclose
        cases h
        exact .inl ⟨body, rfl, hclose, rfl⟩
      · cases h
    · rename_i hparen
      cases h
      exact .inr ⟨hparen, rfl, rfl⟩
  · rintro (⟨body, rfl, hclose, rfl⟩ | ⟨hparen, rfl, rfl⟩)
    · simp only [linkKey, hclose]
    · unfold linkKey
      split
      · exact absurd rfl (hparen _)
      · rfl

theorem linked_eq_ok {opening : Nat} {modifier : Option (List Char)} {cs rest : List Char} {part : Part} :
    linked opening modifier cs = .ok (part, rest) ↔
      ∃ key, linkKey cs = .ok (key, rest) ∧ key ≠ [] ∧ part = .linked key modifier := by
  constructor
  · intro h
    unfold linked at h
    split at h
    · cases h
    · rename_i key behind hkey
      split at h
      · cases h
      · cases h
        exact ⟨key, hkey, ‹_›, rfl⟩
  · rintro ⟨key, hkey, hne, rfl⟩
    simp only [linked, hkey, if_neg hne]

/-! ## The first token -/

theorem tokens_nil (pos : Nat) : tokens pos [] = .ok [] := by rw [tokens]

theorem tokens_bar (pos : Nat) (cs : List Char) :
    tokens pos ('|' :: cs) = (tokens (pos + 1) cs).map (.bar :: ·) := by
  rw [tokens]
  cases tokens (pos + 1) cs <;> rfl

/-- A character of text: no brace, no bar and not the start of a linked message. -/
theorem tokens_char {c : Char} {cs : List Char} (hbrace : c ≠ '\x7b') (hbar : c ≠ '|')
    (hlink : c = '@' → linkHead? cs = none) (pos : Nat) :
    tokens pos (c :: cs) = (tokens (pos + c.utf8Size) cs).map (.char c pos :: ·) := by
  by_cases hat : c = '@'
  · subst hat
    rw [tokens]
    split
    · show (tokens (pos + 1) cs).bind _ = (tokens (pos + 1) cs).map _
      cases tokens (pos + 1) cs <;> rfl
    · rename_i modifier key hk
      rw [hlink rfl] at hk
      cases hk
  · rw [tokens]
    · cases tokens (pos + c.utf8Size) cs <;> rfl
    all_goals assumption

theorem tokens_placeholder {pos : Nat} {body rest : List Char} {part : Part}
    (h : placeholder pos body = .ok (part, rest)) :
    tokens pos ('\x7b' :: body) =
      (tokens (pos + byteLength ('\x7b' :: body) - byteLength rest) rest).map
        (.item ⟨part, pos⟩ :: ·) := by
  rw [tokens]
  split
  · rename_i e he
    rw [h] at he
    cases he
  · rename_i part' rest' hp
    rw [h] at hp
    cases hp
    cases tokens _ rest <;> rfl

theorem tokens_placeholder_error {pos : Nat} {body : List Char} {e : Error}
    (h : placeholder pos body = .error e) : tokens pos ('\x7b' :: body) = .error e := by
  rw [tokens]
  split
  · rename_i he
    rw [h] at he
    cases he
    rfl
  · rename_i hp
    rw [h] at hp
    cases hp

theorem tokens_link {pos : Nat} {body key rest : List Char} {modifier : Option (List Char)}
    {part : Part} (hhead : linkHead? body = some (modifier, key))
    (h : linked pos modifier key = .ok (part, rest)) :
    tokens pos ('@' :: body) =
      (tokens (pos + byteLength ('@' :: body) - byteLength rest) rest).map
        (.item ⟨part, pos⟩ :: ·) := by
  rw [tokens]
  split
  · rename_i hn
    rw [hhead] at hn
    cases hn
  · rename_i modifier' key' hk
    rw [hhead] at hk
    cases hk
    split
    · rename_i e he
      rw [h] at he
      cases he
    · rename_i part' rest' hp
      rw [h] at hp
      cases hp
      cases tokens _ rest <;> rfl

theorem tokens_link_error {pos : Nat} {body key : List Char} {modifier : Option (List Char)} {e : Error}
    (hhead : linkHead? body = some (modifier, key)) (h : linked pos modifier key = .error e) :
    tokens pos ('@' :: body) = .error e := by
  rw [tokens]
  split
  · rename_i hn
    rw [hhead] at hn
    cases hn
  · rename_i hk
    rw [hhead] at hk
    cases hk
    split
    · rename_i he
      rw [h] at he
      cases he
      rfl
    · rename_i hp
      rw [h] at hp
      cases hp

/-! ## All tokens -/

/-- The tokens of a text at a place, one rule for each kind of token that can come first. -/
inductive Tokenized : Nat → List Char → List Token → Prop where
  | nil (pos : Nat) : Tokenized pos [] []
  | bar {pos : Nat} {cs : List Char} {ts : List Token} (others : Tokenized (pos + 1) cs ts) :
    Tokenized pos ('|' :: cs) (.bar :: ts)
  | char {pos : Nat} {c : Char} {cs : List Char} {ts : List Token} (brace : c ≠ '\x7b')
    (bar : c ≠ '|') (link : c = '@' → linkHead? cs = none)
    (others : Tokenized (pos + c.utf8Size) cs ts) : Tokenized pos (c :: cs) (.char c pos :: ts)
  | placeholder {pos : Nat} {body rest : List Char} {part : Part} {ts : List Token}
    (read : placeholder pos body = .ok (part, rest))
    (others : Tokenized (pos + byteLength ('\x7b' :: body) - byteLength rest) rest ts) :
    Tokenized pos ('\x7b' :: body) (.item ⟨part, pos⟩ :: ts)
  | link {pos : Nat} {body key rest : List Char} {modifier : Option (List Char)} {part : Part}
    {ts : List Token} (head : linkHead? body = some (modifier, key))
    (read : linked pos modifier key = .ok (part, rest))
    (others : Tokenized (pos + byteLength ('@' :: body) - byteLength rest) rest ts) :
    Tokenized pos ('@' :: body) (.item ⟨part, pos⟩ :: ts)

theorem Tokenized.tokens_eq {pos : Nat} {cs : List Char} {ts : List Token}
    (h : Tokenized pos cs ts) : tokens pos cs = .ok ts := by
  induction h with
  | nil pos => rw [tokens_nil]
  | bar _ ih => rw [tokens_bar, ih]; rfl
  | char hbrace hbar hlink _ ih => rw [tokens_char hbrace hbar hlink, ih]; rfl
  | placeholder hread _ ih => rw [tokens_placeholder hread, ih]; rfl
  | link hhead hread _ ih => rw [tokens_link hhead hread, ih]; rfl

theorem map_cons_eq_ok {α : Type} {x : Except Error (List α)} {a : α} {l : List α}
    (h : x.map (a :: ·) = .ok l) : ∃ rest, x = .ok rest ∧ l = a :: rest := by
  cases x with
  | error e => cases h
  | ok rest => cases h; exact ⟨rest, rfl, rfl⟩

theorem tokenized_of_tokens {pos : Nat} {cs : List Char} {ts : List Token}
    (h : tokens pos cs = .ok ts) : Tokenized pos cs ts := by
  -- one case for each arm of `tokens`; where a part is faulty there are no tokens
  induction pos, cs using tokens.induct generalizing ts with
  | case1 pos =>
    rw [tokens_nil] at h
    cases h
    exact .nil pos
  | case2 pos body e he =>
    rw [tokens_placeholder_error he] at h
    cases h
  | case3 pos body part rest hread ih =>
    rw [tokens_placeholder hread] at h
    obtain ⟨others, ho, rfl⟩ := map_cons_eq_ok h
    exact .placeholder hread (ih ho)
  | case4 pos rest ih =>
    rw [tokens_bar] at h
    obtain ⟨others, ho, rfl⟩ := map_cons_eq_ok h
    exact .bar (ih ho)
  | case5 pos body hhead ih =>
    rw [tokens_char (by decide) (by decide) fun _ => hhead] at h
    obtain ⟨others, ho, rfl⟩ := map_cons_eq_ok h
    exact .char (by decide) (by decide) (fun _ => hhead) (ih ho)
  | case6 pos body modifier key hhead e he =>
    rw [tokens_link_error hhead he] at h
    cases h
  | case7 pos body modifier key hhead part rest hread ih =>
    rw [tokens_link hhead hread] at h
    obtain ⟨others, ho, rfl⟩ := map_cons_eq_ok h
    exact .link hhead hread (ih ho)
  | case8 pos c rest hbrace hbar hat ih =>
    rw [tokens_char hbrace hbar fun h => absurd h hat] at h
    obtain ⟨others, ho, rfl⟩ := map_cons_eq_ok h
    exact .char hbrace hbar (fun h => absurd h hat) (ih ho)

theorem tokens_eq_ok_iff {pos : Nat} {cs : List Char} {ts : List Token} :
    tokens pos cs = .ok ts ↔ Tokenized pos cs ts :=
  ⟨tokenized_of_tokens, Tokenized.tokens_eq⟩

/-- A message is parsed where it has tokens. -/
theorem parse_eq_ok_iff {message : List Char} {cases : List Case} :
    parse message = .ok cases ↔
      ∃ ts, Tokenized 0 message ts ∧ cases = casesOf (splitBars ts) := by
  unfold parse
  rw [bind_eq_ok]
  refine exists_congr fun ts => and_congr tokens_eq_ok_iff ?_
  exact ⟨fun h => (Except.ok.inj h).symm, fun h => h ▸ rfl⟩

/-! ## Between bars -/

theorem splitBars_ne_nil (ts : List Token) : splitBars ts ≠ [] := by
  unfold splitBars
  split
  · exact List.cons_ne_nil _ _
  · exact List.cons_ne_nil _ _
  · split <;> exact List.cons_ne_nil _ _

theorem splitBars_cons {t : Token} (h : t ≠ .bar) (ts : List Token) :
    ∃ first others, splitBars ts = first :: others ∧
      splitBars (t :: ts) = (t :: first) :: others := by
  obtain ⟨first, others, hs⟩ := List.exists_cons_of_ne_nil (splitBars_ne_nil ts)
  refine ⟨first, others, hs, ?_⟩
  rw [splitBars, hs]
  exact h

end MessageCatalog.Message
