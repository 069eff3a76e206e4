/-
The first fault of a message. A placeholder and a link are read alike whatever stands behind them, up to
where a key without parentheses may go on; so a front that parses stays as it is in front of an item, and
the front that is cut off where a fault begins parses. What is wrong inside of closed braces is wrong
whatever the message goes on with.
-/
import MessageCatalog.Proofs.Message.Inverse
import MessageCatalog.Proofs.Message.Places
import MessageCatalog.Proofs.Message.Tiling

namespace MessageCatalog.Message

open MessageCatalog.Text

/-! ## Placeholders -/

/-- A literal that is closed stays as it is when more stands behind it. -/
theorem quotedLiteral_append {cs s rest : List Char} (h : quotedLiteral cs = some (s, rest))
    (more : List Char) : quotedLiteral (cs ++ more) = some (s, rest ++ more) := by
  induction cs using quotedLiteral.induct generalizing s with
  | case1 => cases h
  | case2 r =>
    cases h
    rfl
  | case3 => cases h
  | case4 r ih =>
    obtain ⟨⟨s', r'⟩, hr, he⟩ := Option.map_eq_some_iff.1 h
    obtain ⟨rfl, rfl⟩ := Prod.mk.inj he
    rw [List.cons_append, List.cons_append, quotedLiteral, ih hr]
    rfl
  | case5 r ih =>
    obtain ⟨⟨s', r'⟩, hr, he⟩ := Option.map_eq_some_iff.1 h
    obtain ⟨rfl, rfl⟩ := Prod.mk.inj he
    rw [List.cons_append, List.cons_append, quotedLiteral, ih hr]
    rfl
  | case6 c r hquote hline hescaped hslash ih =>
    rw [quotedLiteral] at h
    · obtain ⟨⟨s', r'⟩, hr, he⟩ := Option.map_eq_some_iff.1 h
      obtain ⟨rfl, rfl⟩ := Prod.mk.inj he
      -- the literal is closed behind `c`, so the character behind `c` is the same in both texts
      obtain ⟨d, r, rfl⟩ : ∃ d t, r = d :: t := by
        cases r with
        | nil => cases hr
        | cons d r => exact ⟨d, r, rfl⟩
      rw [List.cons_append, quotedLiteral, ih hr]
      · rfl
      · exact hquote
      · exact hline
      · intro t hc ht
        cases ht
        exact hescaped r hc rfl
      · intro t hc ht
        cases ht
        exact hslash r hc rfl
    all_goals assumption

/-- What stands between an opening brace and the next brace if no quote comes first. -/
structure Bare (before content : List Char) : Prop where
  blank : ∀ c ∈ before, isBlank c = true
  start : ∀ c ∈ (content ++ ['\x7d']).head?, isBlank c = false ∧ c ≠ '\''
  inside : ∀ c ∈ content, isBrace c = false

/-- A placeholder without quotes is read up to its closing brace. -/
theorem Bare.placeholder {before content : List Char} (h : Bare before content) (opening : Nat)
    (rest : List Char) :
    Message.placeholder opening (before ++ (content ++ '\x7d' :: rest)) =
      match placeholderPart (trim content) with
      | .ok part => .ok (part, rest)
      | .error fault => .error ⟨fault, opening⟩ := by
  have hhead : (content ++ '\x7d' :: rest).head? = (content ++ ['\x7d']).head? := by
    cases content <;> rfl
  have hblanks := (takeWhile_run h.blank fun c hc => (h.start c (hhead ▸ hc)).1).2
  have hinside : ∀ c ∈ content, (!isBrace c) = true := fun c hc => by rw [h.inside c hc]; rfl
  obtain ⟨htake, hdrop⟩ := takeWhile_run_cons hinside (by decide : (!isBrace '\x7d') = false) rest
  unfold Message.placeholder
  rw [hblanks]
  split
  · rename_i body hbody
    have hquote : '\'' ∈ (content ++ ['\x7d']).head? := by
      rw [← hhead, hbody]
      rfl
    exact absurd rfl (h.start _ hquote).2
  · cases hpart : placeholderPart (trim content) <;> simp only [htake, hdrop, hpart]

/-- A text without a quote behind its blanks, in which the next brace is a closing one. -/
theorem bare_of_closed {cs rest : List Char} (hquote : ∀ body, cs.dropWhile isBlank ≠ '\'' :: body)
    (hclose : (cs.dropWhile isBlank).dropWhile (!isBrace ·) = '\x7d' :: rest) :
    ∃ before content, cs = before ++ (content ++ '\x7d' :: rest) ∧ Bare before content ∧
      content = (cs.dropWhile isBlank).takeWhile (!isBrace ·) := by
  obtain ⟨before, hcs, hbefore⟩ := @blanks_before cs _ rfl
  have hbody := List.takeWhile_append_dropWhile (p := (!isBrace ·)) (l := cs.dropWhile isBlank)
  rw [hclose] at hbody
  refine ⟨before, (cs.dropWhile isBlank).takeWhile (!isBrace ·), by rw [hbody]; exact hcs, ?_, rfl⟩
  constructor
  · exact hbefore
  · intro c hc
    have hhead : c ∈ (cs.dropWhile isBlank).head? := by
      rw [← hbody]
      cases h : (cs.dropWhile isBlank).takeWhile (!isBrace ·) with
      | nil =>
        rw [h] at hc
        exact hc
      | cons d content =>
        rw [h] at hc
        exact hc
    refine ⟨head?_dropWhile hhead, ?_⟩
    rintro rfl
    obtain ⟨body, hbody⟩ := List.head?_eq_some_iff.1 hhead
    exact hquote body hbody
  · intro c hc
    have hall := List.all_eq_true.1 List.all_takeWhile c hc
    simpa using hall

/-- A placeholder is read alike whatever stands behind it. -/
theorem placeholder_local {opening : Nat} {cs rest : List Char} {part : Part}
    (h : placeholder opening cs = .ok (part, rest)) :
    ∃ taken, cs = taken ++ rest ∧ ∀ behind, placeholder opening (taken ++ behind) = .ok (part, behind) := by
  rcases placeholder_eq_ok.1 h with ⟨body, tail, s, hbody, hread, hclose, rfl⟩ | ⟨hquote, hclose, hpart⟩
  · obtain ⟨before, rfl, hbefore⟩ := blanks_before hbody
    obtain ⟨quoted, rfl, hquoted⟩ := quotedLiteral_spelled hread
    obtain ⟨after, rfl, hafter⟩ := blanks_before hclose
    refine ⟨before ++ '\'' :: (quoted ++ '\'' :: (after ++ ['\x7d'])), by simp, fun behind => ?_⟩
    have hread := quotedLiteral_append hquoted (after ++ '\x7d' :: behind)
    have hend := (takeWhile_run_cons hafter (by decide : isBlank '\x7d' = false) behind).2
    refine placeholder_eq_ok.2 (.inl ⟨_, _, s, ?_, hread, hend, rfl⟩)
    have hstart := (takeWhile_run_cons hbefore (by decide : isBlank '\'' = false)
      (quoted ++ '\'' :: (after ++ '\x7d' :: behind))).2
    simpa using hstart
  · obtain ⟨before, content, hcs, hbare, rfl⟩ := bare_of_closed hquote hclose
    refine ⟨before ++ (_ ++ ['\x7d']), by simpa using hcs, fun behind => ?_⟩
    have hread := hbare.placeholder opening behind
    rw [hpart] at hread
    simpa using hread

/-- The faults that are found inside of closed braces. -/
def Fault.IsClosed (fault : Fault) : Prop :=
  fault.code = "E-MSG-EMPTY-PLACEHOLDER" ∨ fault.code = "E-MSG-INVALID-PLACEHOLDER"

theorem not_isClosed_unterminatedLiteral : ¬ Fault.unterminatedLiteral.IsClosed := by
  unfold Fault.IsClosed
  decide

theorem not_isClosed_unterminatedPlaceholder : ¬ Fault.unterminatedPlaceholder.IsClosed := by
  unfold Fault.IsClosed
  decide

/-- What is wrong inside of closed braces is wrong whatever stands behind them. -/
theorem placeholder_error_append {opening : Nat} {cs : List Char} {e : Error}
    (h : placeholder opening cs = .error e) (hclosed : e.fault.IsClosed) (more : List Char) :
    placeholder opening (cs ++ more) = .error e := by
  have hread := h
  unfold placeholder at h
  split at h
  · simp only at h
    split at h
    · cases h
      exact absurd hclosed not_isClosed_unterminatedLiteral
    · split at h
      · cases h
      · cases h
        exact absurd hclosed not_isClosed_unterminatedPlaceholder
  · rename_i hquote
    split at h
    · rename_i hclose
      obtain ⟨before, content, hcs, hbare, -⟩ := bare_of_closed (fun body hb => hquote body hb) hclose
      rw [hcs, hbare.placeholder] at hread
      rw [hcs, List.append_assoc, List.append_assoc, List.cons_append, hbare.placeholder]
      split at hread
      · cases hread
      · exact hread
    · cases h
      exact absurd hclosed not_isClosed_unterminatedPlaceholder

/-! ## Links -/

/-- The head of a link is read alike whatever stands behind its colon. -/
theorem linkHead?_local {cs key : List Char} {modifier : Option (List Char)}
    (h : linkHead? cs = some (modifier, key)) :
    cs = modifierText modifier ++ ':' :: key ∧
      ∀ behind, linkHead? (modifierText modifier ++ ':' :: behind) = some (modifier, behind) := by
  rcases linkHead?_some h with ⟨rfl, rfl⟩ | ⟨letters, rfl, rfl, hne, halpha⟩
  · exact ⟨rfl, fun behind => rfl⟩
  · exact ⟨rfl, linkHead?_letters hne halpha⟩

/-- A link is read alike whatever stands behind it, if it goes on with the same characters of a key. -/
theorem linked_local {opening : Nat} {modifier : Option (List Char)} {cs rest : List Char} {part : Part}
    (h : linked opening modifier cs = .ok (part, rest)) :
    ∃ taken, cs = taken ++ rest ∧
      ∀ behind, behind.takeWhile isLinkKeyChar = rest.takeWhile isLinkKeyChar →
        linked opening modifier (taken ++ behind) = .ok (part, behind) := by
  obtain ⟨key, hkey, hne, rfl⟩ := linked_eq_ok.1 h
  rcases linkKey_eq_ok.1 hkey with ⟨body, rfl, hclose, rfl⟩ | ⟨hparen, hname, hrest⟩
  · obtain ⟨inside, hinside⟩ : ∃ inside, inside = body.takeWhile (· ≠ ')') := ⟨_, rfl⟩
    have hbody := List.takeWhile_append_dropWhile (p := fun c => decide (c ≠ ')')) (l := body)
    rw [hclose, ← hinside] at hbody
    have hchars : ∀ c ∈ inside, decide (c ≠ ')') = true := fun c hc =>
      List.all_eq_true.1 List.all_takeWhile c (hinside ▸ hc)
    refine ⟨'(' :: (inside ++ [')']), ?_, fun behind _ => ?_⟩
    · rw [← hbody, List.cons_append, List.append_assoc]
      rfl
    · obtain ⟨htake, hdrop⟩ := takeWhile_run_cons (p := fun c => decide (c ≠ ')')) hchars
        (by decide : decide (')' ≠ ')') = false) behind
      refine linked_eq_ok.2 ⟨_, linkKey_eq_ok.2 (.inl ⟨inside ++ ')' :: behind, ?_, hdrop, ?_⟩), hne, rfl⟩
      · rw [List.cons_append, List.append_assoc]
        rfl
      · rw [htake, hinside]
  · have hchars : ∀ c ∈ key, isLinkKeyChar c = true := fun c hc =>
      List.all_eq_true.1 List.all_takeWhile c (mem_of_mem_dropDots (hname ▸ hc))
    have hprefix : key <+: cs :=
      hname ▸ (List.rdropWhile_prefix _ _).trans (List.takeWhile_prefix _)
    obtain ⟨tail, rfl⟩ := hprefix
    rw [List.drop_left] at hrest
    subst hrest
    refine ⟨key, rfl, fun behind hbehind => ?_⟩
    refine linked_eq_ok.2 ⟨key, linkKey_eq_ok.2 (.inr ⟨?_, ?_, ?_⟩), hne, rfl⟩
    · -- the key is not empty, so it has the first character in both texts
      intro body hbody
      obtain ⟨c, key, rfl⟩ := List.exists_cons_of_ne_nil hne
      obtain ⟨rfl, -⟩ := List.cons.inj hbody
      exact hparen _ rfl
    · rw [List.takeWhile_append_of_pos hchars, hbehind, ← List.takeWhile_append_of_pos hchars]
      exact hname
    · rw [List.drop_left]

/-- The head and the key of a link together are read alike as its key is. -/
theorem link_local {opening : Nat} {modifier : Option (List Char)} {body key rest : List Char} {part : Part}
    (hhead : linkHead? body = some (modifier, key)) (hread : linked opening modifier key = .ok (part, rest)) :
    ∃ taken, body = taken ++ rest ∧
      ∀ behind, behind.takeWhile isLinkKeyChar = rest.takeWhile isLinkKeyChar →
        ∃ key, linkHead? (taken ++ behind) = some (modifier, key) ∧
          linked opening modifier key = .ok (part, behind) := by
  obtain ⟨rfl, hheads⟩ := linkHead?_local hhead
  obtain ⟨taken, rfl, hlinked⟩ := linked_local hread
  refine ⟨modifierText modifier ++ ':' :: taken, by simp, fun behind hbehind => ?_⟩
  refine ⟨taken ++ behind, ?_, hlinked behind hbehind⟩
  rw [List.append_assoc]
  exact hheads _

/-! ## The codes of faults -/

theorem Fault.IsClosed.opens {fault : Fault} {c : Char} (h : fault.IsClosed)
    (hopens : fault.opens = some c) : c = '\x7b' := by
  cases fault with
  | custom => cases hopens
  | emptyPlaceholder | listIndexOutOfRange | invalidPlaceholder =>
    cases hopens
    rfl
  | _ => rcases h with h | h <;> simp [Fault.code] at h

theorem Fault.code_unterminatedLiteral {fault : Fault} {c : Char} (hopens : fault.opens = some c) :
    fault.code = "E-MSG-UNTERMINATED-LITERAL" ↔ c = '\'' := by
  cases fault <;> cases hopens <;> simp [Fault.code]

/-! ## Where an item opens -/

/-- The characters that open a placeholder or a link. -/
def IsOpener (c : Char) : Prop := c = '\x7b' ∨ c = '@'

/-- No key goes on at an opener. -/
theorem IsOpener.takeWhile {c : Char} (h : IsOpener c) (front behind : List Char) :
    (front ++ c :: behind).takeWhile isLinkKeyChar = front.takeWhile isLinkKeyChar := by
  refine takeWhile_stop ?_ front behind
  rcases h with rfl | rfl <;> decide +kernel

theorem IsOpener.stops {c : Char} (h : IsOpener c) (behind : List Char) : Stops (c :: behind) := by
  rintro _ ⟨⟩
  rcases h with rfl | rfl
  · exact .inl rfl
  · exact .inr (.inr rfl)

/-- The item that an opener starts is at fault. -/
inductive OpensFault (pos : Nat) (e : Error) : Char → List Char → Prop where
  | placeholder {body : List Char} (fault : placeholder pos body = .error e) :
    OpensFault pos e '\x7b' body
  | link {body key : List Char} {modifier : Option (List Char)}
    (head : linkHead? body = some (modifier, key)) (fault : linked pos modifier key = .error e) :
    OpensFault pos e '@' body

section

variable {pos : Nat} {e : Error} {opener : Char} {behind : List Char}

theorem OpensFault.isOpener (h : OpensFault pos e opener behind) : IsOpener opener := by
  cases h with
  | placeholder => exact .inl rfl
  | link => exact .inr rfl

theorem OpensFault.tokens_eq (h : OpensFault pos e opener behind) :
    tokens pos (opener :: behind) = .error e := by
  cases h with
  | placeholder fault => exact tokens_placeholder_error fault
  | link head fault => exact tokens_link_error head fault

/-- What is wrong inside of closed braces is wrong in a longer message too. -/
theorem OpensFault.append (h : OpensFault pos e opener behind) (hclosed : e.fault.IsClosed)
    (more : List Char) : OpensFault pos e opener (behind ++ more) := by
  cases h with
  | placeholder fault => exact .placeholder (placeholder_error_append fault hclosed more)
  | link head fault =>
    have hbrace := hclosed.opens (linked_error fault).2
    exact absurd hbrace (by decide)

/-- The place of a fault: a literal without an end is reported at its quote, behind the blanks. -/
theorem OpensFault.place (h : OpensFault pos e opener behind) :
    (e.fault.code = "E-MSG-UNTERMINATED-LITERAL" → opener = '\x7b' ∧ ∃ blanks rest,
      behind = blanks ++ '\'' :: rest ∧ (∀ c ∈ blanks, isBlank c = true) ∧
        e.offset = pos + byteLength (opener :: blanks)) ∧
    (e.fault.code ≠ "E-MSG-UNTERMINATED-LITERAL" → e.offset = pos) := by
  cases h with
  | placeholder fault =>
    rcases placeholder_error fault with ⟨hoffset, hopens⟩ | ⟨rest, hquote, hoffset, hopens⟩
    · constructor
      · intro hcode
        have hbrace := (Fault.code_unterminatedLiteral hopens).1 hcode
        exact absurd hbrace (by decide)
      · intro _
        exact hoffset
    · constructor
      · intro _
        refine ⟨rfl, behind.takeWhile isBlank, rest, ?_, List.all_eq_true.1 List.all_takeWhile, ?_⟩
        · rw [← hquote, List.takeWhile_append_dropWhile]
        · rw [hoffset, Nat.add_assoc]
          rfl
      · intro hcode
        exact absurd ((Fault.code_unterminatedLiteral hopens).2 rfl) hcode
  | link head fault =>
    obtain ⟨hoffset, hopens⟩ := linked_error fault
    constructor
    · intro hcode
      have hat := (Fault.code_unterminatedLiteral hopens).1 hcode
      exact absurd hat (by decide)
    · intro _
      exact hoffset

end

/-! ## The front of a fault -/

/-- The place behind what an item takes. -/
theorem place_behind (pos : Nat) (c : Char) (taken rest : List Char) :
    pos + byteLength (c :: (taken ++ rest)) - byteLength rest = pos + byteLength (c :: taken) := by
  simp only [byteLength, byteLength_append]
  omega

/-- Tokens of a front stay as they are in front of an item, and the fault of the item is that of the text. -/
theorem Tokenized.tokens_error {pos : Nat} {front : List Char} {ts : List Token} (h : Tokenized pos front ts)
    {opener : Char} (hopener : IsOpener opener) {behind : List Char} {e : Error}
    (he : tokens (pos + byteLength front) (opener :: behind) = .error e) :
    tokens pos (front ++ opener :: behind) = .error e := by
  induction h with
  | nil pos => exact he
  | @bar pos cs ts _ ih =>
    rw [byteLength, ← Nat.add_assoc] at he
    rw [List.cons_append, tokens_bar, ih he]
    rfl
  | @char pos c cs ts hbrace hbar hlink _ ih =>
    rw [byteLength, ← Nat.add_assoc] at he
    rw [List.cons_append, tokens_char hbrace hbar, ih he]
    · rfl
    · intro hat
      exact linkHead?_append (hlink hat) (hopener.stops behind)
  | placeholder hread _ ih =>
    obtain ⟨taken, rfl, hlocal⟩ := placeholder_local hread
    rw [place_behind] at ih
    rw [← List.cons_append, byteLength_append, ← Nat.add_assoc] at he
    rw [List.cons_append, List.append_assoc, tokens_placeholder (hlocal _), place_behind, ih he]
    rfl
  | link hhead hread _ ih =>
    obtain ⟨taken, rfl, hlocal⟩ := link_local hhead hread
    obtain ⟨key, hhead', hread'⟩ := hlocal _ (hopener.takeWhile _ _)
    rw [place_behind] at ih
    rw [← List.cons_append, byteLength_append, ← Nat.add_assoc] at he
    rw [List.cons_append, List.append_assoc, tokens_link hhead' hread', place_behind, ih he]
    rfl

/-- A text with a fault has an item at fault, and what stands in front of it has tokens. -/
theorem tokens_error_front {pos : Nat} {cs : List Char} {e : Error} (h : tokens pos cs = .error e) :
    ∃ front opener behind ts, cs = front ++ opener :: behind ∧ Tokenized pos front ts ∧
      OpensFault (pos + byteLength front) e opener behind := by
  -- one case for each arm of `tokens`; in front of the fault the text may as well end
  induction pos, cs using tokens.induct with
  | case1 pos =>
    rw [tokens_nil] at h
    cases h
  | case2 pos body e' he =>
    rw [tokens_placeholder_error he] at h
    cases h
    exact ⟨[], '\x7b', body, [], rfl, .nil pos, .placeholder he⟩
  | case3 pos body part rest hread ih =>
    rw [tokens_placeholder hread] at h
    obtain ⟨front, opener, behind, ts, rfl, hfront, hopens⟩ := ih (map_eq_error h)
    obtain ⟨taken, rfl, hlocal⟩ := placeholder_local hread
    rw [place_behind] at hfront hopens
    refine ⟨'\x7b' :: (taken ++ front), opener, behind, _, by simp,
      .placeholder (hlocal front) (by rwa [place_behind]), ?_⟩
    rwa [← List.cons_append, byteLength_append, ← Nat.add_assoc]
  | case4 pos rest ih =>
    rw [tokens_bar] at h
    obtain ⟨front, opener, behind, ts, rfl, hfront, hopens⟩ := ih (map_eq_error h)
    refine ⟨'|' :: front, opener, behind, _, rfl, .bar hfront, ?_⟩
    rwa [byteLength, ← Nat.add_assoc]
  | case5 pos body hhead ih =>
    rw [tokens_char (by decide) (by decide) fun _ => hhead] at h
    obtain ⟨front, opener, behind, ts, rfl, hfront, hopens⟩ := ih (map_eq_error h)
    have hcut : linkHead? front = none := linkHead?_of_isPrefix (List.prefix_append _ _) hhead
    refine ⟨'@' :: front, opener, behind, _, rfl,
      .char (by decide) (by decide) (fun _ => hcut) hfront, ?_⟩
    rwa [byteLength, ← Nat.add_assoc]
  | case6 pos body modifier key hhead e' he =>
    rw [tokens_link_error hhead he] at h
    cases h
    exact ⟨[], '@', body, [], rfl, .nil pos, .link hhead he⟩
  | case7 pos body modifier key hhead part rest hread ih =>
    rw [tokens_link hhead hread] at h
    obtain ⟨front, opener, behind, ts, rfl, hfront, hopens⟩ := ih (map_eq_error h)
    obtain ⟨taken, rfl, hlocal⟩ := link_local hhead hread
    -- no key goes on at the item at fault
    obtain ⟨key, hhead', hread'⟩ := hlocal front (hopens.isOpener.takeWhile front behind).symm
    rw [place_behind] at hfront hopens
    refine ⟨'@' :: (taken ++ front), opener, behind, _, by simp,
      .link hhead' hread' (by rwa [place_behind]), ?_⟩
    rwa [← List.cons_append, byteLength_append, ← Nat.add_assoc]
  | case8 pos c rest hbrace hbar hat ih =>
    rw [tokens_char hbrace hbar fun h => absurd h hat] at h
    obtain ⟨front, opener, behind, ts, rfl, hfront, hopens⟩ := ih (map_eq_error h)
    refine ⟨c :: front, opener, behind, _, rfl, .char hbrace hbar (fun h => absurd h hat) hfront, ?_⟩
    rwa [byteLength, ← Nat.add_assoc]

theorem parse_eq_error_iff {message : List Char} {e : Error} :
    parse message = .error e ↔ tokens 0 message = .error e := by
  unfold parse
  constructor
  · intro h
    rcases bind_eq_error.1 h with htokens | ⟨ts, -, h⟩
    · exact htokens
    · cases h
  · intro h
    rw [h]
    rfl

/-- An error points at a character of the message. -/
theorem Error.PointsInto.startsAt {message : List Char} {e : Error} (h : e.PointsInto message) :
    StartsAt message e.offset := by
  obtain ⟨front, c, back, hmessage, hoffset, -⟩ := h
  exact ⟨front, c, back, hmessage, hoffset⟩

/--
An error tells the first thing that is wrong in a message. It points at a character of the message:
where a literal has no end at its quote, behind the brace and blanks; for any other fault at the
brace or the `@` of the item at fault. What stands in front of that item parses. What is wrong
inside of closed braces stays so whatever the message goes on with.
-/
theorem parse_error_first {message : List Char} {e : Error} (h : parse message = .error e) :
    StartsAt message e.offset ∧
    (∃ front opener behind, message = front ++ opener :: behind ∧ (∃ cases, parse front = .ok cases) ∧
      (e.fault.code = "E-MSG-UNTERMINATED-LITERAL" → opener = '\x7b' ∧ ∃ blanks rest,
        behind = blanks ++ '\'' :: rest ∧ (∀ c ∈ blanks, isBlank c = true) ∧
          e.offset = byteLength (front ++ opener :: blanks)) ∧
      (e.fault.code ≠ "E-MSG-UNTERMINATED-LITERAL" →
        (opener = '\x7b' ∨ opener = '@') ∧ e.offset = byteLength front)) ∧
    (e.fault.code = "E-MSG-EMPTY-PLACEHOLDER" ∨ e.fault.code = "E-MSG-INVALID-PLACEHOLDER" →
      ∀ more, parse (message ++ more) = .error e) := by
  obtain ⟨front, opener, behind, ts, hmessage, hfront, hopens⟩ :=
    tokens_error_front (parse_eq_error_iff.1 h)
  obtain ⟨hliteral, hother⟩ := hopens.place
  refine ⟨(parse_error h).startsAt, ⟨front, opener, behind, hmessage, ?_, ?_, ?_⟩, ?_⟩
  · exact ⟨_, parse_eq_ok_iff.2 ⟨ts, hfront, rfl⟩⟩
  · intro hcode
    obtain ⟨hbrace, blanks, rest, hbehind, hblanks, hoffset⟩ := hliteral hcode
    refine ⟨hbrace, blanks, rest, hbehind, hblanks, ?_⟩
    rw [hoffset, Nat.zero_add, byteLength_append]
  · intro hcode
    refine ⟨hopens.isOpener, ?_⟩
    rw [hother hcode, Nat.zero_add]
  · intro hclosed more
    rw [parse_eq_error_iff, hmessage, List.append_assoc, List.cons_append]
    exact hfront.tokens_error hopens.isOpener (hopens.append hclosed more).tokens_eq

/-- A literal without an end behind a bare key, and a bad name that may stand in front of any text. -/
theorem parse_error_first_literal :
    let literal := "\u00e9 @:k. \x7b \t'x\x7d".toList
    let name := "@.a \x7b1a\x7d".toList
    (parse literal = .error ⟨.unterminatedLiteral, 11⟩ ∧
      ∃ front blanks rest, literal = front ++ '\x7b' :: (blanks ++ '\'' :: rest) ∧
        (∃ cases, parse front = .ok cases) ∧ byteLength (front ++ '\x7b' :: blanks) = 11) ∧
    (parse name = .error ⟨.invalidPlaceholder "1a".toList, 4⟩ ∧ StartsAt name 4 ∧
      ∀ more, parse (name ++ more) = .error ⟨.invalidPlaceholder "1a".toList, 4⟩) := by
  intro literal name
  have hliteral : parse literal = .error ⟨.unterminatedLiteral, 11⟩ := by decide +kernel
  have hname : parse name = .error ⟨.invalidPlaceholder "1a".toList, 4⟩ := by decide +kernel
  constructor
  · obtain ⟨-, ⟨front, opener, behind, hmessage, hfront, hquote, -⟩, -⟩ := parse_error_first hliteral
    obtain ⟨rfl, blanks, rest, rfl, -, hoffset⟩ := hquote rfl
    exact ⟨hliteral, front, blanks, rest, hmessage, hfront, hoffset.symm⟩
  · obtain ⟨hstarts, -, hmore⟩ := parse_error_first hname
    exact ⟨hname, hstarts, hmore (.inr rfl)⟩

end MessageCatalog.Message
