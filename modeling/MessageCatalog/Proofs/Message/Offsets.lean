/-
The offset of an item is a place in its message: the item starts with a character of the message that
has as many bytes in front of it.
-/
import MessageCatalog.Proofs.Message.Sound

namespace MessageCatalog.Message

open MessageCatalog.Text

/-! ## What an item leaves -/

theorem quotedLiteral_suffix {cs s rest : List Char} (h : quotedLiteral cs = some (s, rest)) :
    rest <:+ cs := by
  induction cs using quotedLiteral.induct generalizing s with
  | case1 => cases h
  | case2 r =>
    obtain ⟨-, rfl⟩ := Prod.mk.inj (Option.some.inj h)
    exact List.suffix_cons _ _
  | case3 => cases h
  | case4 r ih =>
    obtain ⟨⟨s', r'⟩, hr, he⟩ := Option.map_eq_some_iff.1 h
    obtain ⟨-, rfl⟩ := Prod.mk.inj he
    exact (ih hr).trans ((List.suffix_cons _ _).trans (List.suffix_cons _ _))
  | case5 r ih =>
    obtain ⟨⟨s', r'⟩, hr, he⟩ := Option.map_eq_some_iff.1 h
    obtain ⟨-, rfl⟩ := Prod.mk.inj he
    exact (ih hr).trans ((List.suffix_cons _ _).trans (List.suffix_cons _ _))
  | case6 c r h1 h2 h3 h4 ih =>
    rw [quotedLiteral] at h
    · obtain ⟨⟨s', r'⟩, hr, he⟩ := Option.map_eq_some_iff.1 h
      obtain ⟨-, rfl⟩ := Prod.mk.inj he
      exact (ih hr).trans (List.suffix_cons _ _)
    all_goals assumption

/-- What stands behind the first element of a suffix. -/
theorem suffix_of_cons {α : Type} {a : α} {rest l : List α} (h : a :: rest <:+ l) : rest <:+ l :=
  (List.suffix_cons a rest).trans h

theorem placeholder_suffix {opening : Nat} {cs rest : List Char} {part : Part}
    (h : placeholder opening cs = .ok (part, rest)) : rest <:+ cs := by
  have hblanks : cs.dropWhile isBlank <:+ cs := List.dropWhile_suffix _
  rcases placeholder_eq_ok.1 h with ⟨body, behind, s, hbody, hread, hclose, -⟩ | ⟨-, hclose, -⟩
  · have hbehind : '\x7d' :: rest <:+ behind := hclose ▸ List.dropWhile_suffix _
    rw [hbody] at hblanks
    exact (suffix_of_cons hbehind).trans ((quotedLiteral_suffix hread).trans (suffix_of_cons hblanks))
  · have hbehind : '\x7d' :: rest <:+ cs.dropWhile isBlank := hclose ▸ List.dropWhile_suffix _
    exact (suffix_of_cons hbehind).trans hblanks

theorem linkHead?_suffix {cs rest : List Char} {modifier : Option (List Char)}
    (h : linkHead? cs = some (modifier, rest)) : rest <:+ cs := by
  unfold linkHead? at h
  split at h
  · cases h
    exact List.suffix_cons _ _
  · rename_i r
    split at h
    · rename_i hr
      cases h
      have hcolon : ':' :: rest <:+ r := hr ▸ List.dropWhile_suffix _
      exact (suffix_of_cons hcolon).trans (List.suffix_cons _ _)
    · cases h
  · cases h

theorem linked_suffix {opening : Nat} {modifier : Option (List Char)} {cs rest : List Char}
    {part : Part} (h : linked opening modifier cs = .ok (part, rest)) : rest <:+ cs := by
  obtain ⟨key, hkey, -, -⟩ := linked_eq_ok.1 h
  rcases linkKey_eq_ok.1 hkey with ⟨body, rfl, hclose, -⟩ | ⟨-, -, rfl⟩
  · have hbehind : ')' :: rest <:+ body := hclose ▸ List.dropWhile_suffix _
    exact (suffix_of_cons hbehind).trans (List.suffix_cons _ _)
  · exact List.drop_suffix _ _

/-! ## Offsets of tokens -/

def Token.offset? : Token → Option Nat
  | .char _ offset => some offset
  | .item i => some i.offset
  | .bar => none

/-- A place in a text at which a character starts. -/
def StartsAt (message : List Char) (offset : Nat) : Prop :=
  ∃ front c back, message = front ++ c :: back ∧ byteLength front = offset

/-- The place of the text behind what was taken. -/
theorem offset_of_suffix {cs rest : List Char} (h : rest <:+ cs) (pos : Nat) :
    ∃ taken, cs = taken ++ rest ∧ pos + byteLength cs - byteLength rest = pos + byteLength taken := by
  obtain ⟨taken, rfl⟩ := h
  exact ⟨taken, rfl, by rw [byteLength_append]; omega⟩

/-- Tokens of the rest of a message start at places of the message. -/
theorem Tokenized.startsAt {pos : Nat} {cs : List Char} {ts : List Token} (h : Tokenized pos cs ts) :
    ∀ {message before : List Char}, message = before ++ cs → byteLength before = pos →
      ∀ t ∈ ts, ∀ offset ∈ t.offset?, StartsAt message offset := by
  -- a placeholder and a link both take some text behind their first character
  have hitem : ∀ {message before cs rest : List Char} {c : Char} {pos : Nat} {ts : List Token}
      {part : Part}, message = before ++ c :: cs → byteLength before = pos → rest <:+ c :: cs →
      (∀ {message before : List Char}, message = before ++ rest →
        byteLength before = pos + byteLength (c :: cs) - byteLength rest →
        ∀ t ∈ ts, ∀ offset ∈ t.offset?, StartsAt message offset) →
      ∀ t ∈ Token.item ⟨part, pos⟩ :: ts, ∀ offset ∈ t.offset?, StartsAt message offset := by
    intro message before cs rest c pos ts part hmessage hpos hrest ih
    obtain ⟨taken, htaken, hoffset⟩ := offset_of_suffix hrest pos
    refine List.forall_mem_cons.2 ⟨?_, ?_⟩
    · rintro _ ⟨⟩
      exact ⟨before, c, cs, hmessage, hpos⟩
    · refine @ih _ (before ++ taken) ?_ ?_
      · rw [hmessage, htaken, List.append_assoc]
      · rw [hoffset, byteLength_append, hpos]
  induction h with
  | nil => exact fun _ _ => nofun
  | @bar pos cs ts _ ih =>
    intro message before hmessage hpos
    refine List.forall_mem_cons.2 ⟨nofun, @ih _ (before ++ ['|']) ?_ ?_⟩
    · rw [hmessage, List.append_assoc]
      rfl
    · rw [byteLength_append, hpos]
      rfl
  | @char pos c cs ts _ _ _ _ ih =>
    intro message before hmessage hpos
    refine List.forall_mem_cons.2 ⟨?_, @ih _ (before ++ [c]) ?_ ?_⟩
    · rintro _ ⟨⟩
      exact ⟨before, c, cs, hmessage, hpos⟩
    · rw [hmessage, List.append_assoc]
      rfl
    · rw [byteLength_append, hpos]
      rfl
  | placeholder read _ ih =>
    intro message before hmessage hpos
    exact hitem hmessage hpos ((placeholder_suffix read).trans (List.suffix_cons _ _)) ih
  | link head read _ ih =>
    intro message before hmessage hpos
    exact hitem hmessage hpos ((linked_suffix read).trans
      ((linkHead?_suffix head).trans (List.suffix_cons _ _))) ih

/-! ## Offsets of items -/

theorem consChar_offsets {c : Char} {offset : Nat} {case : Case} {item : Item}
    (h : item ∈ consChar c offset case) :
    item.offset = offset ∨ ∃ item' ∈ case, item.offset = item'.offset := by
  unfold consChar at h
  split at h
  · rcases List.mem_cons.1 h with rfl | h
    · exact Or.inl rfl
    · exact Or.inr ⟨item, List.mem_cons_of_mem _ h, rfl⟩
  · rcases List.mem_cons.1 h with rfl | h
    · exact Or.inl rfl
    · exact Or.inr ⟨item, h, rfl⟩

/-- An item starts where one of its tokens does. -/
theorem itemsOf_offsets : ∀ {ts : List Token} {item : Item}, item ∈ itemsOf ts →
    ∃ t ∈ ts, t.offset? = some item.offset
  | [], item, h => by cases h
  | .char c offset :: ts, item, h => by
    rcases consChar_offsets h with he | ⟨item', h, he⟩
    · exact ⟨_, List.mem_cons_self, congrArg some he.symm⟩
    · obtain ⟨t, ht, hoffset⟩ := itemsOf_offsets h
      exact ⟨t, List.mem_cons_of_mem _ ht, he ▸ hoffset⟩
  | .item i :: ts, item, h => by
    rcases List.mem_cons.1 h with rfl | h
    · exact ⟨_, List.mem_cons_self, rfl⟩
    · obtain ⟨t, ht, hoffset⟩ := itemsOf_offsets h
      exact ⟨t, List.mem_cons_of_mem _ ht, hoffset⟩
  | .bar :: ts, item, h => by
    rw [itemsOf] at h
    obtain ⟨t, ht, hoffset⟩ := itemsOf_offsets h
    exact ⟨t, List.mem_cons_of_mem _ ht, hoffset⟩

theorem mem_of_mem_dropTrailingBlanks {t : Token} {ts : List Token}
    (h : t ∈ dropTrailingBlanks ts) : t ∈ ts := (dropTrailingBlanks_isPrefix ts).subset h

theorem mem_of_mem_dropLeadingBlanks {t : Token} {ts : List Token}
    (h : t ∈ dropLeadingBlanks ts) : t ∈ ts := (List.dropWhile_suffix _).subset h

theorem casesBehind_offsets : ∀ {segments : List (List Token)} {item : Item},
    item ∈ (casesBehind segments).flatten →
    ∃ segment ∈ segments, ∃ t ∈ segment, t.offset? = some item.offset
  | [], item, h => by cases h
  | [last], item, h => by
    rw [casesBehind, List.flatten_singleton] at h
    obtain ⟨t, ht, hoffset⟩ := itemsOf_offsets h
    exact ⟨last, List.mem_cons_self, t, mem_of_mem_dropLeadingBlanks ht, hoffset⟩
  | first :: second :: rest, item, h => by
    rw [casesBehind, List.flatten_cons, List.mem_append] at h
    swap
    · exact List.cons_ne_nil _ _
    rcases h with h | h
    · obtain ⟨t, ht, hoffset⟩ := itemsOf_offsets h
      exact ⟨first, List.mem_cons_self, t,
        mem_of_mem_dropLeadingBlanks (mem_of_mem_dropTrailingBlanks ht), hoffset⟩
    · obtain ⟨segment, hs, hoffset⟩ := casesBehind_offsets h
      exact ⟨segment, List.mem_cons_of_mem _ hs, hoffset⟩

theorem casesOf_offsets {segments : List (List Token)} {item : Item}
    (h : item ∈ (casesOf segments).flatten) :
    ∃ segment ∈ segments, ∃ t ∈ segment, t.offset? = some item.offset := by
  match segments, h with
  | [only], h =>
    rw [casesOf, List.flatten_singleton] at h
    obtain ⟨t, ht, hoffset⟩ := itemsOf_offsets h
    exact ⟨only, List.mem_cons_self, t, ht, hoffset⟩
  | first :: second :: rest, h =>
    rw [casesOf, List.flatten_cons, List.mem_append] at h
    swap
    · exact List.cons_ne_nil _ _
    rcases h with h | h
    · obtain ⟨t, ht, hoffset⟩ := itemsOf_offsets h
      exact ⟨first, List.mem_cons_self, t, mem_of_mem_dropTrailingBlanks ht, hoffset⟩
    · obtain ⟨segment, hs, hoffset⟩ := casesBehind_offsets h
      exact ⟨segment, List.mem_cons_of_mem _ hs, hoffset⟩

theorem mem_of_mem_splitBars {ts segment : List Token} (h : segment ∈ splitBars ts) {t : Token}
    (ht : t ∈ segment) : t ∈ ts := by
  obtain ⟨first, others, hsplit⟩ := List.exists_cons_of_ne_nil (splitBars_ne_nil ts)
  obtain ⟨⟨hfirst, -⟩, hothers⟩ := splitBars_infix hsplit
  rw [hsplit] at h
  rcases List.mem_cons.1 h with rfl | h
  · exact hfirst.subset ht
  · exact (hothers segment h).1.subset ht

/-- Every item of a parsed message starts with a character of the message. -/
theorem parse_startsAt {message : List Char} {cases : List Case} (h : parse message = .ok cases)
    {item : Item} (hitem : item ∈ cases.flatten) : StartsAt message item.offset := by
  obtain ⟨ts, hts, rfl⟩ := parse_eq_ok_iff.1 h
  obtain ⟨segment, hs, t, ht, hoffset⟩ := casesOf_offsets hitem
  exact hts.startsAt (List.nil_append message).symm rfl t (mem_of_mem_splitBars hs ht) _ hoffset

end MessageCatalog.Message
