/-
Escaping the markup of a message before it is parsed. Texts and link keys are read as they were, with
their markup escaped; names, indices and modifiers hold none. A quoted literal loses its quotes to the
escaping, so a message that holds one is not read any more.
-/
import Mathlib.Data.Bool.AllAny
import MessageCatalog.Message.Compiler
import MessageCatalog.Proofs.Message.Inverse

namespace MessageCatalog.Message

open MessageCatalog.Text

/-! ## Escapes -/

/-- The characters that are escaped. -/
def markup : List Char := ['<', '>', '"', '\'']

theorem not_markup_of {p : Char → Bool} (hp : markup.any p = false) {c : Char} (h : p c = true) :
    c ∉ markup := by
  intro hc
  exact List.any_eq_false.1 hp c hc h

/-- The characters of the escapes. -/
def escapeChars : List Char := "&lt;gt;quot;apos;".toList

/-- A character stays as it is, or an escape that starts with an ampersand stands for it. -/
theorem escapeMarkupChar_cases (c : Char) :
    (c ∉ markup ∧ escapeMarkupChar c = [c]) ∨
      (c ∈ markup ∧ ∃ name, escapeMarkupChar c = '&' :: name ∧ ∀ d ∈ name, d ∈ escapeChars) := by
  unfold escapeMarkupChar
  split
  · exact .inr ⟨by decide, "lt;".toList, rfl, List.all_iff_forall_prop.1 (by decide)⟩
  · exact .inr ⟨by decide, "gt;".toList, rfl, List.all_iff_forall_prop.1 (by decide)⟩
  · exact .inr ⟨by decide, "quot;".toList, rfl, List.all_iff_forall_prop.1 (by decide)⟩
  · exact .inr ⟨by decide, "apos;".toList, rfl, List.all_iff_forall_prop.1 (by decide)⟩
  · rename_i hless hgreater hquote hapostrophe
    refine .inl ⟨?_, rfl⟩
    simp only [markup, List.mem_cons, List.not_mem_nil, or_false, not_or]
    exact ⟨hless, hgreater, hquote, hapostrophe⟩

theorem mem_escapeMarkupChar {c d : Char} (h : d ∈ escapeMarkupChar c) :
    (c ∉ markup ∧ d = c) ∨ (c ∈ markup ∧ d ∈ escapeChars) := by
  rcases escapeMarkupChar_cases c with ⟨hc, hesc⟩ | ⟨hc, name, hesc, hname⟩
  · rw [hesc] at h
    exact .inl ⟨hc, List.mem_singleton.1 h⟩
  · rw [hesc] at h
    rcases List.mem_cons.1 h with rfl | h
    · exact .inr ⟨hc, by decide⟩
    · exact .inr ⟨hc, hname d h⟩

theorem escapeMarkup_cons (c : Char) (cs : List Char) :
    escapeMarkup (c :: cs) = escapeMarkupChar c ++ escapeMarkup cs := List.flatMap_cons

theorem escapeMarkup_append (a b : List Char) :
    escapeMarkup (a ++ b) = escapeMarkup a ++ escapeMarkup b := List.flatMap_append

theorem escapeMarkup_eq_nil {cs : List Char} (h : escapeMarkup cs = []) : cs = [] := by
  cases cs with
  | nil => rfl
  | cons c cs =>
    rw [escapeMarkup_cons] at h
    rcases escapeMarkupChar_cases c with ⟨-, hesc⟩ | ⟨-, name, hesc, -⟩
    all_goals
      rw [hesc] at h
      cases h

theorem escapeMarkup_eq_self {cs : List Char} (h : ∀ c ∈ cs, c ∉ markup) : escapeMarkup cs = cs := by
  induction cs with
  | nil => rfl
  | cons c cs ih =>
    obtain ⟨hc, hcs⟩ := List.forall_mem_cons.1 h
    rcases escapeMarkupChar_cases c with ⟨-, hesc⟩ | ⟨hm, -⟩
    · rw [escapeMarkup_cons, hesc, ih hcs]
      rfl
    · exact absurd hm hc

theorem not_markup_of_mem_escapeMarkup {cs : List Char} {c : Char} (h : c ∈ escapeMarkup cs) :
    c ∉ markup := by
  obtain ⟨d, -, hc⟩ := List.mem_flatMap.1 h
  have hescape : ∀ c ∈ escapeChars, c ∉ markup := List.all_iff_forall_prop.1 (by decide)
  rcases mem_escapeMarkupChar hc with ⟨hd, rfl⟩ | ⟨-, hc⟩
  · exact hd
  · exact hescape c hc

/-- What a text starts with after escaping, it starts with before, if no escape is in it. -/
theorem unescape_front (front : List Char) {cs rest : List Char} (hfront : '&' ∉ front)
    (h : escapeMarkup cs = front ++ rest) : ∃ behind, cs = front ++ behind := by
  induction front generalizing cs with
  | nil => exact ⟨cs, rfl⟩
  | cons c front ih =>
    obtain ⟨hc, hbehind⟩ := not_or.1 (mt List.mem_cons.2 hfront)
    cases cs with
    | nil => cases h
    | cons d cs =>
      rw [escapeMarkup_cons] at h
      rcases escapeMarkupChar_cases d with ⟨-, hesc⟩ | ⟨-, name, hesc, -⟩
      · rw [hesc] at h
        obtain ⟨rfl, htail⟩ := List.cons.inj h
        obtain ⟨behind, rfl⟩ := ih hbehind htail
        exact ⟨behind, rfl⟩
      · rw [hesc] at h
        exact absurd (List.cons.inj h).1 hc

/-! ## Classes of characters -/

section

variable {α β : Type} {f : α → List β} {p : β → Bool} {q : α → Bool}

/-- The first element of what `a` becomes is in the class just if `a` is, and then all are. -/
def Decides (f : α → List β) (p : β → Bool) (q : α → Bool) : Prop :=
  ∀ a, ∃ b bs, f a = b :: bs ∧ p b = q a ∧ (q a = true → ∀ b ∈ bs, p b = true)

theorem Decides.dropWhile (h : Decides f p q) (l : List α) :
    (l.flatMap f).dropWhile p = (l.dropWhile q).flatMap f := by
  induction l with
  | nil => rfl
  | cons a l ih =>
    obtain ⟨b, bs, hf, hb, hbs⟩ := h a
    rw [List.flatMap_cons, hf]
    by_cases ha : q a = true
    · have hall : ∀ b' ∈ b :: bs, p b' = true := List.forall_mem_cons.2 ⟨hb.trans ha, hbs ha⟩
      rw [List.dropWhile_append_of_pos hall, ih, List.dropWhile_cons_of_pos ha]
    · rw [List.cons_append, List.dropWhile_cons_of_neg (by rwa [hb]), List.dropWhile_cons_of_neg ha,
        List.flatMap_cons, hf, List.cons_append]

theorem Decides.takeWhile (h : Decides f p q) (l : List α) :
    (l.flatMap f).takeWhile p = (l.takeWhile q).flatMap f := by
  induction l with
  | nil => rfl
  | cons a l ih =>
    obtain ⟨b, bs, hf, hb, hbs⟩ := h a
    rw [List.flatMap_cons, hf]
    by_cases ha : q a = true
    · have hall : ∀ b' ∈ b :: bs, p b' = true := List.forall_mem_cons.2 ⟨hb.trans ha, hbs ha⟩
      rw [List.takeWhile_append_of_pos hall, ih, List.takeWhile_cons_of_pos ha, List.flatMap_cons, hf]
    · rw [List.cons_append, List.takeWhile_cons_of_neg (by rwa [hb]), List.takeWhile_cons_of_neg ha,
        List.flatMap_nil]

/-- All of what `a` becomes is in the class just if `a` is. -/
def Uniform (f : α → List β) (p : β → Bool) (q : α → Bool) : Prop :=
  ∀ a, f a ≠ [] ∧ ∀ b ∈ f a, p b = q a

theorem Uniform.decides (h : Uniform f p q) : Decides f p q := by
  intro a
  obtain ⟨hne, hall⟩ := h a
  obtain ⟨b, bs, hf⟩ := List.exists_cons_of_ne_nil hne
  rw [hf] at hall
  exact ⟨b, bs, hf, hall b List.mem_cons_self,
    fun ha d hd => (hall d (List.mem_cons_of_mem b hd)).trans ha⟩

theorem Uniform.rdropWhile (h : Uniform f p q) (l : List α) :
    ((l.flatMap f).reverse.dropWhile p).reverse = ((l.reverse.dropWhile q).reverse).flatMap f := by
  have hback : Uniform (List.reverse ∘ f) p q := by
    intro a
    refine ⟨fun hnil => (h a).1 (List.reverse_eq_nil_iff.1 hnil), fun b hb => ?_⟩
    exact (h a).2 b (List.mem_reverse.1 hb)
  rw [List.reverse_flatMap, hback.decides.dropWhile, List.reverse_flatMap]
  simp [Function.comp_def]

end

/-- A class that holds neither what is escaped nor the ampersand stops at an escape. -/
theorem decides_of_none {p : Char → Bool} (h : ('&' :: markup).all (!p ·) = true) :
    Decides escapeMarkupChar p p := by
  rw [List.all_cons, Bool.and_eq_true, Bool.not_eq_true', List.all_eq_true] at h
  obtain ⟨hand, hmarkup⟩ := h
  intro c
  rcases escapeMarkupChar_cases c with ⟨-, hesc⟩ | ⟨hm, name, hesc, -⟩
  · exact ⟨c, [], hesc, rfl, by simp⟩
  · have hc : p c = false := by simpa using hmarkup c hm
    exact ⟨'&', name, hesc, hand.trans hc.symm, fun ht => absurd (hc.symm.trans ht) Bool.false_ne_true⟩

/-- A class that holds what is escaped and the escapes goes on through an escape. -/
theorem decides_of_all {p : Char → Bool} (h : (markup ++ escapeChars).all p = true) :
    Decides escapeMarkupChar p p := by
  rw [List.all_append, Bool.and_eq_true, List.all_eq_true, List.all_eq_true] at h
  obtain ⟨hmarkup, hescape⟩ := h
  intro c
  rcases escapeMarkupChar_cases c with ⟨-, hesc⟩ | ⟨hm, name, hesc, hname⟩
  · exact ⟨c, [], hesc, rfl, by simp⟩
  · have hand : p '&' = true := hescape '&' (by decide)
    exact ⟨'&', name, hesc, hand.trans (hmarkup c hm).symm, fun _ d hd => hescape d (hname d hd)⟩

theorem uniform_isBlank : Uniform escapeMarkupChar isBlank isBlank := by
  intro c
  constructor
  · obtain ⟨d, ds, hesc, -⟩ := @decides_of_none isBlank (by decide) c
    rw [hesc]
    exact List.cons_ne_nil d ds
  · intro d hd
    have hescape : ∀ d ∈ escapeChars, isBlank d = false := List.all_iff_forall_prop.1 (by decide)
    have hmarkup : ∀ c ∈ markup, isBlank c = false := List.all_iff_forall_prop.1 (by decide)
    rcases mem_escapeMarkupChar hd with ⟨-, rfl⟩ | ⟨hm, hd⟩
    · rfl
    · rw [hescape d hd, hmarkup c hm]

section

variable {p : Char → Bool}

theorem dropWhile_escapeMarkup (h : Decides escapeMarkupChar p p) (cs : List Char) :
    (escapeMarkup cs).dropWhile p = escapeMarkup (cs.dropWhile p) := h.dropWhile cs

theorem takeWhile_escapeMarkup (h : Decides escapeMarkupChar p p) (cs : List Char) :
    (escapeMarkup cs).takeWhile p = escapeMarkup (cs.takeWhile p) := h.takeWhile cs

end

theorem trim_escapeMarkup (cs : List Char) : trim (escapeMarkup cs) = escapeMarkup (trim cs) := by
  rw [trim, trim, trimStart, trimStart, dropWhile_escapeMarkup uniform_isBlank.decides]
  exact uniform_isBlank.rdropWhile _

/-! ## Parts -/

/-- The part with the markup of its texts escaped. -/
def Part.escaped : Part → Part
  | .text s => .text (escapeMarkup s)
  | .linked key modifier => .linked (escapeMarkup key) modifier
  | part => part

def Part.isLiteral : Part → Bool
  | .literal _ => true
  | _ => false

theorem isNamePart_of_placeholderPart {content : List Char} {part : Part}
    (h : placeholderPart content = .ok part) : ∀ c ∈ content, isNamePart c = true := by
  unfold placeholderPart at h
  split at h
  · cases h
  · split at h
    · rename_i hdigits
      exact fun c hc => isNamePart_of_digit (List.all_eq_true.1 hdigits c hc)
    · split at h
      · exact isName_parts ‹_›
      · cases h

theorem placeholderPart_not_markup {content : List Char} {part : Part}
    (h : placeholderPart content = .ok part) : ∀ c ∈ content, c ∉ markup :=
  fun c hc => not_markup_of (by decide) (isNamePart_of_placeholderPart h c hc)

theorem placeholderPart_escaped {content : List Char} {part : Part}
    (h : placeholderPart content = .ok part) : part.escaped = part ∧ part.isLiteral = false := by
  unfold placeholderPart at h
  split at h
  · cases h
  · split at h
    · simp only at h
      split at h <;> cases h
      exact ⟨rfl, rfl⟩
    · split at h <;> cases h
      exact ⟨rfl, rfl⟩

theorem decides_brace : Decides escapeMarkupChar (!isBrace ·) (!isBrace ·) :=
  decides_of_all (by decide)

/-- A placeholder without quotes is read as before. -/
theorem placeholder_escapeMarkup {opening : Nat} {body rest : List Char} {part : Part}
    (h : placeholder opening body = .ok (part, rest)) (hpart : part.isLiteral = false)
    (opening' : Nat) :
    placeholder opening' (escapeMarkup body) = .ok (part.escaped, escapeMarkup rest) := by
  rcases placeholder_eq_ok.1 h with ⟨_, _, s, -, -, -, rfl⟩ | ⟨-, hclose, hcontent⟩
  · cases hpart
  · refine placeholder_eq_ok.2 (.inr ⟨fun body' hbody => ?_, ?_, ?_⟩)
    · -- no quote is left, so the escaped text cannot be read as a literal
      have hquote : '\'' ∈ escapeMarkup (body.dropWhile isBlank) := by
        rw [← dropWhile_escapeMarkup uniform_isBlank.decides, hbody]
        exact List.mem_cons_self
      exact absurd (by decide) (not_markup_of_mem_escapeMarkup hquote)
    · rw [dropWhile_escapeMarkup uniform_isBlank.decides, dropWhile_escapeMarkup decides_brace, hclose]
      rfl
    · rw [dropWhile_escapeMarkup uniform_isBlank.decides, takeWhile_escapeMarkup decides_brace,
        trim_escapeMarkup, escapeMarkup_eq_self (placeholderPart_not_markup hcontent),
        (placeholderPart_escaped hcontent).1, hcontent]

/-- A quoted literal is not read any more: what stands between the braces starts with an escape. -/
theorem placeholder_escapeMarkup_literal {opening : Nat} {body s rest : List Char}
    (h : placeholder opening body = .ok (.literal s, rest)) (opening' : Nat) :
    ∃ e, placeholder opening' (escapeMarkup body) = .error e := by
  rcases placeholder_eq_ok.1 h with ⟨quoted, _, _, hbody, -, -, -⟩ | ⟨-, -, hcontent⟩
  · cases hread : placeholder opening' (escapeMarkup body) with
    | error e => exact ⟨e, rfl⟩
    | ok read =>
      exfalso
      -- what is left starts with an ampersand, which neither a literal nor a name does
      have hescaped : (escapeMarkup body).dropWhile isBlank =
          '&' :: ("apos;".toList ++ escapeMarkup quoted) := by
        rw [dropWhile_escapeMarkup uniform_isBlank.decides, hbody]
        rfl
      rcases placeholder_eq_ok.1 hread with ⟨_, _, _, hquote, -⟩ | ⟨-, -, hcontent⟩
      · rw [hescaped] at hquote
        cases hquote
      · rw [hescaped, List.takeWhile_cons_of_pos (by decide)] at hcontent
        refine absurd (isNamePart_of_placeholderPart hcontent '&' ?_) (by decide)
        exact mem_trim_of_not_blank List.mem_cons_self (by decide)
  · cases (placeholderPart_escaped hcontent).2

/-! ## Linked messages -/

theorem decides_linkKey : Decides escapeMarkupChar isLinkKeyChar isLinkKeyChar :=
  decides_of_none (by decide +kernel)

theorem decides_close : Decides escapeMarkupChar (· ≠ ')') (· ≠ ')') :=
  decides_of_all (by decide)

theorem isLinkKeyChar_not_markup {c : Char} (h : isLinkKeyChar c = true) : c ∉ markup :=
  not_markup_of (by decide +kernel) h

theorem linkHead?_escapeMarkup {cs key : List Char} {modifier : Option (List Char)}
    (h : linkHead? cs = some (modifier, key)) :
    linkHead? (escapeMarkup cs) = some (modifier, escapeMarkup key) := by
  rcases linkHead?_some h with ⟨rfl, rfl⟩ | ⟨letters, rfl, rfl, hne, halpha⟩
  · rfl
  · have hself : escapeMarkup letters = letters :=
      escapeMarkup_eq_self fun c hc => not_markup_of (by decide) (halpha c hc)
    show linkHead? ('.' :: escapeMarkup (letters ++ ':' :: key)) = _
    rw [escapeMarkup_append, hself]
    exact linkHead?_letters hne halpha _

theorem linkHead?_escapeMarkup_none {cs : List Char} (h : linkHead? cs = none) :
    linkHead? (escapeMarkup cs) = none := by
  cases hhead : linkHead? (escapeMarkup cs) with
  | none => rfl
  | some head =>
    obtain ⟨modifier, key⟩ := head
    refine absurd ?_ (linkHead?_eq_none.1 h)
    rcases linkHead?_some hhead with ⟨-, hcs⟩ | ⟨letters, -, hcs, hne, halpha⟩
    · obtain ⟨behind, rfl⟩ := unescape_front [':'] (by decide) hcs
      exact .inl ⟨behind, rfl⟩
    · have hfront : '&' ∉ '.' :: (letters ++ [':']) := by
        have hletters : '&' ∉ letters := fun hm => absurd (halpha '&' hm) (by decide)
        simp [hletters]
      have hcs : escapeMarkup cs = '.' :: (letters ++ [':']) ++ key := by simp [hcs]
      obtain ⟨behind, rfl⟩ := unescape_front _ hfront hcs
      exact .inr ⟨letters, behind, by simp, hne, halpha⟩

theorem linkKey_escapeMarkup {cs key rest : List Char} (h : linkKey cs = .ok (key, rest)) :
    linkKey (escapeMarkup cs) = .ok (escapeMarkup key, escapeMarkup rest) := by
  rcases linkKey_eq_ok.1 h with ⟨body, rfl, hclose, rfl⟩ | ⟨hparen, rfl, rfl⟩
  · refine linkKey_eq_ok.2 (.inl ⟨escapeMarkup body, rfl, ?_, ?_⟩)
    · rw [dropWhile_escapeMarkup decides_close, hclose]
      rfl
    · rw [takeWhile_escapeMarkup decides_close, trim_escapeMarkup]
  · have hrun : ∀ c ∈ cs.takeWhile isLinkKeyChar, c ∉ markup :=
      fun c hc => isLinkKeyChar_not_markup (List.all_eq_true.1 List.all_takeWhile c hc)
    have hkey : escapeMarkup (dropDots (cs.takeWhile isLinkKeyChar)) =
        dropDots (cs.takeWhile isLinkKeyChar) :=
      escapeMarkup_eq_self fun c hc => hrun c (mem_of_mem_dropDots hc)
    refine linkKey_eq_ok.2 (.inr ⟨fun body hbody => ?_, ?_, ?_⟩)
    · obtain ⟨behind, rfl⟩ := unescape_front ['('] (by decide) hbody
      exact hparen behind rfl
    · rw [takeWhile_escapeMarkup decides_linkKey, escapeMarkup_eq_self hrun, hkey]
    · -- the key is not changed, so as many characters are dropped as before
      have hprefix : dropDots (cs.takeWhile isLinkKeyChar) <+: cs :=
        (List.rdropWhile_prefix _ _).trans (List.takeWhile_prefix _)
      have hcut := congrArg escapeMarkup (List.prefix_iff_eq_append.1 hprefix)
      rw [escapeMarkup_append] at hcut
      rw [← hcut, List.drop_left]

theorem linked_escapeMarkup {opening : Nat} {modifier : Option (List Char)} {cs rest : List Char}
    {part : Part} (h : linked opening modifier cs = .ok (part, rest)) (opening' : Nat) :
    linked opening' modifier (escapeMarkup cs) = .ok (part.escaped, escapeMarkup rest) := by
  obtain ⟨key, hkey, hne, rfl⟩ := linked_eq_ok.1 h
  refine linked_eq_ok.2 ⟨escapeMarkup key, linkKey_escapeMarkup hkey, fun hnil => ?_, rfl⟩
  exact hne (escapeMarkup_eq_nil hnil)

/-! ## Tokens -/

def Item.escaped (item : Item) : Item := ⟨item.part.escaped, 0⟩

/-- The tokens that a token becomes. -/
def Token.escaped : Token → List Token
  | .char c _ => (escapeMarkupChar c).map (.char · 0)
  | .item i => [.item i.escaped]
  | .bar => [.bar]

/-- Characters that neither end a text nor start a linked message. -/
theorem reads_plain {s cs : List Char} {ts : List Token} (h : ∀ c ∈ s, c ∉ ['\x7b', '|', '@'])
    (hcs : Reads cs ts) : Reads (s ++ cs) (s.map (.char · 0) ++ ts) := by
  induction s with
  | nil => exact hcs
  | cons c s ih =>
    obtain ⟨hc, hs⟩ := List.forall_mem_cons.1 h
    simp only [List.mem_cons, List.not_mem_nil, or_false, not_or] at hc
    exact reads_char hc.1 hc.2.1 (fun hat => absurd hat hc.2.2) (ih hs)

theorem escapeChars_plain {c d : Char} (hc : c ∈ markup) (hd : d ∈ escapeMarkupChar c) :
    d ∉ ['\x7b', '|', '@'] := by
  have hplain : ∀ d ∈ escapeChars, d ∉ ['\x7b', '|', '@'] := List.all_iff_forall_prop.1 (by decide)
  rcases mem_escapeMarkupChar hd with ⟨hn, -⟩ | ⟨-, hd⟩
  · exact absurd hc hn
  · exact hplain d hd

theorem Tokenized.escaped {pos : Nat} {cs : List Char} {ts : List Token} (h : Tokenized pos cs ts)
    (hliteral : ∀ i, .item i ∈ ts → i.part.isLiteral = false) :
    Reads (escapeMarkup cs) (ts.flatMap Token.escaped) := by
  induction h with
  | nil => exact reads_nil
  | bar _ ih => exact reads_bar (ih fun i hi => hliteral i (List.mem_cons_of_mem _ hi))
  | @char pos c cs ts hbrace hbar hlink _ ih =>
    have ih := ih fun i hi => hliteral i (List.mem_cons_of_mem _ hi)
    rw [escapeMarkup, List.flatMap_cons, List.flatMap_cons, Token.escaped]
    rcases escapeMarkupChar_cases c with ⟨-, hesc⟩ | ⟨hm, -⟩
    · rw [hesc]
      exact reads_char hbrace hbar (fun hat => linkHead?_escapeMarkup_none (hlink hat)) ih
    · exact reads_plain (fun d hd => escapeChars_plain hm hd) ih
  | placeholder hread _ ih =>
    have ih := ih fun i hi => hliteral i (List.mem_cons_of_mem _ hi)
    have hpart := hliteral _ List.mem_cons_self
    exact reads_placeholder (placeholder_escapeMarkup hread hpart) ih
  | link hhead hread _ ih =>
    have ih := ih fun i hi => hliteral i (List.mem_cons_of_mem _ hi)
    exact reads_link (linkHead?_escapeMarkup hhead) (linked_escapeMarkup hread) ih

/-! ## Cases -/

theorem consChar_escaped (c : Char) (offset : Nat) (case : Case) :
    (consChar c offset case).map Item.escaped =
      consText (escapeMarkupChar c) (case.map Item.escaped) := by
  have hsingle : escapeMarkup [c] = escapeMarkupChar c := List.flatMap_singleton _ _
  rcases case with _ | ⟨⟨part, place⟩, rest⟩
  · simp [consChar, consText, Item.escaped, Part.escaped, hsingle]
  · cases part <;> simp [consChar, consText, Item.escaped, Part.escaped, escapeMarkup]

theorem itemsOf_escaped (ts : List Token) :
    itemsOf (ts.flatMap Token.escaped) = (itemsOf ts).map Item.escaped := by
  induction ts with
  | nil => rfl
  | cons t ts ih =>
    rw [List.flatMap_cons]
    cases t with
    | char c offset =>
      show itemsOf ((escapeMarkupChar c).map (.char · 0) ++ _) = _
      rw [itemsOf_chars (uniform_isBlank c).1, ih]
      exact (consChar_escaped c offset _).symm
    | item i => exact congrArg (i.escaped :: ·) ih
    | bar => exact ih

theorem uniform_isBlankToken : Uniform Token.escaped isBlankToken isBlankToken := by
  intro t
  cases t with
  | char c offset =>
    obtain ⟨hne, hall⟩ := uniform_isBlank c
    refine ⟨fun hnil => hne (List.map_eq_nil_iff.1 hnil), fun b hb => ?_⟩
    obtain ⟨d, hd, rfl⟩ := List.mem_map.1 hb
    exact hall d hd
  | item i => exact ⟨List.cons_ne_nil _ _, fun b hb => List.mem_singleton.1 hb ▸ rfl⟩
  | bar => exact ⟨List.cons_ne_nil _ _, fun b hb => List.mem_singleton.1 hb ▸ rfl⟩

theorem rewrites_escaped : Rewrites (·.flatMap Token.escaped) (·.map Item.escaped) :=
  ⟨itemsOf_escaped, uniform_isBlankToken.decides.dropWhile, uniform_isBlankToken.rdropWhile⟩

theorem splitBars_escaped (ts : List Token) :
    splitBars (ts.flatMap Token.escaped) = (splitBars ts).map (·.flatMap Token.escaped) := by
  induction ts with
  | nil => rfl
  | cons t ts ih =>
    by_cases ht : t = .bar
    · subst ht
      exact congrArg ([] :: ·) ih
    · obtain ⟨first, others, hs, hcons⟩ := splitBars_cons ht ts
      have hbar : .bar ∉ t.escaped := by
        cases t with
        | char c offset => simp [Token.escaped]
        | item i => simp [Token.escaped]
        | bar => exact absurd rfl ht
      rw [hs, List.map_cons] at ih
      rw [List.flatMap_cons, splitBars_append_of_not_mem hbar ih, hcons]
      rfl

theorem casesOf_splitBars_escaped (ts : List Token) :
    casesOf (splitBars (ts.flatMap Token.escaped)) =
      (casesOf (splitBars ts)).map (·.map Item.escaped) := by
  rw [splitBars_escaped, rewrites_escaped.casesOf]

/-! ## Quoted literals -/

/-- At no place can the text be cut into tokens. -/
def Unreadable (cs : List Char) : Prop := ∀ pos, ∃ e, tokens pos cs = .error e

/-- A text is not cut into tokens if what stands behind its first token is not. -/
theorem unreadable_of_tail {cs rest : List Char} {t : Nat → Token} {place : Nat → Nat}
    (hcs : ∀ pos, tokens pos cs = (tokens (place pos) rest).map (t pos :: ·)) (h : Unreadable rest) :
    Unreadable cs := by
  intro pos
  obtain ⟨e, he⟩ := h (place pos)
  refine ⟨e, ?_⟩
  rw [hcs, he]
  rfl

theorem unreadable_plain {s cs : List Char} (hs : ∀ c ∈ s, c ∉ ['\x7b', '|', '@'])
    (h : Unreadable cs) : Unreadable (s ++ cs) := by
  induction s with
  | nil => exact h
  | cons c s ih =>
    obtain ⟨hc, hs⟩ := List.forall_mem_cons.1 hs
    simp only [List.mem_cons, List.not_mem_nil, or_false, not_or] at hc
    exact unreadable_of_tail (tokens_char hc.1 hc.2.1 fun hat => absurd hat hc.2.2) (ih hs)

theorem Tokenized.unreadable_escaped {pos : Nat} {cs : List Char} {ts : List Token}
    (h : Tokenized pos cs ts) {item : Item} (hitem : .item item ∈ ts)
    (hliteral : item.part.isLiteral = true) : Unreadable (escapeMarkup cs) := by
  -- along the tokens up to the literal, whose braces then close on an escape
  induction h with
  | nil => cases hitem
  | bar _ ih =>
    exact unreadable_of_tail (fun pos => tokens_bar pos _) (ih (by simpa using hitem))
  | @char pos c cs ts hbrace hbar hlink _ ih =>
    have ih := ih (by simpa using hitem)
    rw [escapeMarkup, List.flatMap_cons]
    rcases escapeMarkupChar_cases c with ⟨-, hesc⟩ | ⟨hm, -⟩
    · rw [hesc]
      exact unreadable_of_tail
        (tokens_char hbrace hbar fun hat => linkHead?_escapeMarkup_none (hlink hat)) ih
    · exact unreadable_plain (fun d hd => escapeChars_plain hm hd) ih
  | @placeholder pos body rest part ts hread _ ih =>
    cases hpart : part.isLiteral with
    | true =>
      cases part with
      | literal s =>
        intro pos
        obtain ⟨e, he⟩ := placeholder_escapeMarkup_literal hread pos
        exact ⟨e, tokens_placeholder_error he⟩
      | _ => cases hpart
    | false =>
      have hread := placeholder_escapeMarkup hread hpart
      refine unreadable_of_tail (fun pos => tokens_placeholder (hread pos)) (ih ?_)
      rcases List.mem_cons.1 hitem with heq | hitem
      · cases heq
        exact absurd (hliteral.symm.trans hpart) (by decide)
      · exact hitem
  | @link pos body key rest modifier part ts hhead hread _ ih =>
    have hhead' := linkHead?_escapeMarkup hhead
    have hread' := linked_escapeMarkup hread
    refine unreadable_of_tail (fun pos => tokens_link hhead' (hread' pos)) (ih ?_)
    rcases List.mem_cons.1 hitem with heq | hitem
    · cases heq
      obtain ⟨_, -, -, rfl⟩ := linked_eq_ok.1 hread
      cases hliteral
    · exact hitem

/-! ## Items of the cases -/

theorem mem_dropLeadingBlanks {ts : List Token} {item : Item} :
    .item item ∈ dropLeadingBlanks ts ↔ .item item ∈ ts := by
  constructor
  · exact fun h => (List.dropWhile_suffix _).subset h
  · exact fun h => mem_dropWhile_of_neg h (by simp [isBlankToken])

theorem mem_dropTrailingBlanks {ts : List Token} {item : Item} :
    .item item ∈ dropTrailingBlanks ts ↔ .item item ∈ ts := by
  rw [dropTrailingBlanks, List.mem_reverse]
  exact mem_dropLeadingBlanks.trans List.mem_reverse

section

variable {item : Item} (h : item.part.isText = false)

include h

theorem mem_consChar {c : Char} {offset : Nat} {case : Case} :
    item ∈ consChar c offset case ↔ item ∈ case := by
  have hne : ∀ s place, item ≠ ⟨.text s, place⟩ := fun s place heq => by
    rw [heq] at h
    cases h
  rcases case with _ | ⟨⟨part, place⟩, rest⟩
  · simp [consChar, hne]
  · cases part <;> simp [consChar, hne]

theorem mem_itemsOf {ts : List Token} : item ∈ itemsOf ts ↔ .item item ∈ ts := by
  induction ts with
  | nil => simp [itemsOf]
  | cons t ts ih =>
    cases t with
    | char c offset => simp [itemsOf, mem_consChar h, ih]
    | item i => simp [itemsOf, ih]
    | bar => simp [itemsOf, ih]

theorem mem_casesBehind : ∀ {segments : List (List Token)},
    item ∈ (casesBehind segments).flatten ↔ .item item ∈ segments.flatten
  | [] => by simp [casesBehind]
  | [last] => by
    simp [casesBehind, mem_itemsOf h, mem_dropLeadingBlanks]
  | ts :: next :: rest => by
    have hothers := @mem_casesBehind (next :: rest)
    show item ∈ (itemsOf (dropTrailingBlanks (dropLeadingBlanks ts)) ::
      casesBehind (next :: rest)).flatten ↔ _
    rw [List.flatten_cons, List.flatten_cons, List.mem_append, List.mem_append, hothers, mem_itemsOf h,
      mem_dropTrailingBlanks, mem_dropLeadingBlanks]

theorem mem_casesOf : ∀ {segments : List (List Token)},
    item ∈ (casesOf segments).flatten ↔ .item item ∈ segments.flatten
  | [] => by simp [casesOf]
  | [only] => by simp [casesOf, mem_itemsOf h]
  | first :: next :: rest => by
    have hothers := @mem_casesBehind item h (next :: rest)
    show item ∈ (itemsOf (dropTrailingBlanks first) :: casesBehind (next :: rest)).flatten ↔ _
    rw [List.flatten_cons, List.flatten_cons, List.mem_append, List.mem_append, hothers, mem_itemsOf h,
      mem_dropTrailingBlanks]

end

theorem mem_splitBars {t : Token} (ht : t ≠ .bar) {ts : List Token} :
    t ∈ (splitBars ts).flatten ↔ t ∈ ts := by
  induction ts with
  | nil => simp [splitBars]
  | cons t' ts ih =>
    by_cases hbar : t' = .bar
    · subst hbar
      simpa [splitBars, ht] using ih
    · obtain ⟨first, others, hs, hcons⟩ := splitBars_cons hbar ts
      rw [hs] at ih
      rw [hcons, List.flatten_cons, List.cons_append, List.mem_cons, List.mem_cons, ← ih,
        List.flatten_cons]

/-- The parts of a message other than texts are what its tokens hold. -/
theorem mem_casesOf_splitBars {item : Item} (h : item.part.isText = false) {ts : List Token} :
    item ∈ (casesOf (splitBars ts)).flatten ↔ .item item ∈ ts :=
  (mem_casesOf h).trans (mem_splitBars Token.noConfusion)

/-! ## Whole messages -/

theorem isText_of_isLiteral {part : Part} (h : part.isLiteral = true) : part.isText = false := by
  cases part with
  | literal s => rfl
  | _ => cases h

/--
A message without quoted literals is read after escaping too: the same parts, with the markup of texts
and link keys escaped.
-/
theorem parse_escapeMarkup {message : List Char} {cases : List Case} (h : parse message = .ok cases)
    (hliteral : ∀ item ∈ cases.flatten, item.part.isLiteral = false) :
    ∃ cases', parse (escapeMarkup message) = .ok cases' ∧
      cases'.map (·.map Item.part) = cases.map (·.map (·.part.escaped)) := by
  obtain ⟨ts, hts, rfl⟩ := parse_eq_ok_iff.1 h
  -- a literal among the tokens would be one among the cases
  have htokens : ∀ i, .item i ∈ ts → i.part.isLiteral = false := by
    intro i hi
    cases hlit : i.part.isLiteral with
    | false => rfl
    | true =>
      have hi := (mem_casesOf_splitBars (isText_of_isLiteral hlit)).2 hi
      exact hlit.symm.trans (hliteral i hi)
  obtain ⟨ts', hts', hunplaced⟩ := hts.escaped htokens 0
  refine ⟨_, parse_eq_ok_iff.2 ⟨ts', hts', rfl⟩, ?_⟩
  have hcases := (casesOf_splitBars_unplaced ts').trans
    ((congrArg (fun ts => casesOf (splitBars ts)) hunplaced).trans (casesOf_splitBars_escaped ts))
  have hparts := congrArg (List.map (List.map Item.part)) hcases
  simpa [List.map_map, Function.comp_def, Item.unplaced, Item.escaped] using hparts

/-- A message with a quoted literal is rejected after escaping. -/
theorem parse_escapeMarkup_literal {message : List Char} {cases : List Case}
    (h : parse message = .ok cases) {item : Item} (hitem : item ∈ cases.flatten)
    (hliteral : item.part.isLiteral = true) : ∃ e, parse (escapeMarkup message) = .error e := by
  obtain ⟨ts, hts, rfl⟩ := parse_eq_ok_iff.1 h
  have htoken := (mem_casesOf_splitBars (isText_of_isLiteral hliteral)).1 hitem
  obtain ⟨e, he⟩ := hts.unreadable_escaped htoken hliteral 0
  exact ⟨e, by rw [parse, he]; rfl⟩

/-! ## The compiler -/

theorem findTag_eq_none {cs : List Char} (h : '<' ∉ cs) (pos : Nat) : findTag pos cs = none := by
  induction cs generalizing pos with
  | nil => rfl
  | cons c cs ih =>
    obtain ⟨hc, hcs⟩ := not_or.1 (mt List.mem_cons.2 h)
    rw [findTag, if_neg (fun hand => hc hand.1.symm), ih hcs]

/-- The option does no more than escape the message before it is compiled. -/
theorem compile_escapeHtml (message : String) (options : Options) (path : List String) :
    compile message { options with escapeHtml := true } path =
      compile (String.ofList (escapeMarkup message.toList)) { options with escapeHtml := false }
        path := by
  -- no tag is left in the escaped message, so the check for one passes it as it is
  have hfree : '<' ∉ escapeMarkup message.toList := fun h =>
    absurd (by decide) (not_markup_of_mem_escapeMarkup h)
  have hprepare : prepare (escapeMarkup message.toList) { options with escapeHtml := false } =
      prepare message.toList { options with escapeHtml := true } := by
    simp [prepare, findTag_eq_none hfree]
  unfold compile
  rw [String.toList_ofList, hprepare]
  rfl

end MessageCatalog.Message
