/-
What parsing gives can be written. Every part that is read is well-formed, and a text between two
tokens of another kind holds no start of a linked message, so the cases are well-formed too.
-/
import MessageCatalog.Proofs.Message.Render
import MessageCatalog.Proofs.Message.Tokens

namespace MessageCatalog.Message

open MessageCatalog.Text

/-! ## Placeholders -/

theorem quotedLiteral_newline {cs s rest : List Char} (h : quotedLiteral cs = some (s, rest)) :
    '\n' ∉ s := by
  induction cs using quotedLiteral.induct generalizing s with
  | case1 => cases h
  | case2 r =>
    cases h
    exact List.not_mem_nil
  | case3 => cases h
  | case4 r ih =>
    rw [quotedLiteral] at h
    obtain ⟨⟨s', r'⟩, hr, hs⟩ := Option.map_eq_some_iff.1 h
    cases hs
    exact List.not_mem_cons_of_ne_of_not_mem (by decide) (ih hr)
  | case5 r ih =>
    rw [quotedLiteral] at h
    obtain ⟨⟨s', r'⟩, hr, hs⟩ := Option.map_eq_some_iff.1 h
    cases hs
    exact List.not_mem_cons_of_ne_of_not_mem (by decide) (ih hr)
  | case6 c r h1 h2 h3 h4 ih =>
    rw [quotedLiteral] at h
    · obtain ⟨⟨s', r'⟩, hr, hs⟩ := Option.map_eq_some_iff.1 h
      cases hs
      exact List.not_mem_cons_of_ne_of_not_mem (fun hc => h2 hc.symm) (ih hr)
    all_goals assumption

theorem placeholderPart_wellFormed {content : List Char} {part : Part}
    (h : placeholderPart content = .ok part) : part.WellFormed ∧ part.isText = false := by
  unfold placeholderPart at h
  split at h
  · cases h
  · split at h
    · simp only at h
      split at h
      · cases h
        exact ⟨‹_›, rfl⟩
      · cases h
    · split at h
      · cases h
        exact ⟨‹_›, rfl⟩
      · cases h

theorem placeholder_wellFormed {opening : Nat} {cs rest : List Char} {part : Part}
    (h : placeholder opening cs = .ok (part, rest)) : part.WellFormed ∧ part.isText = false := by
  rcases placeholder_eq_ok.1 h with ⟨body, behind, s, -, hread, -, rfl⟩ | ⟨-, -, hpart⟩
  · exact ⟨quotedLiteral_newline hread, rfl⟩
  · exact placeholderPart_wellFormed hpart

/-! ## Linked messages -/

theorem isLinkKeyChar_not_blank {c : Char} (h : isLinkKeyChar c = true) : isBlank c = false :=
  not_blank_of (by decide +kernel) h

theorem mem_of_mem_dropDots {cs : List Char} {c : Char} (h : c ∈ dropDots cs) : c ∈ cs :=
  (List.rdropWhile_prefix _ cs).subset h

theorem linkKey_wellFormed {cs key rest : List Char} (h : linkKey cs = .ok (key, rest)) :
    trim key = key ∧ ')' ∉ key := by
  rcases linkKey_eq_ok.1 h with ⟨body, -, -, rfl⟩ | ⟨-, rfl, -⟩
  · refine ⟨trim_trim _, fun hm => ?_⟩
    have := List.all_eq_true.1 List.all_takeWhile _ (mem_of_mem_trim hm)
    simp at this
  · have hkey : ∀ c ∈ dropDots (cs.takeWhile isLinkKeyChar), isLinkKeyChar c = true :=
      fun c hc => List.all_eq_true.1 List.all_takeWhile c (mem_of_mem_dropDots hc)
    refine ⟨trim_eq_self fun c hc => isLinkKeyChar_not_blank (hkey c hc), fun hm => ?_⟩
    exact absurd (hkey _ hm) (by decide +kernel)

theorem linked_wellFormed {opening : Nat} {cs key rest : List Char}
    {modifier : Option (List Char)} {part : Part} (hhead : linkHead? cs = some (modifier, key))
    (h : linked opening modifier key = .ok (part, rest)) :
    part.WellFormed ∧ part.isText = false := by
  have hletters : ∀ letters ∈ modifier, letters ≠ [] ∧ ∀ c ∈ letters, isAsciiAlpha c = true := by
    intro letters hl
    rcases linkHead?_some hhead with ⟨rfl, -⟩ | ⟨letters', rfl, -, hne, halpha⟩
    · cases hl
    · cases hl
      exact ⟨hne, halpha⟩
  obtain ⟨k, hkey, hne, rfl⟩ := linked_eq_ok.1 h
  obtain ⟨htrim, hclose⟩ := linkKey_wellFormed hkey
  exact ⟨⟨hne, htrim, hclose, hletters⟩, rfl⟩

/-! ## Tokens -/

/-- The characters in front of the first item or bar. -/
def leadingText : List Token → List Char
  | .char c _ :: rest => c :: leadingText rest
  | _ => []

/-- Tokens that a message can have. -/
def Sound : List Token → Prop
  | [] => True
  | .char c _ :: rest =>
    (c ≠ '\x7b' ∧ c ≠ '|' ∧ (c = '@' → linkHead? (leadingText rest) = none)) ∧ Sound rest
  | .item i :: rest => (i.part.WellFormed ∧ i.part.isText = false) ∧ Sound rest
  | .bar :: rest => Sound rest

theorem Tokenized.leadingText_isPrefix {pos : Nat} {cs : List Char} {ts : List Token}
    (h : Tokenized pos cs ts) : leadingText ts <+: cs := by
  induction h with
  | nil pos => exact List.nil_prefix
  | bar _ _ => exact List.nil_prefix
  | char _ _ _ _ ih => exact (List.prefix_cons_inj _).2 ih
  | placeholder _ _ _ => exact List.nil_prefix
  | link _ _ _ _ => exact List.nil_prefix

theorem linkHead?_of_isPrefix {a b : List Char} (h : a <+: b) (hb : linkHead? b = none) :
    linkHead? a = none := by
  obtain ⟨t, rfl⟩ := h
  rw [linkHead?_eq_none] at hb ⊢
  rintro (⟨r, ha⟩ | ⟨letters, r, ha, hne, halpha⟩)
  · cases ha
    exact hb (.inl ⟨r ++ t, rfl⟩)
  · cases ha
    refine hb (.inr ⟨letters, r ++ t, ?_, hne, halpha⟩)
    simp

theorem Tokenized.sound {pos : Nat} {cs : List Char} {ts : List Token} (h : Tokenized pos cs ts) :
    Sound ts := by
  induction h with
  | nil pos => trivial
  | bar _ ih => exact ih
  | char hbrace hbar hlink others ih =>
    exact ⟨⟨hbrace, hbar, fun hat => linkHead?_of_isPrefix others.leadingText_isPrefix (hlink hat)⟩, ih⟩
  | placeholder hread _ ih => exact ⟨placeholder_wellFormed hread, ih⟩
  | link hhead hread _ ih => exact ⟨linked_wellFormed hhead hread, ih⟩

theorem leadingText_append (a b : List Token) : leadingText a <+: leadingText (a ++ b) := by
  induction a with
  | nil => exact List.nil_prefix
  | cons t a ih =>
    cases t with
    | char c offset => exact (List.prefix_cons_inj c).2 ih
    | item i => exact List.nil_prefix
    | bar => exact List.nil_prefix

theorem Sound.left {a b : List Token} (h : Sound (a ++ b)) : Sound a := by
  induction a with
  | nil => trivial
  | cons t a ih =>
    cases t with
    | char c offset =>
      obtain ⟨⟨hbrace, hbar, hlink⟩, hrest⟩ := h
      exact ⟨⟨hbrace, hbar, fun hat => linkHead?_of_isPrefix (leadingText_append a b) (hlink hat)⟩,
        ih hrest⟩
    | item i => exact ⟨h.1, ih h.2⟩
    | bar => exact ih h

theorem Sound.right {a b : List Token} (h : Sound (a ++ b)) : Sound b := by
  induction a with
  | nil => exact h
  | cons t a ih =>
    cases t with
    | char c offset => exact ih h.2
    | item i => exact ih h.2
    | bar => exact ih h

/-- A stretch of sound tokens is sound. -/
theorem Sound.infix {a b : List Token} (hb : Sound b) (h : a <:+: b) : Sound a := by
  obtain ⟨front, back, rfl⟩ := h
  exact hb.left.right

/-! ## Cases -/

/-- The text at the start of a case. -/
def Case.leading : Case → List Char
  | ⟨.text s, _⟩ :: _ => s
  | _ => []

theorem leading_itemsOf {ts : List Token} (hbar : .bar ∉ ts) (hsound : Sound ts) :
    Case.leading (itemsOf ts) = leadingText ts := by
  induction ts with
  | nil => rfl
  | cons t ts ih =>
    cases t with
    | char c offset =>
      have hrest := ih (fun h => hbar (List.mem_cons_of_mem _ h)) hsound.2
      show Case.leading (consChar c offset (itemsOf ts)) = c :: leadingText ts
      rw [← hrest]
      rcases itemsOf ts with _ | ⟨⟨part, place⟩, rest⟩
      · rfl
      · cases part <;> rfl
    | item i =>
      obtain ⟨⟨-, htext⟩, -⟩ := hsound
      show Case.leading (i :: itemsOf ts) = []
      obtain ⟨part, place⟩ := i
      cases part with
      | text s => cases htext
      | _ => rfl
    | bar => exact absurd List.mem_cons_self hbar

theorem not_linkStarts_nil : ¬ LinkStarts [] := by
  rintro (⟨rest, h⟩ | ⟨letters, rest, h, -⟩) <;> cases h

theorem not_linkStarts_cons {c : Char} {cs : List Char} (h : c = '@' → linkHead? cs = none) :
    ¬ LinkStarts (c :: cs) := by
  intro hs
  have hc : c = '@' := by
    rcases hs with ⟨rest, h⟩ | ⟨letters, rest, h, -⟩ <;> exact (List.cons.inj h).1
  subst hc
  exact linkHead?_eq_none.1 (h rfl) hs

/-- A character in front of a text that a linked message does not start at. -/
theorem text_wellFormed_cons {c : Char} {s : List Char} (hbrace : c ≠ '\x7b') (hbar : c ≠ '|')
    (hlink : c = '@' → linkHead? s = none) (hs : s = [] ∨ (Part.text s).WellFormed) :
    (Part.text (c :: s)).WellFormed := by
  have hsuffix : ∀ cs, cs <:+ s → ¬ LinkStarts cs := by
    rcases hs with rfl | hs
    · intro cs hcs
      rw [List.suffix_nil.1 hcs]
      exact not_linkStarts_nil
    · exact hs.2.2.2
  have hnot : '\x7b' ∉ s ∧ '|' ∉ s := by
    rcases hs with rfl | hs
    · exact ⟨List.not_mem_nil, List.not_mem_nil⟩
    · exact ⟨hs.2.1, hs.2.2.1⟩
  refine ⟨List.cons_ne_nil c s, List.not_mem_cons_of_ne_of_not_mem hbrace.symm hnot.1,
    List.not_mem_cons_of_ne_of_not_mem hbar.symm hnot.2, fun cs hcs => ?_⟩
  rcases List.suffix_cons_iff.1 hcs with rfl | hcs
  · exact not_linkStarts_cons hlink
  · exact hsuffix cs hcs

theorem consChar_wellFormed {c : Char} {offset : Nat} {case : Case} (hbrace : c ≠ '\x7b')
    (hbar : c ≠ '|') (hlink : c = '@' → linkHead? case.leading = none) (h : case.WellFormed) :
    Case.WellFormed (consChar c offset case) := by
  obtain ⟨hparts, hapart⟩ := h
  rcases case with _ | ⟨⟨part, place⟩, rest⟩
  · refine ⟨fun item hi => ?_, List.isChain_singleton _⟩
    obtain rfl := List.mem_singleton.1 hi
    exact text_wellFormed_cons hbrace hbar hlink (.inl rfl)
  · cases hp : part with
    | text s =>
      subst hp
      have hs := hparts _ List.mem_cons_self
      refine ⟨fun item hi => ?_, ?_⟩
      · rcases List.mem_cons.1 hi with rfl | hi
        · exact text_wellFormed_cons hbrace hbar hlink (.inr hs)
        · exact hparts item (List.mem_cons_of_mem _ hi)
      · obtain ⟨hhead, hrest⟩ := List.isChain_cons.1 hapart
        exact hrest.cons fun next hn h => hhead next hn ⟨rfl, h.2⟩
    | _ =>
      subst hp
      refine ⟨fun item hi => ?_, List.isChain_cons_cons.2 ⟨fun h => Bool.false_ne_true h.2, hapart⟩⟩
      rcases List.mem_cons.1 hi with rfl | hi
      · exact text_wellFormed_cons hbrace hbar hlink (.inl rfl)
      · exact hparts item hi

theorem itemsOf_wellFormed {ts : List Token} (hbar : .bar ∉ ts) (hsound : Sound ts) :
    Case.WellFormed (itemsOf ts) := by
  induction ts with
  | nil => exact ⟨fun item hi => (List.not_mem_nil hi).elim, List.isChain_nil⟩
  | cons t ts ih =>
    have hbar' : .bar ∉ ts := fun h => hbar (List.mem_cons_of_mem _ h)
    cases t with
    | char c offset =>
      obtain ⟨⟨hbrace, hpipe, hlink⟩, hrest⟩ := hsound
      rw [← leading_itemsOf hbar' hrest] at hlink
      exact consChar_wellFormed hbrace hpipe hlink (ih hbar' hrest)
    | item i =>
      obtain ⟨⟨hpart, htext⟩, hrest⟩ := hsound
      obtain ⟨hparts, hapart⟩ := ih hbar' hrest
      refine ⟨fun item hi => ?_, ?_⟩
      · rcases List.mem_cons.1 hi with rfl | hi
        · exact hpart
        · exact hparts item hi
      · refine hapart.cons fun next _ h => ?_
        rw [htext] at h
        exact Bool.false_ne_true h.1
    | bar => exact absurd List.mem_cons_self hbar

/-! ## Blanks around bars -/

theorem leadingText_head {ts : List Token} {c : Char} (h : c ∈ (leadingText ts).head?) :
    ∃ offset, .char c offset ∈ ts.head? := by
  cases ts with
  | nil => cases h
  | cons t ts =>
    cases t with
    | char d offset =>
      cases h
      exact ⟨offset, rfl⟩
    | item i => cases h
    | bar => cases h

/-- A case starts flush if its tokens do not start with a blank. -/
theorem itemsOf_startsFlush {ts : List Token} (hbar : .bar ∉ ts) (hsound : Sound ts)
    (h : ∀ t ∈ ts.head?, isBlankToken t = false) : Case.StartsFlush (itemsOf ts) := by
  intro item hi s hs c hc
  have hleading : Case.leading (itemsOf ts) = s := by
    obtain ⟨part, place⟩ := item
    obtain rfl : part = .text s := hs
    rcases hitems : itemsOf ts with _ | ⟨first, rest⟩
    · rw [hitems] at hi
      cases hi
    · rw [hitems] at hi
      cases hi
      rfl
  rw [← hleading, leading_itemsOf hbar hsound] at hc
  obtain ⟨offset, ht⟩ := leadingText_head hc
  exact h _ ht

theorem itemsOf_eq_nil {ts : List Token} (hbar : .bar ∉ ts) (h : itemsOf ts = []) : ts = [] := by
  cases ts with
  | nil => rfl
  | cons t ts =>
    cases t with
    | char c offset =>
      rw [itemsOf] at h
      unfold consChar at h
      split at h <;> cases h
    | item i => cases h
    | bar => exact absurd List.mem_cons_self hbar

theorem getLast?_cons_of_ne_nil {α : Type} {l : List α} (h : l ≠ []) (a : α) :
    (a :: l).getLast? = l.getLast? := by
  cases l with
  | nil => exact absurd rfl h
  | cons b l => rw [List.getLast?_cons_cons]

/-- A text at the end of a case ends with the last token. -/
theorem itemsOf_getLast {ts : List Token} (hbar : .bar ∉ ts) (hsound : Sound ts) {item : Item}
    (hi : item ∈ (itemsOf ts).getLast?) {s : List Char} (hs : item.part = .text s) {c : Char}
    (hc : c ∈ s.getLast?) : ∃ offset, .char c offset ∈ ts.getLast? := by
  induction ts generalizing item s with
  | nil => cases hi
  | cons t ts ih =>
    have hbar' : .bar ∉ ts := fun h => hbar (List.mem_cons_of_mem _ h)
    cases t with
    | char d offset =>
      -- the character goes in front of the first text, which is the last item only if it is alone
      have hwell := itemsOf_wellFormed hbar' hsound.2
      have ih := @ih hbar' hsound.2
      rw [itemsOf] at hi
      rcases hitems : itemsOf ts with _ | ⟨⟨part, place⟩, rest⟩
      · obtain rfl := itemsOf_eq_nil hbar' hitems
        cases hi
        cases hs
        cases hc
        exact ⟨offset, rfl⟩
      · have hts : ts ≠ [] := by
          rintro rfl
          cases hitems
        rw [getLast?_cons_of_ne_nil hts]
        rw [hitems] at hi hwell ih
        cases hp : part with
        | text s' =>
          subst hp
          cases rest with
          | nil =>
            cases hi
            cases hs
            rw [getLast?_cons_of_ne_nil (hwell.parts _ List.mem_cons_self).1] at hc
            exact ih rfl rfl hc
          | cons next rest => exact ih hi hs hc
        | _ =>
          subst hp
          exact ih hi hs hc
    | item i =>
      have ih := @ih hbar' hsound.2
      rw [itemsOf] at hi
      rcases hitems : itemsOf ts with _ | ⟨first, rest⟩
      · rw [hitems] at hi
        obtain rfl : i = item := Option.some.inj hi
        have htext := hsound.1.2
        rw [hs] at htext
        cases htext
      · have hts : ts ≠ [] := by
          rintro rfl
          cases hitems
        rw [getLast?_cons_of_ne_nil hts]
        rw [hitems] at hi ih
        exact ih hi hs hc
    | bar => exact absurd List.mem_cons_self hbar

/-- A case ends flush if its tokens do not end with a blank. -/
theorem itemsOf_endsFlush {ts : List Token} (hbar : .bar ∉ ts) (hsound : Sound ts)
    (h : ∀ t ∈ ts.getLast?, isBlankToken t = false) : Case.EndsFlush (itemsOf ts) := by
  intro item hi s hs c hc
  obtain ⟨offset, ht⟩ := itemsOf_getLast hbar hsound hi hs hc
  exact h _ ht

theorem dropLeadingBlanks_head (ts : List Token) :
    ∀ t ∈ (dropLeadingBlanks ts).head?, isBlankToken t = false := fun _ ht => head?_dropWhile ht

theorem dropTrailingBlanks_isPrefix (ts : List Token) : dropTrailingBlanks ts <+: ts :=
  List.rdropWhile_prefix isBlankToken ts

theorem dropTrailingBlanks_getLast (ts : List Token) :
    ∀ t ∈ (dropTrailingBlanks ts).getLast?, isBlankToken t = false := by
  intro t ht
  rw [dropTrailingBlanks, List.getLast?_reverse] at ht
  exact head?_dropWhile ht

/-- The tokens between bars, blanks at their ends dropped or not. -/
structure Segment (ts : List Token) : Prop where
  bar : .bar ∉ ts
  sound : Sound ts

theorem Segment.infix {a b : List Token} (hb : Segment b) (h : a <:+: b) : Segment a :=
  ⟨fun hm => hb.bar (h.subset hm), hb.sound.infix h⟩

theorem Segment.dropLeadingBlanks {ts : List Token} (h : Segment ts) :
    Segment (dropLeadingBlanks ts) := h.infix (List.dropWhile_suffix _).isInfix

theorem Segment.dropTrailingBlanks {ts : List Token} (h : Segment ts) :
    Segment (dropTrailingBlanks ts) := h.infix (dropTrailingBlanks_isPrefix ts).isInfix

theorem splitBars_infix {ts : List Token} {first : List Token} {others : List (List Token)}
    (h : splitBars ts = first :: others) :
    (first <+: ts ∧ .bar ∉ first) ∧ ∀ segment ∈ others, segment <:+: ts ∧ .bar ∉ segment := by
  induction ts generalizing first others with
  | nil =>
    cases h
    exact ⟨⟨List.prefix_rfl, List.not_mem_nil⟩, fun _ hs => (List.not_mem_nil hs).elim⟩
  | cons t ts ih =>
    by_cases ht : t = .bar
    · subst ht
      obtain ⟨rfl, rfl⟩ := List.cons.inj h
      refine ⟨⟨List.nil_prefix, List.not_mem_nil⟩, fun segment hs => ?_⟩
      obtain ⟨first, others, hsplit⟩ := List.exists_cons_of_ne_nil (splitBars_ne_nil ts)
      obtain ⟨⟨hfirst, hbar⟩, hothers⟩ := ih hsplit
      rw [hsplit] at hs
      rcases List.mem_cons.1 hs with rfl | hs
      · exact ⟨List.infix_cons hfirst.isInfix, hbar⟩
      · exact ⟨List.infix_cons (hothers segment hs).1, (hothers segment hs).2⟩
    · obtain ⟨first', others', hsplit, hcons⟩ := splitBars_cons ht ts
      rw [hcons] at h
      obtain ⟨rfl, rfl⟩ := List.cons.inj h
      obtain ⟨⟨hfirst, hbar⟩, hothers⟩ := ih hsplit
      refine ⟨⟨(List.prefix_cons_inj t).2 hfirst, ?_⟩, fun segment hs => ?_⟩
      · exact List.not_mem_cons_of_ne_of_not_mem (fun h => ht h.symm) hbar
      · exact ⟨List.infix_cons (hothers segment hs).1, (hothers segment hs).2⟩

theorem splitBars_segments {ts : List Token} (h : Sound ts) :
    ∀ segment ∈ splitBars ts, Segment segment := by
  intro segment hs
  obtain ⟨first, others, hsplit⟩ := List.exists_cons_of_ne_nil (splitBars_ne_nil ts)
  obtain ⟨⟨hfirst, hbar⟩, hothers⟩ := splitBars_infix hsplit
  rw [hsplit] at hs
  rcases List.mem_cons.1 hs with rfl | hs
  · exact ⟨hbar, h.infix hfirst.isInfix⟩
  · exact ⟨(hothers segment hs).2, h.infix (hothers segment hs).1⟩

theorem casesBehind_ne_nil {ts : List Token} {rest : List (List Token)} :
    casesBehind (ts :: rest) ≠ [] := by
  cases rest <;> exact List.cons_ne_nil _ _

/-- The cases behind a bar are well-formed and flush with the bars around them. -/
theorem casesBehind_wellFormed : ∀ {segments : List (List Token)},
    (∀ ts ∈ segments, Segment ts) →
    (∀ case ∈ casesBehind segments, Case.WellFormed case ∧ Case.StartsFlush case) ∧
      ∀ case ∈ (casesBehind segments).dropLast, Case.EndsFlush case
  | [], _ => ⟨fun _ h => (List.not_mem_nil h).elim, fun _ h => (List.not_mem_nil h).elim⟩
  | [last], h => by
    have hlast := (h last List.mem_cons_self).dropLeadingBlanks
    refine ⟨fun case hc => ?_, fun _ h => (List.not_mem_nil h).elim⟩
    obtain rfl := List.mem_singleton.1 hc
    exact ⟨itemsOf_wellFormed hlast.bar hlast.sound,
      itemsOf_startsFlush hlast.bar hlast.sound (dropLeadingBlanks_head last)⟩
  | ts :: next :: rest, h => by
    obtain ⟨heach, hends⟩ := casesBehind_wellFormed fun t ht => h t (List.mem_cons_of_mem ts ht)
    have hsegment := (h ts List.mem_cons_self).dropLeadingBlanks.dropTrailingBlanks
    -- dropping blanks behind does not bring blanks to the front
    have hhead : ∀ t ∈ (dropTrailingBlanks (dropLeadingBlanks ts)).head?, isBlankToken t = false :=
      fun t ht => dropLeadingBlanks_head ts t (mem_head?_of_isPrefix (dropTrailingBlanks_isPrefix _) ht)
    constructor
    · intro case hc
      rcases List.mem_cons.1 hc with rfl | hc
      · exact ⟨itemsOf_wellFormed hsegment.bar hsegment.sound,
          itemsOf_startsFlush hsegment.bar hsegment.sound hhead⟩
      · exact heach case hc
    · intro case hc
      rw [casesBehind, List.dropLast_cons_of_ne_nil casesBehind_ne_nil] at hc
      · rcases List.mem_cons.1 hc with rfl | hc
        · exact itemsOf_endsFlush hsegment.bar hsegment.sound (dropTrailingBlanks_getLast _)
        · exact hends case hc
      · exact fun h => by cases h

theorem casesOf_wellFormed {segments : List (List Token)} (hne : segments ≠ [])
    (h : ∀ ts ∈ segments, Segment ts) : WellFormed (casesOf segments) := by
  rcases segments with _ | ⟨first, _ | ⟨next, rest⟩⟩
  · exact absurd rfl hne
  · have hfirst := h first List.mem_cons_self
    refine ⟨List.cons_ne_nil _ _, fun case hc => ?_, fun _ h => (List.not_mem_nil h).elim,
      fun _ h => (List.not_mem_nil h).elim⟩
    obtain rfl := List.mem_singleton.1 hc
    exact itemsOf_wellFormed hfirst.bar hfirst.sound
  · have hfirst := (h first List.mem_cons_self).dropTrailingBlanks
    obtain ⟨heach, hends⟩ := casesBehind_wellFormed fun t ht => h t (List.mem_cons_of_mem first ht)
    refine ⟨List.cons_ne_nil _ _, fun case hc => ?_, fun case hc => (heach case hc).2,
      fun case hc => ?_⟩
    · rcases List.mem_cons.1 hc with rfl | hc
      · exact itemsOf_wellFormed hfirst.bar hfirst.sound
      · exact (heach case hc).1
    · rw [casesOf, List.dropLast_cons_of_ne_nil casesBehind_ne_nil] at hc
      · rcases List.mem_cons.1 hc with rfl | hc
        · exact itemsOf_endsFlush hfirst.bar hfirst.sound (dropTrailingBlanks_getLast first)
        · exact hends case hc
      · exact fun h => by cases h

theorem parse_wellFormed {message : List Char} {cases : List Case}
    (h : parse message = .ok cases) : WellFormed cases := by
  obtain ⟨ts, hts, rfl⟩ := parse_eq_ok_iff.1 h
  exact casesOf_wellFormed (splitBars_ne_nil ts) (splitBars_segments hts.sound)

end MessageCatalog.Message
