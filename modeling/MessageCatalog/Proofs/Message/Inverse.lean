/-
Reading what is written. The tokens of rendered cases are those of their parts, with a bar between
the cases; gathered again they are the cases that were rendered, up to the places of the items.
-/
import MessageCatalog.Proofs.Message.Sound

namespace MessageCatalog.Message

open MessageCatalog.Text

/-! ## Places -/

/-- The item without its place. -/
def Item.unplaced (item : Item) : Item := ⟨item.part, 0⟩

def Token.unplaced : Token → Token
  | .char c _ => .char c 0
  | .item i => .item i.unplaced
  | .bar => .bar

theorem consChar_unplaced (c : Char) (offset : Nat) (case : Case) :
    (consChar c offset case).map Item.unplaced = consChar c 0 (case.map Item.unplaced) := by
  rcases case with _ | ⟨⟨part, place⟩, rest⟩
  · rfl
  · cases part <;> rfl

theorem itemsOf_unplaced (ts : List Token) :
    itemsOf (ts.map Token.unplaced) = (itemsOf ts).map Item.unplaced := by
  induction ts with
  | nil => rfl
  | cons t ts ih =>
    cases t with
    | char c offset =>
      show consChar c 0 (itemsOf (ts.map Token.unplaced)) = _
      rw [ih, ← consChar_unplaced c offset]
      rfl
    | item item =>
      show item.unplaced :: itemsOf (ts.map Token.unplaced) = _
      rw [ih]
      rfl
    | bar => exact ih

theorem isBlankToken_unplaced (t : Token) : isBlankToken t.unplaced = isBlankToken t := by
  cases t <;> rfl

theorem isBlankToken_comp : isBlankToken ∘ Token.unplaced = isBlankToken :=
  funext isBlankToken_unplaced

theorem dropLeadingBlanks_unplaced (ts : List Token) :
    dropLeadingBlanks (ts.map Token.unplaced) = (dropLeadingBlanks ts).map Token.unplaced := by
  rw [dropLeadingBlanks, List.dropWhile_map, isBlankToken_comp, dropLeadingBlanks]

theorem dropTrailingBlanks_unplaced (ts : List Token) :
    dropTrailingBlanks (ts.map Token.unplaced) = (dropTrailingBlanks ts).map Token.unplaced := by
  rw [dropTrailingBlanks, ← List.map_reverse, List.dropWhile_map, isBlankToken_comp,
    ← List.map_reverse, dropTrailingBlanks]

theorem unplaced_eq_bar {t : Token} : t.unplaced = .bar ↔ t = .bar := by
  cases t <;> simp [Token.unplaced]

theorem splitBars_unplaced (ts : List Token) :
    splitBars (ts.map Token.unplaced) = (splitBars ts).map (·.map Token.unplaced) := by
  induction ts with
  | nil => rfl
  | cons t ts ih =>
    by_cases ht : t = .bar
    · subst ht
      exact congrArg ([] :: ·) ih
    · obtain ⟨first, others, hs, hcons⟩ := splitBars_cons ht ts
      obtain ⟨first', others', hs', hcons'⟩ :=
        splitBars_cons (mt unplaced_eq_bar.1 ht) (ts.map Token.unplaced)
      rw [hs, hs'] at ih
      obtain ⟨hfirst, hothers⟩ := List.cons.inj ih
      rw [List.map_cons, hcons, hcons', hfirst, hothers]
      rfl

/-- A change of tokens that their items follow and that keeps blanks in their place. -/
structure Rewrites (f : List Token → List Token) (g : Case → Case) : Prop where
  items : ∀ ts, itemsOf (f ts) = g (itemsOf ts)
  leading : ∀ ts, dropLeadingBlanks (f ts) = f (dropLeadingBlanks ts)
  trailing : ∀ ts, dropTrailingBlanks (f ts) = f (dropTrailingBlanks ts)

section

variable {f : List Token → List Token} {g : Case → Case}

theorem Rewrites.casesBehind (h : Rewrites f g) : ∀ segments : List (List Token),
    casesBehind (segments.map f) = (casesBehind segments).map g
  | [] => rfl
  | [last] => by
    show [itemsOf (dropLeadingBlanks (f last))] = _
    rw [h.leading, h.items]
    rfl
  | ts :: next :: rest => by
    show itemsOf (dropTrailingBlanks (dropLeadingBlanks (f ts))) ::
      Message.casesBehind ((next :: rest).map f) = _
    rw [h.leading, h.trailing, h.items, h.casesBehind (next :: rest)]
    rfl

theorem Rewrites.casesOf (h : Rewrites f g) : ∀ segments : List (List Token),
    casesOf (segments.map f) = (casesOf segments).map g
  | [] => rfl
  | [only] => by
    show [itemsOf (f only)] = _
    rw [h.items]
    rfl
  | first :: next :: rest => by
    show itemsOf (dropTrailingBlanks (f first)) :: Message.casesBehind ((next :: rest).map f) = _
    rw [h.trailing, h.items, h.casesBehind (next :: rest)]
    rfl

end

theorem rewrites_unplaced : Rewrites (·.map Token.unplaced) (·.map Item.unplaced) :=
  ⟨itemsOf_unplaced, dropLeadingBlanks_unplaced, dropTrailingBlanks_unplaced⟩

/-- Parsing up to the places of the items. -/
theorem casesOf_splitBars_unplaced (ts : List Token) :
    (casesOf (splitBars ts)).map (·.map Item.unplaced) =
      casesOf (splitBars (ts.map Token.unplaced)) := by
  rw [splitBars_unplaced, rewrites_unplaced.casesOf]

/-! ## Tokens of rendered cases -/

/-- At any place, the tokens of a text are these up to their places. -/
def Reads (cs : List Char) (ts : List Token) : Prop :=
  ∀ pos, ∃ ts', Tokenized pos cs ts' ∧ ts'.map Token.unplaced = ts

theorem reads_nil : Reads [] [] := fun pos => ⟨[], .nil pos, rfl⟩

theorem reads_bar {cs : List Char} {ts : List Token} (h : Reads cs ts) :
    Reads ('|' :: cs) (.bar :: ts) := by
  intro pos
  obtain ⟨ts', hts, rfl⟩ := h (pos + 1)
  exact ⟨.bar :: ts', .bar hts, rfl⟩

theorem reads_char {c : Char} {cs : List Char} {ts : List Token} (hbrace : c ≠ '\x7b')
    (hbar : c ≠ '|') (hlink : c = '@' → linkHead? cs = none) (h : Reads cs ts) :
    Reads (c :: cs) (.char c 0 :: ts) := by
  intro pos
  obtain ⟨ts', hts, rfl⟩ := h (pos + c.utf8Size)
  exact ⟨.char c pos :: ts', .char hbrace hbar hlink hts, rfl⟩

theorem reads_placeholder {body cs : List Char} {ts : List Token} {part : Part}
    (hpart : ∀ opening, placeholder opening body = .ok (part, cs)) (h : Reads cs ts) :
    Reads ('\x7b' :: body) (.item ⟨part, 0⟩ :: ts) := by
  intro pos
  obtain ⟨ts', hts, rfl⟩ := h (pos + byteLength ('\x7b' :: body) - byteLength cs)
  exact ⟨.item ⟨part, pos⟩ :: ts', .placeholder (hpart pos) hts, rfl⟩

theorem reads_link {body key cs : List Char} {modifier : Option (List Char)} {ts : List Token}
    {part : Part} (hhead : linkHead? body = some (modifier, key))
    (hpart : ∀ opening, linked opening modifier key = .ok (part, cs)) (h : Reads cs ts) :
    Reads ('@' :: body) (.item ⟨part, 0⟩ :: ts) := by
  intro pos
  obtain ⟨ts', hts, rfl⟩ := h (pos + byteLength ('@' :: body) - byteLength cs)
  exact ⟨.item ⟨part, pos⟩ :: ts', .link hhead (hpart pos) hts, rfl⟩

/-- The tokens of a part. -/
def Part.tokens : Part → List Token
  | .text s => s.map (.char · 0)
  | part => [.item ⟨part, 0⟩]

def caseTokens (case : Case) : List Token := case.flatMap (·.part.tokens)

/-- A text that no linked message in front of it reaches into. -/
def Stops (cs : List Char) : Prop := ∀ c ∈ cs.head?, c = '\x7b' ∨ c = '|' ∨ c = '@'

theorem linkHead?_append {cs rest : List Char} (h : linkHead? cs = none) (hrest : Stops rest) :
    linkHead? (cs ++ rest) = none := by
  rw [linkHead?_eq_none] at h ⊢
  rintro (⟨r, hcs⟩ | ⟨letters, r, hcs, hne, halpha⟩)
  · cases cs with
    | nil =>
      obtain rfl : rest = ':' :: r := (List.cons.inj hcs).2
      exact absurd (hrest ':' rfl) (by decide)
    | cons c cs =>
      refine h (.inl ⟨cs, ?_⟩)
      rw [(List.cons.inj (List.cons.inj hcs).2).1]
  · cases cs with
    | nil =>
      obtain rfl : rest = '.' :: (letters ++ ':' :: r) := (List.cons.inj hcs).2
      exact absurd (hrest '.' rfl) (by decide)
    | cons c cs =>
      obtain ⟨rfl, htail⟩ := List.cons.inj (List.cons.inj hcs).2
      -- a head that ends in `cs` is excluded by `h`, and none goes on into what `rest` starts with
      rcases List.append_eq_append_iff.1 htail with ⟨front, rfl, rfl⟩ | ⟨back, rfl, hback⟩
      · cases front with
        | nil => exact absurd (hrest ':' rfl) (by decide)
        | cons d front =>
          have hd := halpha d (List.mem_append_right _ List.mem_cons_self)
          rcases hrest d rfl with rfl | rfl | rfl <;> exact absurd hd (by decide)
      · cases back with
        | nil =>
          obtain rfl : ':' :: r = rest := hback
          exact absurd (hrest ':' rfl) (by decide)
        | cons d back =>
          obtain ⟨rfl, -⟩ := List.cons.inj hback
          exact h (.inr ⟨letters, back, rfl, hne, halpha⟩)

theorem reads_text {s rest : List Char} {ts : List Token} (hs : (Part.text s).WellFormed)
    (hrest : Stops rest) (h : Reads rest ts) :
    Reads (s ++ rest) ((Part.text s).tokens ++ ts) := by
  obtain ⟨-, hbrace, hbar, hlink⟩ := hs
  induction s with
  | nil => exact h
  | cons c s ih =>
    refine reads_char (fun he => hbrace (he ▸ List.mem_cons_self))
      (fun he => hbar (he ▸ List.mem_cons_self)) ?_
      (ih (fun hm => hbrace (List.mem_cons_of_mem _ hm)) (fun hm => hbar (List.mem_cons_of_mem _ hm))
        fun cs hcs => hlink cs (hcs.trans (List.suffix_cons c s)))
    rintro rfl
    exact linkHead?_append (linkHead?_eq_none.2 (hlink _ List.suffix_rfl)) hrest

theorem reads_part {part : Part} (hpart : part.WellFormed) {rest : List Char} {ts : List Token}
    (hrest : part.isText = true → Stops rest) (h : Reads rest ts) :
    Reads (part.render ++ rest) (part.tokens ++ ts) := by
  cases part with
  | text s => exact reads_text hpart (hrest rfl) h
  | named name =>
    rw [Part.render, List.cons_append, List.append_assoc]
    exact reads_placeholder (fun opening => placeholder_named hpart opening rest) h
  | list index =>
    rw [Part.render, List.cons_append, List.append_assoc]
    exact reads_placeholder (fun opening => placeholder_list hpart opening rest) h
  | literal s =>
    rw [Part.render, List.cons_append, List.cons_append, List.append_assoc]
    exact reads_placeholder (fun opening => placeholder_literal hpart opening rest) h
  | linked key modifier =>
    obtain ⟨hne, htrim, hclose, hletters⟩ := hpart
    cases modifier with
    | none =>
      have hrender : (Part.linked key none).render ++ rest =
          '@' :: ':' :: '(' :: (key ++ ')' :: rest) := by simp [Part.render]
      rw [hrender]
      exact reads_link rfl (fun opening => linked_parens hne htrim hclose opening none rest) h
    | some letters =>
      have hrender : (Part.linked key (some letters)).render ++ rest =
          '@' :: '.' :: (letters ++ ':' :: '(' :: (key ++ ')' :: rest)) := by simp [Part.render]
      obtain ⟨hlne, halpha⟩ := hletters letters rfl
      rw [hrender]
      exact reads_link (linkHead?_letters hlne halpha _)
        (fun opening => linked_parens hne htrim hclose opening (some letters) rest) h

theorem stops_render {part : Part} (h : part.isText = false) (rest : List Char) :
    Stops (part.render ++ rest) := by
  intro c hc
  cases part with
  | text s => cases h
  | linked key modifier => cases modifier <;> cases hc <;> exact .inr (.inr rfl)
  | named name => cases hc; exact .inl rfl
  | list index => cases hc; exact .inl rfl
  | literal s => cases hc; exact .inl rfl

theorem reads_case {case : Case} (hcase : case.WellFormed) {rest : List Char} {ts : List Token}
    (hrest : Stops rest) (h : Reads rest ts) :
    Reads (renderCase case ++ rest) (caseTokens case ++ ts) := by
  obtain ⟨hparts, hapart⟩ := hcase
  induction case with
  | nil => exact h
  | cons item items ih =>
    have hitems := ih (fun i hi => hparts i (List.mem_cons_of_mem _ hi)) hapart.tail
    rw [renderCase, caseTokens, List.flatMap_cons, List.flatMap_cons, List.append_assoc,
      List.append_assoc]
    refine reads_part (hparts item List.mem_cons_self) (fun htext => ?_) hitems
    cases items with
    | nil => exact hrest
    | cons next items =>
      -- two texts never stand next to each other, so a text is stopped by what follows it
      have hnext : next.part.isText = false :=
        Bool.eq_false_iff.2 fun ht => (List.isChain_cons_cons.1 hapart).1 ⟨htext, ht⟩
      rw [List.flatMap_cons, List.append_assoc]
      exact stops_render hnext _

theorem reads_render : ∀ {cases : List Case}, (∀ case ∈ cases, Case.WellFormed case) →
    Reads (render cases) ([.bar].intercalate (cases.map caseTokens))
  | [], _ => reads_nil
  | [case], h => by
    have hend : Stops [] := fun c hc => by cases hc
    have hcase := reads_case (h case List.mem_cons_self) hend reads_nil
    rw [List.append_nil, List.append_nil] at hcase
    rwa [render, List.map_singleton, List.map_singleton, List.intercalate_singleton,
      List.intercalate_singleton]
  | case :: next :: cases, h => by
    have hothers := reads_render fun c hc => h c (List.mem_cons_of_mem case hc)
    have hbar : Stops ('|' :: render (next :: cases)) := fun c hc => by cases hc; exact .inr (.inl rfl)
    have hcase := reads_case (h case List.mem_cons_self) hbar (reads_bar hothers)
    rw [render, List.map_cons, List.map_cons, List.map_cons, List.map_cons,
      List.intercalate_cons_cons, List.intercalate_cons_cons, List.append_assoc, List.append_assoc]
    exact hcase

/-! ## Cases of the tokens -/

theorem splitBars_append_of_not_mem {l ts first : List Token} {others : List (List Token)}
    (h : .bar ∉ l) (hs : splitBars ts = first :: others) :
    splitBars (l ++ ts) = (l ++ first) :: others := by
  induction l with
  | nil => exact hs
  | cons t l ih =>
    obtain ⟨ht, hl⟩ := not_or.1 (mt List.mem_cons.2 h)
    obtain ⟨first', others', hs', hcons⟩ := splitBars_cons (Ne.symm ht) (l ++ ts)
    obtain ⟨rfl, rfl⟩ := List.cons.inj (hs'.symm.trans (ih hl))
    exact hcons

theorem splitBars_append {ts : List Token} (h : .bar ∉ ts) (rest : List Token) :
    splitBars (ts ++ .bar :: rest) = ts :: splitBars rest := by
  have hrest : splitBars (.bar :: rest) = [] :: splitBars rest := rfl
  rw [splitBars_append_of_not_mem h hrest, List.append_nil]

theorem splitBars_eq_self {ts : List Token} (h : .bar ∉ ts) : splitBars ts = [ts] := by
  have hnil : splitBars [] = [[]] := rfl
  simpa using splitBars_append_of_not_mem h hnil

theorem splitBars_intercalate : ∀ {segments : List (List Token)}, segments ≠ [] →
    (∀ ts ∈ segments, .bar ∉ ts) → splitBars ([.bar].intercalate segments) = segments
  | [], h, _ => absurd rfl h
  | [ts], _, h => by
    rw [List.intercalate_singleton, splitBars_eq_self (h ts List.mem_cons_self)]
  | ts :: next :: rest, _, h => by
    rw [List.intercalate_cons_cons, List.append_assoc]
    have hothers := splitBars_intercalate (List.cons_ne_nil next rest)
      fun t ht => h t (List.mem_cons_of_mem _ ht)
    exact (splitBars_append (h ts List.mem_cons_self) _).trans (congrArg (ts :: ·) hothers)

theorem Part.tokens_eq {part : Part} (h : part.isText = false) : part.tokens = [.item ⟨part, 0⟩] := by
  cases part with
  | text s => cases h
  | _ => rfl

theorem bar_not_mem_caseTokens (case : Case) : .bar ∉ caseTokens case := by
  intro h
  obtain ⟨item, -, hitem⟩ := List.mem_flatMap.1 h
  cases ht : item.part.isText with
  | false =>
    rw [Part.tokens_eq ht] at hitem
    cases List.mem_singleton.1 hitem
  | true =>
    cases hp : item.part with
    | text s =>
      rw [hp] at hitem
      obtain ⟨c, -, hc⟩ := List.mem_map.1 hitem
      cases hc
    | _ => rw [hp] at ht; cases ht

/-- Puts a text in front of the items of a case, joining the text that it starts. -/
def consText (s : List Char) : Case → Case
  | ⟨.text t, _⟩ :: rest => ⟨.text (s ++ t), 0⟩ :: rest
  | items => ⟨.text s, 0⟩ :: items

theorem itemsOf_chars {s : List Char} (hne : s ≠ []) (ts : List Token) :
    itemsOf (s.map (.char · 0) ++ ts) = consText s (itemsOf ts) := by
  induction s with
  | nil => exact absurd rfl hne
  | cons c s ih =>
    show consChar c 0 (itemsOf (s.map (.char · 0) ++ ts)) = _
    by_cases hs : s = []
    · subst hs
      show consChar c 0 (itemsOf ts) = _
      rcases itemsOf ts with _ | ⟨⟨part, offset⟩, rest⟩
      · rfl
      · cases part <;> rfl
    · rw [ih hs]
      rcases itemsOf ts with _ | ⟨⟨part, offset⟩, rest⟩
      · rfl
      · cases part <;> rfl

/-- The characters of a text are gathered into it, if no text follows. -/
theorem itemsOf_text {s : List Char} (hne : s ≠ []) {ts : List Token}
    (h : ∀ item ∈ (itemsOf ts).head?, item.part.isText = false) :
    itemsOf (s.map (.char · 0) ++ ts) = ⟨.text s, 0⟩ :: itemsOf ts := by
  rw [itemsOf_chars hne]
  rcases hts : itemsOf ts with _ | ⟨⟨part, offset⟩, rest⟩
  · rfl
  · rw [hts] at h
    cases part with
    | text t => cases h _ rfl
    | _ => rfl

/-- The tokens of the parts are gathered into the parts. -/
theorem itemsOf_caseTokens {case : Case} (h : case.WellFormed) :
    itemsOf (caseTokens case) = case.map Item.unplaced := by
  obtain ⟨hparts, hapart⟩ := h
  induction case with
  | nil => rfl
  | cons item items ih =>
    have hitems := ih (fun i hi => hparts i (List.mem_cons_of_mem _ hi)) hapart.tail
    cases hp : item.part with
    | text s =>
      have hwell := hparts item List.mem_cons_self
      rw [hp] at hwell
      have hnext : ∀ i ∈ (itemsOf (caseTokens items)).head?, i.part.isText = false := by
        rw [hitems]
        cases items with
        | nil => exact fun i hi => by cases hi
        | cons next items =>
          intro i hi
          cases hi
          have hn := (List.isChain_cons_cons.1 hapart).1
          rw [hp] at hn
          exact Bool.eq_false_iff.2 fun ht => hn ⟨rfl, ht⟩
      have htext := itemsOf_text hwell.1 hnext
      rw [hitems] at htext
      rw [List.map_cons, Item.unplaced, hp, ← htext, caseTokens, List.flatMap_cons, hp]
      rfl
    | _ =>
      rw [List.map_cons, Item.unplaced, ← hitems, caseTokens, List.flatMap_cons, hp]
      rfl

theorem dropLeadingBlanks_caseTokens {case : Case} (h : case.WellFormed) (hflush : case.StartsFlush) :
    dropLeadingBlanks (caseTokens case) = caseTokens case := by
  cases case with
  | nil => rfl
  | cons item items =>
    have hwell := h.parts item List.mem_cons_self
    have hflush := hflush item rfl
    rw [caseTokens, List.flatMap_cons]
    cases hp : item.part with
    | text s =>
      rw [hp] at hwell
      obtain ⟨c, cs, rfl⟩ := List.exists_cons_of_ne_nil hwell.1
      refine List.dropWhile_cons_of_neg ?_
      rw [isBlankToken, hflush _ hp c rfl]
      exact Bool.false_ne_true
    | _ => exact List.dropWhile_cons_of_neg Bool.false_ne_true

theorem dropTrailingBlanks_caseTokens {case : Case} (h : case.WellFormed) (hflush : case.EndsFlush) :
    dropTrailingBlanks (caseTokens case) = caseTokens case := by
  rcases List.eq_nil_or_concat' case with rfl | ⟨items, item, rfl⟩
  · rfl
  · have hwell := h.parts item (List.mem_append_right _ List.mem_cons_self)
    have hflush := hflush item List.getLast?_concat
    rw [caseTokens, List.flatMap_append, List.flatMap_singleton]
    cases hp : item.part with
    | text s =>
      rw [hp] at hwell
      rcases List.eq_nil_or_concat' s with rfl | ⟨cs, c, rfl⟩
      · exact absurd rfl hwell.1
      · rw [Part.tokens, List.map_append, List.map_singleton, ← List.append_assoc]
        refine List.rdropWhile_concat_neg _ _ _ ?_
        rw [isBlankToken, hflush _ hp c List.getLast?_concat]
        exact Bool.false_ne_true
    | _ => exact List.rdropWhile_concat_neg _ _ _ Bool.false_ne_true

theorem casesBehind_caseTokens : ∀ {cases : List Case}, (∀ case ∈ cases, Case.WellFormed case) →
    (∀ case ∈ cases, Case.StartsFlush case) → (∀ case ∈ cases.dropLast, Case.EndsFlush case) →
    casesBehind (cases.map caseTokens) = cases.map (·.map Item.unplaced)
  | [], _, _, _ => rfl
  | [case], hcases, hstarts, _ => by
    have hcase := hcases case List.mem_cons_self
    show [itemsOf (dropLeadingBlanks (caseTokens case))] = _
    rw [dropLeadingBlanks_caseTokens hcase (hstarts case List.mem_cons_self),
      itemsOf_caseTokens hcase]
    rfl
  | case :: next :: cases, hcases, hstarts, hends => by
    have hcase := hcases case List.mem_cons_self
    show itemsOf (dropTrailingBlanks (dropLeadingBlanks (caseTokens case))) ::
      casesBehind ((next :: cases).map caseTokens) = _
    rw [dropLeadingBlanks_caseTokens hcase (hstarts case List.mem_cons_self),
      dropTrailingBlanks_caseTokens hcase (hends case List.mem_cons_self),
      itemsOf_caseTokens hcase,
      casesBehind_caseTokens (fun c hc => hcases c (List.mem_cons_of_mem _ hc))
        (fun c hc => hstarts c (List.mem_cons_of_mem _ hc))
        (fun c hc => hends c (List.mem_cons_of_mem _ hc))]
    rfl

theorem casesOf_caseTokens {cases : List Case} (h : WellFormed cases) :
    casesOf (cases.map caseTokens) = cases.map (·.map Item.unplaced) := by
  obtain ⟨hne, hcases, hstarts, hends⟩ := h
  cases cases with
  | nil => exact absurd rfl hne
  | cons case cases =>
    have hcase := hcases case List.mem_cons_self
    cases cases with
    | nil =>
      show [itemsOf (caseTokens case)] = _
      rw [itemsOf_caseTokens hcase]
      rfl
    | cons next cases =>
      show itemsOf (dropTrailingBlanks (caseTokens case)) ::
        casesBehind ((next :: cases).map caseTokens) = _
      rw [dropTrailingBlanks_caseTokens hcase (hends case List.mem_cons_self),
        itemsOf_caseTokens hcase,
        casesBehind_caseTokens (fun c hc => hcases c (List.mem_cons_of_mem _ hc)) hstarts
          (fun c hc => hends c (List.mem_cons_of_mem _ hc))]
      rfl

/-- Parsing rendered cases gives the cases, up to the places of their items. -/
theorem parse_render {cases : List Case} (h : WellFormed cases) :
    ∃ cases', parse (render cases) = .ok cases' ∧
      cases'.map (·.map Item.unplaced) = cases.map (·.map Item.unplaced) := by
  obtain ⟨ts, hts, hunplaced⟩ := reads_render h.each 0
  refine ⟨_, parse_eq_ok_iff.2 ⟨ts, hts, rfl⟩, ?_⟩
  have hbars : ∀ segment ∈ cases.map caseTokens, .bar ∉ segment := by
    intro segment hsegment
    obtain ⟨case, -, rfl⟩ := List.mem_map.1 hsegment
    exact bar_not_mem_caseTokens case
  rw [casesOf_splitBars_unplaced, hunplaced,
    splitBars_intercalate (by simpa using h.nonempty) hbars, casesOf_caseTokens h]

/--
The parser inverts the printer: what it gives can be written, and what can be written is read back
from what is written, up to the places of the items.
-/
theorem parse_inverts_render :
    (∀ message cases, parse message = .ok cases → WellFormed cases) ∧
      ∀ cases, WellFormed cases → ∃ cases', parse (render cases) = .ok cases' ∧
        cases'.map (·.map Item.part) = cases.map (·.map Item.part) := by
  refine ⟨fun _ _ h => parse_wellFormed h, fun cases h => ?_⟩
  obtain ⟨cases', hparse, hcases⟩ := parse_render h
  refine ⟨cases', hparse, ?_⟩
  have hparts := congrArg (List.map (List.map Item.part)) hcases
  simpa [List.map_map, Function.comp_def, Item.unplaced] using hparts

/-- A bare key, a sentence behind it, an escaped quote and blanks around a bar. -/
theorem parse_inverts_render_link :
    ∃ cases', parse "@:(a.b). \x7b'it\\'s'\x7d|\x7bn\x7d \x7b0\x7d".toList = .ok cases' ∧
      cases'.map (·.map Item.part) =
        [[.linked "a.b".toList none, .text ". ".toList, .literal "it's".toList],
          [.named ['n'], .text [' '], .list 0]] := by
  have hparse : parse "@:a.b. \x7b'it\\'s'\x7d | \x7bn\x7d \x7b0\x7d".toList = .ok
      [[⟨.linked "a.b".toList none, 0⟩, ⟨.text ". ".toList, 5⟩, ⟨.literal "it's".toList, 7⟩],
        [⟨.named ['n'], 19⟩, ⟨.text [' '], 22⟩, ⟨.list 0, 23⟩]] := by
    decide +kernel
  exact parse_inverts_render.2 _ (parse_inverts_render.1 _ _ hparse)

end MessageCatalog.Message
