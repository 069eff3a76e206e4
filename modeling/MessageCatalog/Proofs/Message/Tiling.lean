/-
The items of a parsed message tile it. Each stands at its offset, written as a text that its part can
be read from; the items of a case stand one behind another; and between two cases there is one bar,
with nothing but blanks around it. So no text of the message is lost, and none is read twice.
-/
import MessageCatalog.Proofs.Message.Sound
import MessageCatalog.Proofs.Text.Position

namespace MessageCatalog.Message

open MessageCatalog.Text

/-! ## Tiles -/

/-- What stands between `@` and the colon of a link. -/
def modifierText : Option (List Char) → List Char
  | none => []
  | some modifier => '.' :: modifier

/-- The texts that a part can be read from. -/
inductive Part.Spelled : Part → List Char → Prop where
  | text {s : List Char} (nonempty : s ≠ []) : Spelled (.text s) s
  | named {name before after : List Char} (isName : isName name = true)
    (blankBefore : ∀ c ∈ before, isBlank c = true) (blankAfter : ∀ c ∈ after, isBlank c = true) :
    Spelled (.named name) ('\x7b' :: (before ++ name ++ after ++ ['\x7d']))
  | list {digits before after : List Char} (isIndex : ∀ c ∈ digits, isAsciiDigit c = true)
    (blankBefore : ∀ c ∈ before, isBlank c = true) (blankAfter : ∀ c ∈ after, isBlank c = true) :
    Spelled (.list (digitsValue 10 digits)) ('\x7b' :: (before ++ digits ++ after ++ ['\x7d']))
  | literal {s quoted before after : List Char}
    (unquoted : quotedLiteral (quoted ++ ['\'']) = some (s, []))
    (blankBefore : ∀ c ∈ before, isBlank c = true) (blankAfter : ∀ c ∈ after, isBlank c = true) :
    Spelled (.literal s) ('\x7b' :: (before ++ '\'' :: (quoted ++ '\'' :: (after ++ ['\x7d']))))
  | bareLink (key : List Char) (modifier : Option (List Char)) :
    Spelled (.linked key modifier) ('@' :: (modifierText modifier ++ ':' :: key))
  | link {key before after : List Char} (modifier : Option (List Char))
    (blankBefore : ∀ c ∈ before, isBlank c = true) (blankAfter : ∀ c ∈ after, isBlank c = true) :
    Spelled (.linked key modifier)
      ('@' :: (modifierText modifier ++ ':' :: '(' :: (before ++ key ++ after ++ [')'])))

/-- An item with the byte behind it. -/
structure Tile where
  item : Item
  stop : Nat

/-- The bytes of a tile in a message hold a text that its part can be read from. -/
def Tile.Fills (t : Tile) (message : List Char) : Prop :=
  t.item.offset < t.stop ∧
    ∃ written, slice? message t.item.offset t.stop = some written ∧ t.item.part.Spelled written

/-- Tiles that stand one behind another from a byte on, and the text that they cover. -/
inductive Adjacent : Nat → List Tile → List Char → Prop where
  | nil (pos : Nat) : Adjacent pos [] []
  | cons {pos : Nat} {part : Part} {written text : List Char} {tiles : List Tile}
    (spelled : part.Spelled written) (behind : Adjacent (pos + byteLength written) tiles text) :
    Adjacent pos (⟨⟨part, pos⟩, pos + byteLength written⟩ :: tiles) (written ++ text)

/-- Cases from a byte on: between two of them a bar, and blanks around the bar. -/
inductive Tiled : Nat → List (List Tile) → List Char → Prop where
  | last {pos : Nat} {case : List Tile} {text : List Char} (items : Adjacent pos case text) :
    Tiled pos [case] text
  | bar {pos : Nat} {case : List Tile} {text before after rest : List Char}
    {others : List (List Tile)} (items : Adjacent pos case text)
    (blankBefore : ∀ c ∈ before, isBlank c = true) (blankAfter : ∀ c ∈ after, isBlank c = true)
    (behind : Tiled (pos + byteLength (text ++ before ++ '|' :: after)) others rest) :
    Tiled pos (case :: others) (text ++ before ++ '|' :: after ++ rest)

/-! ## What an item is read from -/

/-- What is left of a text behind the blanks at its start. -/
theorem blanks_before {cs text : List Char} (h : cs.dropWhile isBlank = text) :
    ∃ before, cs = before ++ text ∧ ∀ c ∈ before, isBlank c = true :=
  ⟨cs.takeWhile isBlank, by rw [← h, List.takeWhile_append_dropWhile],
    List.all_eq_true.1 List.all_takeWhile⟩

/-- A trimmed text has lost nothing but blanks. -/
theorem trim_spelled (cs : List Char) : ∃ before after, cs = before ++ trim cs ++ after ∧
    (∀ c ∈ before, isBlank c = true) ∧ ∀ c ∈ after, isBlank c = true := by
  obtain ⟨before, hcs, hbefore⟩ := @blanks_before cs (trimStart cs) rfl
  obtain ⟨after, hreverse, hafter⟩ := @blanks_before (trimStart cs).reverse _ rfl
  refine ⟨before, after.reverse, ?_, hbefore, fun c hc => hafter c (List.mem_reverse.1 hc)⟩
  have hstart : trimStart cs = trim cs ++ after.reverse := by
    rw [trim, trimEnd, ← List.reverse_append, ← hreverse, List.reverse_reverse]
  rw [List.append_assoc, ← hstart]
  exact hcs

/-- A literal is read up to its closing quote, whatever stands behind it. -/
theorem quotedLiteral_spelled {cs s rest : List Char} (h : quotedLiteral cs = some (s, rest)) :
    ∃ quoted, cs = quoted ++ '\'' :: rest ∧ quotedLiteral (quoted ++ ['\'']) = some (s, []) := by
  induction cs using quotedLiteral.induct generalizing s with
  | case1 => cases h
  | case2 r =>
    cases h
    exact ⟨[], rfl, rfl⟩
  | case3 => cases h
  | case4 r ih =>
    obtain ⟨⟨s', r'⟩, hr, he⟩ := Option.map_eq_some_iff.1 h
    obtain ⟨rfl, rfl⟩ := Prod.mk.inj he
    obtain ⟨quoted, rfl, hquoted⟩ := ih hr
    refine ⟨'\\' :: '\'' :: quoted, rfl, ?_⟩
    rw [List.cons_append, List.cons_append, quotedLiteral, hquoted]
    rfl
  | case5 r ih =>
    obtain ⟨⟨s', r'⟩, hr, he⟩ := Option.map_eq_some_iff.1 h
    obtain ⟨rfl, rfl⟩ := Prod.mk.inj he
    obtain ⟨quoted, rfl, hquoted⟩ := ih hr
    refine ⟨'\\' :: '\\' :: quoted, rfl, ?_⟩
    rw [List.cons_append, List.cons_append, quotedLiteral, hquoted]
    rfl
  | case6 c r hquote hline hescaped hslash ih =>
    rw [quotedLiteral] at h
    · obtain ⟨⟨s', r'⟩, hr, he⟩ := Option.map_eq_some_iff.1 h
      obtain ⟨rfl, hrest⟩ := Prod.mk.inj he
      obtain ⟨quoted, rfl, hquoted⟩ := ih (hrest ▸ hr)
      refine ⟨c :: quoted, rfl, ?_⟩
      -- what follows a backslash is the same character in both texts
      have hhead : ∀ {d : Char} {t : List Char}, quoted ++ ['\''] = d :: t →
          ∃ t', quoted ++ '\'' :: rest = d :: t' := by
        intro d t ht
        cases quoted with
        | nil =>
          cases ht
          exact ⟨rest, rfl⟩
        | cons d' quoted =>
          cases ht
          exact ⟨quoted ++ '\'' :: rest, rfl⟩
      rw [List.cons_append, quotedLiteral, hquoted]
      · rfl
      · exact hquote
      · exact hline
      · intro t hc ht
        obtain ⟨t', ht'⟩ := hhead ht
        exact hescaped t' hc ht'
      · intro t hc ht
        obtain ⟨t', ht'⟩ := hhead ht
        exact hslash t' hc ht'
    all_goals assumption

theorem placeholderPart_spelled {content before after : List Char} {part : Part}
    (h : placeholderPart content = .ok part) (hbefore : ∀ c ∈ before, isBlank c = true)
    (hafter : ∀ c ∈ after, isBlank c = true) :
    part.Spelled ('\x7b' :: (before ++ content ++ after ++ ['\x7d'])) := by
  unfold placeholderPart at h
  split at h
  · cases h
  · split at h
    · rename_i hdigits
      simp only at h
      split at h
      · cases h
        exact .list (List.all_eq_true.1 hdigits) hbefore hafter
      · cases h
    · split at h
      · cases h
        exact .named ‹_› hbefore hafter
      · cases h

/-- A placeholder ends with its closing brace. -/
theorem placeholder_spelled {opening : Nat} {cs rest : List Char} {part : Part}
    (h : placeholder opening cs = .ok (part, rest)) :
    ∃ written, '\x7b' :: cs = written ++ rest ∧ part.Spelled written := by
  rcases placeholder_eq_ok.1 h with ⟨body, behind, s, hbody, hread, hclose, rfl⟩ | ⟨-, hclose, hpart⟩
  · obtain ⟨before, rfl, hbefore⟩ := blanks_before hbody
    obtain ⟨quoted, rfl, hquoted⟩ := quotedLiteral_spelled hread
    obtain ⟨after, rfl, hafter⟩ := blanks_before hclose
    exact ⟨_, by simp, .literal hquoted hbefore hafter⟩
  · obtain ⟨before, hcs, hbefore⟩ := @blanks_before cs _ rfl
    have hbody := List.takeWhile_append_dropWhile (p := (!isBrace ·)) (l := cs.dropWhile isBlank)
    obtain ⟨before', after, htrim, hbefore', hafter⟩ :=
      trim_spelled ((cs.dropWhile isBlank).takeWhile (!isBrace ·))
    generalize trim ((cs.dropWhile isBlank).takeWhile (!isBrace ·)) = content at hpart htrim
    rw [hclose, htrim] at hbody
    rw [← hbody] at hcs
    refine ⟨_, ?_, placeholderPart_spelled hpart (List.forall_mem_append.2 ⟨hbefore, hbefore'⟩) hafter⟩
    simp [hcs]

/-- A link ends with its key, or with the parenthesis that closes it. -/
theorem linked_spelled {opening : Nat} {cs key rest : List Char} {modifier : Option (List Char)}
    {part : Part} (hhead : linkHead? cs = some (modifier, key))
    (h : linked opening modifier key = .ok (part, rest)) :
    ∃ written, '@' :: cs = written ++ rest ∧ part.Spelled written := by
  have hcs : cs = modifierText modifier ++ ':' :: key := by
    rcases linkHead?_some hhead with ⟨rfl, rfl⟩ | ⟨letters, rfl, rfl, -⟩ <;> rfl
  obtain ⟨name, hkey, -, rfl⟩ := linked_eq_ok.1 h
  rcases linkKey_eq_ok.1 hkey with ⟨body, rfl, hclose, hname⟩ | ⟨-, hname, rfl⟩
  · obtain ⟨before, after, htrim, hbefore, hafter⟩ := trim_spelled (body.takeWhile (· ≠ ')'))
    have hbody := List.takeWhile_append_dropWhile (p := (· ≠ ')')) (l := body)
    rw [hclose, htrim, ← hname] at hbody
    refine ⟨_, ?_, .link modifier hbefore hafter⟩
    simp [hcs, ← hbody]
  · have hprefix : name <+: key :=
      hname ▸ (List.rdropWhile_prefix _ _).trans (List.takeWhile_prefix _)
    obtain ⟨behind, rfl⟩ := hprefix
    refine ⟨_, ?_, .bareLink name modifier⟩
    rw [hcs]
    simp

/-! ## Tokens -/

/-- Tokens from a byte on, and the text that they were cut from. -/
inductive Laid : Nat → List Token → List Char → Prop where
  | nil (pos : Nat) : Laid pos [] []
  | char {pos : Nat} {c : Char} {ts : List Token} {text : List Char}
    (behind : Laid (pos + c.utf8Size) ts text) : Laid pos (.char c pos :: ts) (c :: text)
  | item {pos : Nat} {part : Part} {written text : List Char} {ts : List Token}
    (spelled : part.Spelled written) (notText : part.isText = false)
    (behind : Laid (pos + byteLength written) ts text) :
    Laid pos (.item ⟨part, pos⟩ :: ts) (written ++ text)
  | bar {pos : Nat} {ts : List Token} {text : List Char} (behind : Laid (pos + 1) ts text) :
    Laid pos (.bar :: ts) ('|' :: text)

theorem Tokenized.laid {pos : Nat} {cs : List Char} {ts : List Token} (h : Tokenized pos cs ts) :
    Laid pos ts cs := by
  induction h with
  | nil pos => exact .nil pos
  | bar _ ih => exact .bar ih
  | char _ _ _ _ ih => exact .char ih
  | placeholder hread _ ih =>
    obtain ⟨written, htext, hspelled⟩ := placeholder_spelled hread
    have hstop := congrArg byteLength htext
    rw [byteLength_append] at hstop
    rw [hstop, Nat.add_sub_assoc (Nat.le_add_left _ _), Nat.add_sub_cancel] at ih
    rw [htext]
    exact .item hspelled (placeholder_wellFormed hread).2 ih
  | link hhead hread _ ih =>
    obtain ⟨written, htext, hspelled⟩ := linked_spelled hhead hread
    have hstop := congrArg byteLength htext
    rw [byteLength_append] at hstop
    rw [hstop, Nat.add_sub_assoc (Nat.le_add_left _ _), Nat.add_sub_cancel] at ih
    rw [htext]
    exact .item hspelled (linked_wellFormed hhead hread).2 ih

/-- A stretch of the tokens is cut from a stretch of the text. -/
theorem Laid.split {a b : List Token} : ∀ {pos : Nat} {text : List Char}, Laid pos (a ++ b) text →
    ∃ front back, text = front ++ back ∧ Laid pos a front ∧ Laid (pos + byteLength front) b back := by
  induction a with
  | nil => exact fun h => ⟨[], _, rfl, .nil _, h⟩
  | cons t a ih =>
    intro pos text h
    cases h with
    | char behind =>
      obtain ⟨front, back, rfl, ha, hb⟩ := ih behind
      exact ⟨_ :: front, back, rfl, .char ha, by rwa [byteLength, ← Nat.add_assoc]⟩
    | item spelled notText behind =>
      obtain ⟨front, back, rfl, ha, hb⟩ := ih behind
      exact ⟨_ ++ front, back, (List.append_assoc _ _ _).symm, .item spelled notText ha,
        by rwa [byteLength_append, ← Nat.add_assoc]⟩
    | bar behind =>
      obtain ⟨front, back, rfl, ha, hb⟩ := ih behind
      exact ⟨_ :: front, back, rfl, .bar ha, by rwa [byteLength, ← Nat.add_assoc]⟩

theorem Laid.blank {pos : Nat} {ts : List Token} {text : List Char} (h : Laid pos ts text)
    (hblank : ∀ t ∈ ts, isBlankToken t = true) : ∀ c ∈ text, isBlank c = true := by
  induction h with
  | nil pos => exact nofun
  | char _ ih =>
    obtain ⟨hc, hts⟩ := List.forall_mem_cons.1 hblank
    exact List.forall_mem_cons.2 ⟨hc, ih hts⟩
  | item => cases hblank _ List.mem_cons_self
  | bar => cases hblank _ List.mem_cons_self

/-- Blank tokens at the end of a stretch are blanks at the end of its text. -/
theorem Laid.dropTrailingBlanks {pos : Nat} {ts : List Token} {text : List Char} (h : Laid pos ts text) :
    ∃ front after, text = front ++ after ∧ Laid pos (dropTrailingBlanks ts) front ∧
      ∀ c ∈ after, isBlank c = true := by
  have hts : ts = Message.dropTrailingBlanks ts ++ (ts.reverse.takeWhile isBlankToken).reverse := by
    rw [Message.dropTrailingBlanks, ← List.reverse_append, List.takeWhile_append_dropWhile,
      List.reverse_reverse]
  rw [hts] at h
  obtain ⟨front, after, rfl, hfront, hafter⟩ := h.split
  refine ⟨front, after, rfl, hfront, hafter.blank fun t ht => ?_⟩
  exact List.all_eq_true.1 List.all_takeWhile t (List.mem_reverse.1 ht)

theorem Laid.dropLeadingBlanks {pos : Nat} {ts : List Token} {text : List Char} (h : Laid pos ts text) :
    ∃ before back, text = before ++ back ∧
      Laid (pos + byteLength before) (dropLeadingBlanks ts) back ∧ ∀ c ∈ before, isBlank c = true := by
  rw [← List.takeWhile_append_dropWhile (p := isBlankToken) (l := ts)] at h
  obtain ⟨before, back, rfl, hbefore, hback⟩ := h.split
  exact ⟨before, back, rfl, hback, hbefore.blank (List.all_eq_true.1 List.all_takeWhile)⟩

/-! ## Cases -/

/-- The tokens of a case are its items, side by side; neighbouring characters are one text. -/
theorem Laid.adjacent {pos : Nat} {ts : List Token} {text : List Char} (h : Laid pos ts text)
    (hbar : .bar ∉ ts) : ∃ tiles, tiles.map (·.item) = itemsOf ts ∧ Adjacent pos tiles text := by
  induction h with
  | nil pos => exact ⟨[], rfl, .nil pos⟩
  | @char pos c ts text _ ih =>
    obtain ⟨tiles, hitems, hadjacent⟩ := ih fun h => hbar (List.mem_cons_of_mem _ h)
    rw [itemsOf, ← hitems]
    have halone := Adjacent.cons (.text (List.cons_ne_nil c [])) hadjacent
    cases hadjacent with
    | nil => exact ⟨_, rfl, halone⟩
    | cons spelled behind =>
      cases spelled with
      | text nonempty =>
        -- the text that starts behind the character is lengthened by it
        rw [Nat.add_assoc] at behind
        exact ⟨_, rfl, .cons (.text (List.cons_ne_nil c _)) behind⟩
      | _ => exact ⟨_, rfl, halone⟩
  | item spelled _ _ ih =>
    obtain ⟨tiles, hitems, hadjacent⟩ := ih fun h => hbar (List.mem_cons_of_mem _ h)
    refine ⟨_, ?_, .cons spelled hadjacent⟩
    rw [List.map_cons, hitems]
    rfl
  | bar => exact absurd List.mem_cons_self hbar

/-- The tokens in front of the first bar, and what stands behind the bar. -/
theorem splitBars_first {ts first : List Token} {others : List (List Token)}
    (h : splitBars ts = first :: others) : .bar ∉ first ∧
      (others = [] ∧ ts = first ∨ ∃ rest, ts = first ++ .bar :: rest ∧ splitBars rest = others) := by
  obtain ⟨⟨-, hbar⟩, -⟩ := splitBars_infix h
  refine ⟨hbar, ?_⟩
  clear hbar
  induction ts generalizing first others with
  | nil =>
    cases h
    exact .inl ⟨rfl, rfl⟩
  | cons t ts ih =>
    by_cases ht : t = .bar
    · subst ht
      obtain ⟨rfl, rfl⟩ := List.cons.inj h
      exact .inr ⟨ts, rfl, rfl⟩
    · obtain ⟨first', others', hsplit, hcons⟩ := splitBars_cons ht ts
      rw [hcons] at h
      obtain ⟨rfl, rfl⟩ := List.cons.inj h
      rcases ih hsplit with ⟨rfl, rfl⟩ | ⟨rest, rfl, hrest⟩
      · exact .inl ⟨rfl, rfl⟩
      · exact .inr ⟨rest, rfl, hrest⟩

section

variable {pos : Nat} {ts first second : List Token} {others : List (List Token)} {text : List Char}

/-- The text of several cases is cut at its first bar. -/
theorem Laid.splitBars (h : Laid pos ts text) (hsplit : splitBars ts = first :: second :: others) :
    ∃ front back rest, text = front ++ '|' :: back ∧ Laid pos first front ∧
      Message.splitBars rest = second :: others ∧ Laid (pos + byteLength front + 1) rest back := by
  obtain ⟨-, ⟨hothers, -⟩ | ⟨rest, rfl, hrest⟩⟩ := splitBars_first hsplit
  · cases hothers
  · obtain ⟨front, back, rfl, hfront, hback⟩ := h.split
    cases hback with
    | bar behind => exact ⟨front, _, rest, rfl, hfront, hrest, behind⟩

theorem Laid.last (h : Laid pos ts text) (hsplit : Message.splitBars ts = [first]) :
    Laid pos first text := by
  obtain ⟨-, ⟨-, rfl⟩ | ⟨rest, -, hrest⟩⟩ := splitBars_first hsplit
  · exact h
  · exact absurd hrest (splitBars_ne_nil rest)

/-- A case in front of a bar loses the blanks at its end. -/
theorem Laid.barred {after rest : List Char} {tiles : List (List Tile)} (h : Laid pos first text)
    (hbar : .bar ∉ first) (hafter : ∀ c ∈ after, isBlank c = true)
    (hbehind : Tiled (pos + byteLength text + 1 + byteLength after) tiles rest) :
    ∃ case, case.map (·.item) = itemsOf (Message.dropTrailingBlanks first) ∧
      Tiled pos (case :: tiles) (text ++ '|' :: (after ++ rest)) := by
  obtain ⟨front, before, rfl, hfront, hbefore⟩ := h.dropTrailingBlanks
  obtain ⟨case, hcase, hadjacent⟩ := hfront.adjacent fun hm =>
    hbar ((dropTrailingBlanks_isPrefix first).subset hm)
  refine ⟨case, hcase, ?_⟩
  have hstop : pos + byteLength (front ++ before) + 1 + byteLength after =
      pos + byteLength (front ++ before ++ '|' :: after) := by
    rw [byteLength_append _ ('|' :: after), byteLength]
    simp only [show '|'.utf8Size = 1 from rfl]
    omega
  rw [hstop] at hbehind
  have htiled := Tiled.bar hadjacent hbefore hafter hbehind
  simpa using htiled

end

/-- Tokens behind a bar are cases behind the blanks at their start. -/
theorem Laid.tiledBehind : ∀ {segments : List (List Token)} {pos : Nat} {ts : List Token}
    {text : List Char}, Laid pos ts text → Message.splitBars ts = segments →
    ∃ after rest tiles, text = after ++ rest ∧ (∀ c ∈ after, isBlank c = true) ∧
      tiles.map (·.map Tile.item) = casesBehind segments ∧ Tiled (pos + byteLength after) tiles rest
  | [], _, ts, _, _, hsplit => absurd hsplit (splitBars_ne_nil ts)
  | [last], pos, ts, text, h, hsplit => by
    have hbar := (splitBars_first hsplit).1
    obtain ⟨after, rest, rfl, hrest, hafter⟩ := (h.last hsplit).dropLeadingBlanks
    obtain ⟨case, hcase, hadjacent⟩ := hrest.adjacent fun hm =>
      hbar ((List.dropWhile_suffix _).subset hm)
    exact ⟨after, rest, [case], rfl, hafter, congrArg ([·]) hcase, .last hadjacent⟩
  | first :: second :: others, pos, ts, text, h, hsplit => by
    have hbar := (splitBars_first hsplit).1
    obtain ⟨front, back, behind, rfl, hfront, hbehind, hback⟩ := h.splitBars hsplit
    obtain ⟨after, rest, tiles, rfl, hafter, htiles, htiled⟩ := hback.tiledBehind hbehind
    obtain ⟨start, front, rfl, hcase, hstart⟩ := hfront.dropLeadingBlanks
    rw [byteLength_append, ← Nat.add_assoc] at htiled
    obtain ⟨case, hitems, htiled⟩ := hcase.barred
      (fun hm => hbar ((List.dropWhile_suffix _).subset hm)) hafter htiled
    refine ⟨start, _, case :: tiles, List.append_assoc _ _ _, hstart, ?_, htiled⟩
    rw [List.map_cons, hitems, htiles]
    rfl

/-- The tokens of a message are its cases. -/
theorem Laid.tiled {pos : Nat} {ts : List Token} {text : List Char} (h : Laid pos ts text) :
    ∃ tiles, tiles.map (·.map Tile.item) = casesOf (Message.splitBars ts) ∧ Tiled pos tiles text := by
  match hsplit : Message.splitBars ts with
  | [] => exact absurd hsplit (splitBars_ne_nil ts)
  | [only] =>
    obtain ⟨case, hcase, hadjacent⟩ := (h.last hsplit).adjacent (splitBars_first hsplit).1
    exact ⟨[case], congrArg ([·]) hcase, .last hadjacent⟩
  | first :: second :: others =>
    obtain ⟨front, back, behind, rfl, hfront, hbehind, hback⟩ := h.splitBars hsplit
    obtain ⟨after, rest, tiles, rfl, hafter, htiles, htiled⟩ := hback.tiledBehind hbehind
    obtain ⟨case, hitems, htiled⟩ := hfront.barred (splitBars_first hsplit).1 hafter htiled
    refine ⟨case :: tiles, ?_, htiled⟩
    rw [List.map_cons, hitems, htiles]
    rfl

/-! ## Ranges -/

theorem Part.Spelled.length_pos {part : Part} {written : List Char} (h : part.Spelled written) :
    0 < byteLength written := by
  cases h with
  | text nonempty =>
    cases written with
    | nil => exact absurd rfl nonempty
    | cons c cs => exact Nat.add_pos_left c.utf8Size_pos _
  | _ => exact Nat.add_pos_left (Char.utf8Size_pos _) _

/-- Tiles of a stretch of a message are apart, in order, and within the stretch. -/
structure InOrder (message : List Char) (start stop : Nat) (tiles : List Tile) : Prop where
  fills : ∀ t ∈ tiles, t.Fills message
  within : ∀ t ∈ tiles, start ≤ t.item.offset ∧ t.stop ≤ stop
  apart : tiles.Pairwise fun a b => a.stop ≤ b.item.offset

theorem InOrder.append {message : List Char} {start middle middle' stop : Nat} {a b : List Tile}
    (ha : InOrder message start middle a) (hb : InOrder message middle' stop b)
    (hmiddle : middle ≤ middle') (hstart : start ≤ middle) (hstop : middle' ≤ stop) :
    InOrder message start stop (a ++ b) where
  fills := List.forall_mem_append.2 ⟨ha.fills, hb.fills⟩
  within := List.forall_mem_append.2 ⟨fun t ht => ⟨(ha.within t ht).1,
      ((ha.within t ht).2.trans hmiddle).trans hstop⟩,
    fun t ht => ⟨(hstart.trans hmiddle).trans (hb.within t ht).1, (hb.within t ht).2⟩⟩
  apart := List.pairwise_append.2 ⟨ha.apart, hb.apart, fun s hs t ht =>
    ((ha.within s hs).2.trans hmiddle).trans (hb.within t ht).1⟩

theorem Adjacent.inOrder {pos : Nat} {tiles : List Tile} {text : List Char} (h : Adjacent pos tiles text) :
    ∀ {message front back : List Char}, message = front ++ (text ++ back) → byteLength front = pos →
      InOrder message pos (pos + byteLength text) tiles := by
  induction h with
  | nil pos => exact fun _ _ => ⟨nofun, nofun, .nil⟩
  | @cons pos part written text tiles spelled _ ih =>
    intro message front back hmessage hpos
    have hslice : slice? message pos (pos + byteLength written) = some written := by
      rw [hmessage, ← hpos, ← byteLength_append, List.append_assoc]
      exact slice?_append _ _ _
    have htile : InOrder message pos (pos + byteLength written)
        [⟨⟨part, pos⟩, pos + byteLength written⟩] := by
      refine ⟨?_, ?_, List.pairwise_singleton _ _⟩
      · rintro _ (_ | ⟨_, ⟨⟩⟩)
        exact ⟨Nat.lt_add_of_pos_right spelled.length_pos, written, hslice, spelled⟩
      · rintro _ (_ | ⟨_, ⟨⟩⟩)
        exact ⟨Nat.le_refl _, Nat.le_refl _⟩
    have hbehind := @ih message (front ++ written) back (by simp [hmessage]) (by simp [hpos])
    rw [byteLength_append, ← Nat.add_assoc]
    exact htile.append hbehind (Nat.le_refl _) (Nat.le_add_right _ _) (Nat.le_add_right _ _)

theorem Tiled.inOrder {pos : Nat} {tiles : List (List Tile)} {text : List Char} (h : Tiled pos tiles text) :
    ∀ {message front back : List Char}, message = front ++ (text ++ back) → byteLength front = pos →
      InOrder message pos (pos + byteLength text) tiles.flatten := by
  induction h with
  | last items =>
    intro message front back hmessage hpos
    rw [List.flatten_singleton]
    exact items.inOrder hmessage hpos
  | @bar pos case text before after rest others items _ _ _ ih =>
    intro message front back hmessage hpos
    have hcase := @Adjacent.inOrder _ _ _ items message front (before ++ '|' :: after ++ rest ++ back)
      (by simp [hmessage]) hpos
    have hothers := @ih message (front ++ (text ++ before ++ '|' :: after)) back (by simp [hmessage])
      (by rw [byteLength_append, hpos])
    rw [byteLength_append, ← Nat.add_assoc, List.flatten_cons]
    refine hcase.append hothers ?_ (Nat.le_add_right _ _) (Nat.le_add_right _ _)
    rw [byteLength_append, byteLength_append]
    omega

/--
The items of a parsed message tile it. They occupy ranges of its bytes that are apart and in order;
the range of an item starts at its offset and holds a text that the item can be read from; and outside
of the ranges there is one bar between two cases, with nothing but blanks around it.
-/
theorem parse_tiles_message {message : List Char} {cases : List Case} (h : parse message = .ok cases) :
    ∃ tiles, tiles.map (·.map Tile.item) = cases ∧ Tiled 0 tiles message ∧
      (∀ t ∈ tiles.flatten, t.Fills message) ∧
      tiles.flatten.Pairwise fun a b => a.stop ≤ b.item.offset := by
  obtain ⟨ts, hts, rfl⟩ := parse_eq_ok_iff.1 h
  obtain ⟨tiles, htiles, htiled⟩ := hts.laid.tiled
  have hmessage : message = [] ++ (message ++ []) := by rw [List.append_nil, List.nil_append]
  have hordered := htiled.inOrder hmessage rfl
  exact ⟨tiles, htiles, htiled, hordered.fills, hordered.apart⟩

/-- A wide character, blanks around bars and in braces, and a dot behind a key. -/
theorem parse_tiles_message_wide :
    let message := "\u00e9 \x7b n\x7d | @.up:k. \x7b0\x7d|\x7b 'x' \x7d".toList
    let cases : List Case := [[⟨.text "\u00e9 ".toList, 0⟩, ⟨.named ['n'], 3⟩],
      [⟨.linked ['k'] (some "up".toList), 10⟩, ⟨.text ". ".toList, 16⟩, ⟨.list 0, 18⟩],
      [⟨.literal ['x'], 22⟩]]
    parse message = .ok cases ∧
      ∃ tiles, tiles.map (·.map Tile.item) = cases ∧ Tiled 0 tiles message ∧
        (∀ t ∈ tiles.flatten, t.Fills message) ∧
        tiles.flatten.Pairwise fun a b => a.stop ≤ b.item.offset := by
  intro message cases
  have hparse : parse message = .ok cases := by decide +kernel
  exact ⟨hparse, parse_tiles_message hparse⟩

end MessageCatalog.Message
