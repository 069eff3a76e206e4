/-
A token that spells a literal on one line has a column for every place of the literal: the one
behind the raw text that spells what is in front of the place. The map of a fragment is moved into
such a token without losing a segment.
-/
import MessageCatalog.Emission.LiteralColumns
import MessageCatalog.Proofs.Script.Spelling
import MessageCatalog.Proofs.SourceMap.Builder
import MessageCatalog.Proofs.Text.Position

namespace MessageCatalog.Emission

open MessageCatalog.Code MessageCatalog.Script MessageCatalog.Text

/-! ## One character -/

theorem rawLength?_simple {c d : Char} (h : (c, d) ∈ simpleEscapes) (quote : Char)
    (rest : List Char) :
    rawLength? ('\\' :: c :: rest) quote d = some (byteLength ['\\', c]) := by
  simp only [simpleEscapes, List.mem_cons, Prod.mk.injEq, List.not_mem_nil, or_false] at h
  rcases h with ⟨rfl, rfl⟩ | ⟨rfl, rfl⟩ | ⟨rfl, rfl⟩ | ⟨rfl, rfl⟩ | ⟨rfl, rfl⟩ | ⟨rfl, rfl⟩ |
    ⟨rfl, rfl⟩ | ⟨rfl, rfl⟩ <;> rfl

/-- Behind `\u` the look of the raw text and the character tell one escape from two. -/
theorem rawLength?_hex {digits : List Char} (hlength : digits.length = 4)
    (hhex : digits.all isHexDigit = true) (quote c : Char) (rest : List Char) :
    rawLength? ('\\' :: 'u' :: (digits ++ rest)) quote c =
      if 0xFFFF < c.toNat then
        if "\\u".toList.isPrefixOf rest then some 12 else some 6
      else some 6 := by
  have hcut : cut? 6 ('\\' :: 'u' :: (digits ++ rest)) = some ('\\' :: 'u' :: digits, rest) := by
    have hsix : byteLength ('\\' :: 'u' :: digits) = 6 := by
      rw [byteLength, byteLength, byteLength_hex hhex, hlength]
      rfl
    have := cut?_append ('\\' :: 'u' :: digits) rest
    rwa [hsix] at this
  obtain _ | ⟨a, digits⟩ := digits
  · cases hlength
  · rw [List.all_cons, Bool.and_eq_true] at hhex
    have hbrace : a ≠ '\x7b' := isHexDigit_ne hhex.1 (by decide)
    simp only [List.cons_append] at hcut ⊢
    rw [rawLength?]
    · rw [hcut]
    · intro body heq
      cases heq
      exact hbrace rfl

theorem splitRaw?_spells {quote : Char} {raw : List Char} {c : Char} (h : Spells quote raw c)
    (rest : List Char) : splitRaw? (raw ++ rest) quote c = some (raw, rest) := by
  have hlength : rawLength? (raw ++ rest) quote c = some (byteLength raw) := by
    cases h with
    | raw closing escape =>
      rw [List.singleton_append, rawLength?]
      · rw [if_neg (fun h => closing (h.1.trans h.2.1.symm)), if_pos rfl]
        rfl
      · exact escape
    | simple known => exact rawLength?_simple known quote rest
    | @unit digits length hex high low =>
      have hsmall : ¬ 0xFFFF < (Char.ofNat (digitsValue 16 digits)).toNat := by
        rw [toNat_ofNat_of_lt (digitsValue_hex4 length) (not_surrogate high low)]
        have := digitsValue_hex4 length
        omega
      show rawLength? ('\\' :: 'u' :: (digits ++ rest)) quote _ = _
      rw [rawLength?_hex length hex, if_neg hsmall, byteLength, byteLength, byteLength_hex hex,
        length]
      rfl
    | @pair first second length hex high length' hex' low =>
      show rawLength? ('\\' :: 'u' :: ((first ++ '\\' :: 'u' :: second) ++ rest)) quote _ = _
      rw [List.append_assoc, rawLength?_hex length hex, if_pos (toNat_joinSurrogates high low),
        byteLength, byteLength, byteLength_append, byteLength, byteLength, byteLength_hex hex,
        byteLength_hex hex', length, length']
      rfl
  unfold splitRaw?
  rw [hlength, Option.bind_eq_bind, Option.bind_some]
  exact cut?_append raw rest

/-! ## The whole literal -/

theorem columnsFrom_spelled {quote : Char} {raw literal : List Char}
    (h : Spelled quote raw literal) (place : Nat × Nat) (column : Nat) :
    ∃ table, columnsFrom quote place column raw literal = some table := by
  induction h generalizing place column with
  | nil => exact ⟨_, rfl⟩
  | @cons raw rest c literal head _ ih =>
    obtain ⟨table, htable⟩ := ih
      (if c = '\n' then (place.1 + 1, 0) else (place.1, place.2 + unitsOf c)) (column + units raw)
    refine ⟨(place, column) :: table, ?_⟩
    rw [columnsFrom, splitRaw?_spells head, Option.bind_eq_bind, Option.bind_some]
    simp only [htable]
    rfl

/-- A text that is not empty moves the place. -/
theorem advance_ne {cs : List Char} (h : cs ≠ []) (place : Nat × Nat) : advance place cs ≠ place := by
  intro he
  rcases last_line cs with hline | ⟨before, line, rfl, hline⟩
  · obtain ⟨c, rest, rfl⟩ := List.exists_cons_of_ne_nil h
    rw [advance_of_not_mem hline, units] at he
    have := congrArg Prod.snd he
    have := unitsOf_pos c
    simp only at *
    omega
  · have hle : ∀ (cs : List Char) (place : Nat × Nat), place.1 ≤ (advance place cs).1 := by
      intro cs place
      rw [length_lineStartsFrom cs 0]
      omega
    have := hle before place
    rw [advance_last_line hline] at he
    have := congrArg Prod.fst he
    simp only at this
    omega

/-- A table starts with the current place and goes on behind the raw text of the first character. -/
theorem columnsFrom_cons {quote c : Char} {literal raw : List Char} {place : Nat × Nat} {column : Nat}
    {table : ColumnTable} (h : columnsFrom quote place column raw (c :: literal) = some table) :
    ∃ head tail others, splitRaw? raw quote c = some (head, tail) ∧
      columnsFrom quote (advance place [c]) (column + units head) tail literal = some others ∧
      table = (place, column) :: others := by
  rw [columnsFrom] at h
  obtain ⟨⟨head, tail⟩, hsplit, h⟩ := Option.bind_eq_some_iff.1 h
  obtain ⟨others, hothers, h⟩ := Option.bind_eq_some_iff.1 h
  cases h
  exact ⟨head, tail, others, hsplit, hothers, rfl⟩

/-- The column of the place behind a part of the literal is behind what spells the part. -/
theorem columnsFrom_lookup {quote : Char} {raw front : List Char} (h : Spelled quote raw front) :
    ∀ {back rest : List Char} {place : Nat × Nat} {column : Nat} {table : ColumnTable},
      columnsFrom quote place column (raw ++ rest) (front ++ back) = some table →
      table.lookup (advance place front) = some (column + units raw) := by
  induction h with
  | nil =>
    -- whatever is left of the literal, the first entry is that of the current place
    intro back rest place column table htable
    have hhead : ∃ others, table = (place, column) :: others := by
      cases back with
      | nil =>
        simp only [List.nil_append, columnsFrom] at htable
        split at htable
        · exact ⟨[], (Option.some.inj htable).symm⟩
        · cases htable
      | cons c back =>
        obtain ⟨_, _, others, -, -, heq⟩ := columnsFrom_cons htable
        exact ⟨others, heq⟩
    obtain ⟨others, rfl⟩ := hhead
    rw [List.lookup_cons, advance, beq_self_eq_true]
    rfl
  | @cons raw tail c literal head _ ih =>
    intro back rest place column table htable
    rw [List.append_assoc, List.cons_append, columnsFrom, splitRaw?_spells head, Option.bind_eq_bind,
      Option.bind_some] at htable
    obtain ⟨others, hothers, htable⟩ := Option.bind_eq_some_iff.1 htable
    cases htable
    -- the place has moved, so the first entry is not the one that is looked up
    have hne : (advance place (c :: literal) == place) = false :=
      beq_eq_false_iff_ne.2 (advance_ne (List.cons_ne_nil c literal) place)
    rw [List.lookup_cons, hne, advance, units_append, ← Nat.add_assoc]
    exact ih hothers

/-- A token between quotes that spells the literal has a table, with the raw columns in it. -/
theorem literalColumns?_spelled {quote : Char} (hquote : quote = '"' ∨ quote = '\'')
    {raw literal : List Char} (h : Spelled quote raw literal) :
    ∃ table, literalColumns? (quote :: (raw ++ [quote])) literal = some table ∧
      ∀ {rawFront rawBack front back : List Char}, raw = rawFront ++ rawBack →
        literal = front ++ back → Spelled quote rawFront front →
        table.lookup (advance (0, 0) front) = some (units rawFront) := by
  obtain ⟨table, htable⟩ := columnsFrom_spelled h (0, 0) 0
  have hline : ¬ (raw ++ [quote]).contains '\n' = true := by
    rw [List.contains_iff_mem, List.mem_append, not_or]
    refine ⟨h.newline_not_mem, ?_⟩
    rcases hquote with rfl | rfl <;> decide
  refine ⟨table, ?_, ?_⟩
  · rw [literalColumns?, if_pos ⟨hquote, List.getLast?_concat, hline⟩, List.dropLast_concat]
    exact htable
  · intro rawFront rawBack front back hraw hliteral hfront
    subst hraw hliteral
    have := columnsFrom_lookup hfront htable
    rwa [Nat.zero_add] at this

/-! ## Any token -/

/-- No column of a table is behind the raw text. -/
theorem columnsFrom_le {quote : Char} : ∀ {literal raw : List Char} {place : Nat × Nat} {column : Nat}
    {table : ColumnTable}, columnsFrom quote place column raw literal = some table →
    ∀ entry ∈ table, entry.2 ≤ column + units raw
  | [], raw, place, column, table, h => by
    rw [columnsFrom] at h
    split at h
    · cases h
      intro entry hentry
      cases List.mem_singleton.1 hentry
      exact Nat.le_add_right _ _
    · cases h
  | c :: literal, raw, place, column, table, h => by
    obtain ⟨head, tail, others, hsplit, hothers, rfl⟩ := columnsFrom_cons h
    obtain ⟨length, -, hcut⟩ := Option.bind_eq_some_iff.1 hsplit
    obtain ⟨rfl, -⟩ := cut?_eq_some hcut
    refine List.forall_mem_cons.2 ⟨Nat.le_add_right _ _, fun entry hentry => ?_⟩
    have hle := columnsFrom_le hothers entry hentry
    rwa [units_append, ← Nat.add_assoc]

/-- A token that has a table is on one line, and its columns are columns of the token. -/
theorem literalColumns?_le {raw literal : List Char} {table : ColumnTable}
    (h : literalColumns? raw literal = some table) :
    '\n' ∉ raw ∧ ∀ entry ∈ table, entry.2 ≤ units raw := by
  unfold literalColumns? at h
  split at h
  · cases h
  · rename_i quote body
    split at h
    · rename_i hquoted
      obtain ⟨hquote, -, hline⟩ := hquoted
      constructor
      · intro hmem
        rcases List.mem_cons.1 hmem with rfl | hmem
        · rcases hquote with hquote | hquote <;> cases hquote
        · exact hline (List.contains_iff_mem.2 hmem)
      · intro entry hentry
        have hle := columnsFrom_le h entry hentry
        obtain ⟨last, hbody⟩ := List.dropLast_prefix body
        have hunits := congrArg units hbody
        rw [units_append] at hunits
        rw [units]
        omega
    · cases h

/-! ## Fragment maps -/

/-- A reading whose origin is moved to a column of the first line. -/
def atColumn (r : Reading) (column : Nat) : Reading :=
  { r with originLine := 0, originColumn := column }

section

variable {map : SourceMap} {columns : ColumnTable} {column : Reading → Nat}

/-- Records a segment with its origin moved. -/
def rebaseSegment? (map : SourceMap) (columns : ColumnTable) (b : SourceMapBuilder) (s : Segment) :
    Option SourceMapBuilder :=
  match s.origin with
  | none => some b
  | some o => do
    let column ← columns.lookup (o.line, o.column)
    return b.addMapping s.line s.column o.source 0 column (o.name.bind map.name?)

theorem rebaseSegment?_records {s : Segment} {r : Reading} (hs : map.reading s = some r)
    (hcolumn : columns.lookup (r.originLine, r.originColumn) = some (column r))
    {b : SourceMapBuilder} {readings : List Reading} (hb : b.Records readings)
    (hsources : b.sources.toList = map.sources) :
    ∃ next, rebaseSegment? map columns b s = some next ∧
      next.Records (readings ++ [atColumn r (column r)]) ∧ next.sources.toList = map.sources := by
  obtain ⟨id, name, rfl, hid, hname, -⟩ := Segment.reading_eq_some hs
  have hname' : name.bind map.name? = r.name := hname
  have hid' : b.sources.toList[id]? = some r.source := by rw [hsources, hid]
  refine ⟨b.addMapping r.line r.column id 0 (column r) r.name, ?_,
    hb.addMapping hid' r.line r.column 0 (column r) r.name, ?_⟩
  · rw [← hname']
    show (columns.lookup (r.originLine, r.originColumn)).bind _ = _
    rw [hcolumn]
    rfl
  · rw [SourceMapBuilder.addMapping_sources, hsources]

theorem rebaseSegments?_records : ∀ {segments : List Segment} {inside readings : List Reading}
    {b : SourceMapBuilder}, segments.map map.reading = inside.map some →
    (∀ r ∈ inside, columns.lookup (r.originLine, r.originColumn) = some (column r)) →
    b.Records readings → b.sources.toList = map.sources →
    ∃ next, segments.foldlM (rebaseSegment? map columns) b = some next ∧
      next.Records (readings ++ inside.map fun r => atColumn r (column r)) ∧
      next.sources.toList = map.sources
  | [], inside, readings, b, hinside, hcolumns, hb, hsources => by
    cases inside with
    | cons r inside => cases hinside
    | nil => exact ⟨b, rfl, by rwa [List.map_nil, List.append_nil], hsources⟩
  | s :: segments, inside, readings, b, hinside, hcolumns, hb, hsources => by
    cases inside with
    | nil => cases hinside
    | cons r inside =>
      obtain ⟨hs, hothers⟩ := List.cons.inj hinside
      obtain ⟨hcolumn, hcolumns⟩ := List.forall_mem_cons.1 hcolumns
      obtain ⟨next, hnext, hrecords, hsources⟩ := rebaseSegment?_records hs hcolumn hb hsources
      obtain ⟨last, hlast, hrecords, hsources⟩ := rebaseSegments?_records hothers hcolumns hrecords
        hsources
      rw [List.append_assoc] at hrecords
      refine ⟨last, ?_, hrecords, hsources⟩
      rw [List.foldlM_cons, hnext]
      exact hlast

/-- The map of a fragment is moved where all its origins have a column. -/
theorem rebaseFragment?_tells (columns : ColumnTable) (column : Reading → Nat)
    {holds : Reading → Prop} {source : String}
    (hsources : map.sources = [source]) (htells : map.Tells holds)
    (hnames : ∀ r, holds r → r.name = none)
    (hcolumns : ∀ r, holds r → columns.lookup (r.originLine, r.originColumn) = some (column r))
    (hfits : ∀ r, holds r → (atColumn r (column r)).Fits) :
    ∃ moved, rebaseFragment? map columns = some moved ∧
      moved.Tells fun r => ∃ r', holds r' ∧ r = atColumn r' (column r') := by
  obtain ⟨segments, inside, hdecode, hinside, hmem⟩ := htells.readings
  have hstart : ((SourceMapBuilder.new map.file).addSource source).2.sources.toList = map.sources := by
    rw [hsources, SourceMapBuilder.addSource_new]
  obtain ⟨b, hb, hrecords, hbsources⟩ := rebaseSegments?_records hinside
    (fun r hr => hcolumns r ((hmem r).1 hr))
    ((SourceMapBuilder.new_records map.file).addSource source) hstart
  rw [List.nil_append] at hrecords
  have hreadings : ∀ r, (r ∈ inside.map fun r => atColumn r (column r)) ↔
      ∃ r', holds r' ∧ r = atColumn r' (column r') := by
    intro r
    rw [List.mem_map]
    constructor
    · rintro ⟨r', hr', rfl⟩
      exact ⟨r', (hmem r').1 hr', rfl⟩
    · rintro ⟨r', hr', rfl⟩
      exact ⟨r', (hmem r').2 hr', rfl⟩
  refine ⟨b.build, ?_, ?_⟩
  · unfold rebaseFragment?
    rw [hdecode, hsources]
    show ((segments.foldlM (rebaseSegment? map columns)
      ((SourceMapBuilder.new map.file).addSource source).2).bind _) = _
    rw [hb]
    rfl
  · have hsaid := hrecords.tells ?_ ?_ ?_
    · exact hsaid.congr hreadings
    · intro r hr
      obtain ⟨r', hr', rfl⟩ := (hreadings r).1 hr
      exact hfits r' hr'
    · rw [← Array.length_toList, hbsources, hsources]
      exact Nat.le_of_ble_eq_true rfl
    · refine Nat.le_trans (hrecords.names_le [] fun r hr name hname => ?_) (Nat.zero_le _)
      obtain ⟨r', hr', rfl⟩ := (hreadings r).1 hr
      have : r'.name = some name := hname
      rw [hnames r' hr'] at this
      cases this

variable {moved : SourceMap}

/-- Segments are moved only if all their origins have a column. -/
theorem rebaseSegments?_lookup : ∀ {segments : List Segment} {b last : SourceMapBuilder},
    segments.foldlM (rebaseSegment? map columns) b = some last →
    ∀ s ∈ segments, ∀ o ∈ s.origin, ∃ column, columns.lookup (o.line, o.column) = some column
  | [], _, _, _ => List.forall_mem_nil _
  | s :: rest, b, last, h => by
    obtain ⟨next, hnext, hrest⟩ := Option.bind_eq_some_iff.1 h
    refine List.forall_mem_cons.2 ⟨fun o ho => ?_, rebaseSegments?_lookup hrest⟩
    have ho : s.origin = some o := ho
    unfold rebaseSegment? at hnext
    rw [ho] at hnext
    obtain ⟨column, hcolumn, -⟩ := Option.bind_eq_some_iff.1 hnext
    exact ⟨column, hcolumn⟩

theorem rebaseFragment?_lookup (h : rebaseFragment? map columns = some moved) {holds : Reading → Prop}
    (htells : map.Tells holds) {r : Reading} (hr : holds r) :
    ∃ column, columns.lookup (r.originLine, r.originColumn) = some column := by
  obtain ⟨segments, hdecode, -, -, hall⟩ := htells
  obtain ⟨s, hs, hreading⟩ := hall r hr
  unfold rebaseFragment? at h
  rw [hdecode] at h
  obtain ⟨_, ⟨⟩, h⟩ := Option.bind_eq_some_iff.1 h
  obtain ⟨last, hlast, -⟩ := Option.bind_eq_some_iff.1 h
  obtain ⟨id, name, rfl, -⟩ := Segment.reading_eq_some hreading
  exact rebaseSegments?_lookup hlast _ hs _ rfl

/-- The column that a table has for the origin of a reading. -/
def originColumn (table : ColumnTable) (r : Reading) : Nat :=
  (table.lookup (r.originLine, r.originColumn)).getD 0

theorem originColumn_eq {table : ColumnTable} {r : Reading} {column : Nat}
    (h : table.lookup (r.originLine, r.originColumn) = some column) : originColumn table r = column := by
  rw [originColumn, h, Option.getD_some]

/-- A map that is moved into columns that are words decodes. -/
theorem rebaseFragment?_decodes (h : rebaseFragment? map columns = some moved) {source : String}
    {holds : Reading → Prop} (hsources : map.sources = [source]) (htells : map.Tells holds)
    (hplain : ∀ r, holds r → r.name = none ∧ r.column < wordLimit)
    (hcolumns : ∀ entry ∈ columns, entry.2 < wordLimit) :
    ∃ segments, moved.decode = .ok segments := by
  have hlookup : ∀ r, holds r →
      columns.lookup (r.originLine, r.originColumn) = some (originColumn columns r) := by
    intro r hr
    obtain ⟨column, hcolumn⟩ := rebaseFragment?_lookup h htells hr
    rw [originColumn_eq hcolumn, hcolumn]
  obtain ⟨moved', hmoved, htells'⟩ := rebaseFragment?_tells columns (originColumn columns) hsources htells
    (fun r hr => (hplain r hr).1) hlookup fun r hr => by
      obtain ⟨front, back, hentry, -⟩ := List.lookup_eq_some_iff.1 (hlookup r hr)
      have hmem := hcolumns _ (hentry ▸ List.mem_append_right front List.mem_cons_self)
      exact ⟨(hplain r hr).2, by show 0 < wordLimit; decide, hmem⟩
  cases h.symm.trans hmoved
  obtain ⟨segments, hdecode, -⟩ := htells'
  exact ⟨segments, hdecode⟩

end

end MessageCatalog.Emission
