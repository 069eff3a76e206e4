/-
The mappings text of a source map is read back: for segments that are sorted by lines and whose
numbers and indices are words that the map knows, decoding gives the segments that were encoded.
-/
import MessageCatalog.Proofs.SourceMap.Vlq
import MessageCatalog.SourceMap.Builder

namespace MessageCatalog

/-! ## Splitting -/

/-- A text without separators goes in front of the first part. -/
theorem splitOn_append {sep : Char} {a : List Char} (h : sep ∉ a) (b : List Char) :
    (a ++ b).splitOn sep = (b.splitOn sep).modifyHead (a ++ ·) := by
  induction a with
  | nil => cases hb : b.splitOn sep <;> simp [hb]
  | cons c a ih =>
    have hc : ¬ (c == sep) = true := by
      rintro hcs
      exact h (List.mem_cons.2 (Or.inl (beq_iff_eq.1 hcs).symm))
    rw [List.cons_append, List.splitOn_cons_eq_if_modifyHead, if_neg hc,
      ih fun ha => h (List.mem_cons_of_mem _ ha)]
    cases b.splitOn sep <;> rfl

theorem splitOn_cons_self (sep : Char) (cs : List Char) :
    (sep :: cs).splitOn sep = [] :: cs.splitOn sep := by
  rw [List.splitOn_cons_eq_if_modifyHead, if_pos (beq_self_eq_true sep)]

theorem splitOn_replicate (sep : Char) (n : Nat) (cs : List Char) :
    (List.replicate n sep ++ cs).splitOn sep = List.replicate n [] ++ cs.splitOn sep := by
  induction n with
  | zero => rfl
  | succ n ih =>
    rw [List.replicate_succ, List.cons_append, splitOn_cons_self, ih]
    rfl

/-! ## The numbers of a segment -/

/-- What a segment adds to the numbers before it. -/
def segmentNumbers (st : EncodeState) (s : Segment) : List Int :=
  match s.origin with
  | none => [(s.column : Int) - st.column]
  | some o =>
    [(s.column : Int) - st.column, (o.source : Int) - st.source, (o.line : Int) - st.originLine,
      (o.column : Int) - st.originColumn] ++ (o.name.map fun (n : Nat) => (n : Int) - st.name).toList

theorem encodeSegment_text (st : EncodeState) (s : Segment) :
    (encodeSegment st s).1 = (segmentNumbers st s).flatMap Vlq.encode := by
  unfold encodeSegment segmentNumbers difference
  cases s.origin with
  | none => simp
  | some o => cases ho : o.name <;> simp [ho]

theorem separator_not_mem_segment (st : EncodeState) (s : Segment) :
    ';' ∉ (encodeSegment st s).1 ∧ ',' ∉ (encodeSegment st s).1 := by
  rw [encodeSegment_text]
  constructor
  · intro h
    obtain ⟨n, -, hn⟩ := List.mem_flatMap.1 h
    exact (Vlq.separator_not_mem_encode n).1 hn
  · intro h
    obtain ⟨n, -, hn⟩ := List.mem_flatMap.1 h
    exact (Vlq.separator_not_mem_encode n).2 hn

theorem encodeSegment_ne_nil (st : EncodeState) (s : Segment) : (encodeSegment st s).1 ≠ [] := by
  have hcolumn : ∃ ns, segmentNumbers st s = ((s.column : Int) - st.column) :: ns := by
    unfold segmentNumbers
    cases s.origin with
    | none => exact ⟨_, rfl⟩
    | some o => exact ⟨_, rfl⟩
  obtain ⟨ns, hns⟩ := hcolumn
  rw [encodeSegment_text, hns, List.flatMap_cons]
  exact fun h => Vlq.encode_ne_nil _ (List.append_eq_nil_iff.1 h).1

/-- The state at the start of a line. -/
def EncodeState.atLine (st : EncodeState) (line : Nat) : EncodeState := { st with line, column := 0 }

theorem encodeSegments_below {st : EncodeState} {s : Segment} (h : st.line < s.line) (fresh : Bool)
    (rest : List Segment) :
    encodeSegments st fresh (s :: rest) =
      List.replicate (s.line - st.line) ';' ++ ((encodeSegment (st.atLine s.line) s).1 ++
        encodeSegments (encodeSegment (st.atLine s.line) s).2 false rest) := by
  rw [← List.append_assoc]
  exact if_pos h

theorem encodeSegments_onLine {st : EncodeState} {s : Segment} (h : ¬ st.line < s.line)
    (fresh : Bool) (rest : List Segment) :
    encodeSegments st fresh (s :: rest) =
      (if fresh then [] else [',']) ++ ((encodeSegment st s).1 ++
        encodeSegments (encodeSegment st s).2 false rest) := by
  rw [← List.append_assoc]
  exact if_neg h

theorem encodeSegment_line (st : EncodeState) (s : Segment) : (encodeSegment st s).2.line = st.line := by
  unfold encodeSegment
  cases s.origin with
  | none => rfl
  | some o => cases ho : o.name <;> simp only [ho]

/-! ## What fits -/

/-- An origin whose indices a map knows and whose numbers are words. -/
structure Origin.Fits (map : SourceMap) (o : Origin) : Prop where
  source : o.source < map.sources.length
  line : o.line < wordLimit
  column : o.column < wordLimit
  name : ∀ n ∈ o.name, n < map.names.length

structure Segment.Fits (map : SourceMap) (s : Segment) : Prop where
  column : s.column < wordLimit
  origin : ∀ o ∈ s.origin, o.Fits map

/-- A map with few enough sources and names. -/
structure SourceMap.Small (map : SourceMap) : Prop where
  sources : map.sources.length ≤ wordLimit
  names : map.names.length ≤ wordLimit

structure EncodeState.Fits (st : EncodeState) : Prop where
  column : st.column < wordLimit
  source : st.source < wordLimit
  originLine : st.originLine < wordLimit
  originColumn : st.originColumn < wordLimit
  name : st.name < wordLimit

theorem EncodeState.start_fits : EncodeState.start.Fits := by
  constructor <;> decide

theorem EncodeState.Fits.atLine {st : EncodeState} (h : st.Fits) (line : Nat) :
    (st.atLine line).Fits := ⟨Nat.zero_lt_of_lt h.column, h.source, h.originLine, h.originColumn, h.name⟩

section

variable {map : SourceMap} {st : EncodeState} {s : Segment}

theorem encodeSegment_fits (hmap : map.Small) (hst : st.Fits) (hs : s.Fits map) :
    (encodeSegment st s).2.Fits := by
  unfold encodeSegment
  cases ho : s.origin with
  | none => exact { hst with column := hs.column }
  | some o =>
    have hfits := hs.origin o ho
    have hsource := Nat.lt_of_lt_of_le hfits.source hmap.sources
    cases hn : o.name with
    | none =>
      simp only [hn]
      exact ⟨hs.column, hsource, hfits.line, hfits.column, hst.name⟩
    | some n =>
      have hname := Nat.lt_of_lt_of_le (hfits.name n hn) hmap.names
      simp only [hn]
      exact ⟨hs.column, hsource, hfits.line, hfits.column, hname⟩

/-! ## The check -/

theorem checkMappings_segment (hmap : map.Small) (hst : st.Fits) (hs : s.Fits map)
    (rest : List Char) :
    checkMappings 0 ((encodeSegment st s).1 ++ rest) = checkMappings 0 rest := by
  rw [encodeSegment_text]
  unfold segmentNumbers
  cases ho : s.origin with
  | none =>
    simp only [List.flatMap_cons, List.flatMap_nil, List.append_nil]
    exact checkMappings_difference hs.column hst.column rest
  | some o =>
    have hfits := hs.origin o ho
    have hsource := Nat.lt_of_lt_of_le hfits.source hmap.sources
    have hname : checkMappings 0
        (((o.name.map fun (n : Nat) => (n : Int) - st.name).toList).flatMap Vlq.encode ++ rest) =
          checkMappings 0 rest := by
      cases hn : o.name with
      | none => rfl
      | some n =>
        simp only [Option.map_some, Option.toList_some, List.flatMap_singleton]
        exact checkMappings_difference (Nat.lt_of_lt_of_le (hfits.name n hn) hmap.names) hst.name rest
    simp only [List.cons_append, List.nil_append, List.flatMap_cons, List.append_assoc]
    rw [checkMappings_difference hs.column hst.column, checkMappings_difference hsource hst.source,
      checkMappings_difference hfits.line hst.originLine,
      checkMappings_difference hfits.column hst.originColumn, hname]

theorem checkMappings_replicate (n : Nat) (rest : List Char) :
    checkMappings 0 (List.replicate n ';' ++ rest) = checkMappings 0 rest := by
  induction n with
  | zero => rfl
  | succ n ih =>
    rw [List.replicate_succ, List.cons_append, checkMappings_separator (Or.inl rfl), ih]

theorem checkMappings_encodeSegments (hmap : map.Small) : ∀ {segments : List Segment}
    {st : EncodeState} (fresh : Bool), st.Fits → (∀ s ∈ segments, s.Fits map) →
    checkMappings 0 (encodeSegments st fresh segments) = .ok ()
  | [], _, _, _, _ => rfl
  | s :: rest, st, fresh, hst, hs => by
    obtain ⟨hfirst, hrest⟩ := List.forall_mem_cons.1 hs
    by_cases hline : st.line < s.line
    · have hnext := hst.atLine s.line
      rw [encodeSegments_below hline, checkMappings_replicate, checkMappings_segment hmap hnext hfirst]
      exact checkMappings_encodeSegments hmap false (encodeSegment_fits hmap hnext hfirst) hrest
    · have hothers := checkMappings_encodeSegments hmap false
        (encodeSegment_fits hmap hst hfirst) hrest
      rw [encodeSegments_onLine hline]
      cases fresh with
      | true => exact (checkMappings_segment hmap hst hfirst _).trans hothers
      | false =>
        exact (checkMappings_separator (Or.inr rfl) _).trans
          ((checkMappings_segment hmap hst hfirst _).trans hothers)

/-! ## Reading back -/

def EncodeState.decoded (st : EncodeState) : DecodeState :=
  ⟨st.column, st.source, st.originLine, st.originColumn, st.name⟩

theorem moved_difference {n : Nat} (h : n < wordLimit) (old : Nat) :
    moved old ((n : Int) - old) = .ok n := by
  unfold moved
  rw [show (old : Int) + ((n : Int) - old) = n by omega, if_neg (by omega), word_natCast h]

theorem readSegment_numbers (hmap : map.Small) (hs : s.Fits map) (line : Nat) :
    readSegment map line st.decoded (segmentNumbers st s) =
      .ok ({ s with line }, (encodeSegment st s).2.decoded) := by
  obtain ⟨sline, column, origin⟩ := s
  cases origin with
  | none =>
    show (moved st.column ((column : Int) - st.column)).bind _ = _
    rw [moved_difference hs.column]
    rfl
  | some o =>
    obtain ⟨source, oline, ocolumn, name⟩ := o
    have hfits := hs.origin _ rfl
    have hsum : (st.source : Int) + ((source : Int) - st.source) = source := by omega
    have hknown : word (source : Int) = source :=
      word_natCast (Nat.lt_of_lt_of_le hfits.source hmap.sources)
    have hsource : ¬ ((source : Int) < 0 ∨ (map.sources.length : Int) ≤ source) := by
      have := hfits.source
      simp only at this
      omega
    have hcolumn := moved_difference hs.column st.column
    have hline := moved_difference hfits.line st.originLine
    have hocolumn := moved_difference hfits.column st.originColumn
    simp only at hcolumn hline hocolumn
    cases name with
    | none =>
      simp only [segmentNumbers, readSegment, readOrigin, EncodeState.decoded, Option.map_none,
        Option.toList_none, List.append_nil, hcolumn, hline, hocolumn, hsum, if_neg hsource,
        encodeSegment, bind, Except.bind, pure, Except.pure, hknown]
    | some n =>
      have hn := hfits.name n rfl
      have hword : word ((st.name : Int) + ((n : Int) - st.name)) = n := by
        rw [show (st.name : Int) + ((n : Int) - st.name) = n by omega,
          word_natCast (Nat.lt_of_lt_of_le hn hmap.names)]
      simp only [segmentNumbers, readSegment, readOrigin, EncodeState.decoded, Option.map_some,
        Option.toList_some, List.cons_append, List.nil_append, hcolumn, hline, hocolumn, hsum,
        if_neg hsource, hword, if_neg (Nat.not_le.2 hn), encodeSegment, bind, Except.bind, pure,
        Except.pure, hknown]

/-- What is left of a line and the lines behind it, read from the middle of the line. -/
def readOn (map : SourceMap) (line : Nat) (st : DecodeState) :
    List (List Char) → Except SourceMapError (List Segment)
  | [] => .ok []
  | text :: rest => do
    let (segments, st) ← readLine map line st (text.splitOn ',')
    let others ← readLines map (line + 1) st rest
    return segments ++ others

theorem readLines_eq_readOn (line : Nat) (dst : DecodeState) (texts : List (List Char)) :
    readLines map line dst texts = readOn map line { dst with column := 0 } texts := by
  cases texts <;> rfl

theorem readOn_cons_nil (line : Nat) (dst : DecodeState) (texts : List (List Char)) :
    readOn map line dst ([] :: texts) = readLines map (line + 1) dst texts := by
  show (readLines map (line + 1) dst texts).bind _ = _
  cases readLines map (line + 1) dst texts <;> rfl

theorem readLines_replicate (n line : Nat) (dst : DecodeState) (texts : List (List Char)) :
    readOn map line dst (List.replicate (n + 1) [] ++ texts) =
      readOn map (line + n + 1) { dst with column := 0 } texts := by
  induction n generalizing line dst with
  | zero => rw [← readLines_eq_readOn]; exact readOn_cons_nil line dst texts
  | succ n ih =>
    rw [List.replicate_succ, List.cons_append, readOn_cons_nil, readLines_eq_readOn, ih]
    show readOn map (line + 1 + n + 1) _ texts = _
    rw [show line + 1 + n + 1 = line + (n + 1) + 1 by omega]

/-- A comma changes nothing in front of what is read. -/
theorem readOn_comma (line : Nat) (dst : DecodeState) (cs : List Char) :
    readOn map line dst ((',' :: cs).splitOn ';') = readOn map line dst (cs.splitOn ';') := by
  rw [← List.singleton_append, splitOn_append (by decide)]
  obtain ⟨first, others, hsplit⟩ := List.exists_cons_of_ne_nil (List.splitOn_ne_nil ';' cs)
  rw [hsplit]
  show (readLine map line dst ((',' :: first).splitOn ',')).bind _ = _
  rw [splitOn_cons_self]
  rfl

/-- What can stand behind a segment: nothing, or a separator. -/
def Separated (cs : List Char) : Prop := ∀ c ∈ cs.head?, c = ',' ∨ c = ';'

theorem encodeSegments_separated (st : EncodeState) (segments : List Segment) :
    Separated (encodeSegments st false segments) := by
  intro c hc
  cases segments with
  | nil => cases hc
  | cons s rest =>
    by_cases hline : st.line < s.line
    · obtain ⟨n, hn⟩ : ∃ n, s.line - st.line = n + 1 := ⟨s.line - st.line - 1, by omega⟩
      rw [encodeSegments_below hline, hn, List.replicate_succ] at hc
      exact Or.inr (Option.some.inj hc).symm
    · rw [encodeSegments_onLine hline] at hc
      exact Or.inl (Option.some.inj hc).symm

/-- A segment in front of a separator is read, and then the rest. -/
theorem readOn_segment (hmap : map.Small) (hs : s.Fits map) (line : Nat) {rest : List Char}
    (hrest : Separated rest) :
    readOn map line st.decoded (((encodeSegment st s).1 ++ rest).splitOn ';') =
      (readOn map line (encodeSegment st s).2.decoded (rest.splitOn ';')).map
        ({ s with line } :: ·) := by
  obtain ⟨hsemicolon, hcomma⟩ := separator_not_mem_segment st s
  obtain ⟨first, others, hsplit⟩ := List.exists_cons_of_ne_nil (List.splitOn_ne_nil ';' rest)
  -- the segment ends here: the rest of its line is empty or begins with a comma
  have hfirst : ∃ tail, first.splitOn ',' = [] :: tail := by
    cases rest with
    | nil => cases hsplit; exact ⟨[], rfl⟩
    | cons c cs =>
      rcases hrest c rfl with rfl | rfl
      · rw [List.splitOn_cons_eq_if_modifyHead, if_neg (by decide)] at hsplit
        obtain ⟨head, tail, htail⟩ := List.exists_cons_of_ne_nil (List.splitOn_ne_nil ';' cs)
        rw [htail] at hsplit
        cases hsplit
        exact ⟨_, splitOn_cons_self ',' head⟩
      · rw [splitOn_cons_self] at hsplit
        cases hsplit
        exact ⟨[], rfl⟩
  obtain ⟨tail, htail⟩ := hfirst
  have hdecode : Vlq.decode? (encodeSegment st s).1 = some (segmentNumbers st s) := by
    rw [encodeSegment_text, Vlq.decode?_encode]
  rw [splitOn_append hsemicolon, hsplit]
  show (readLine map line st.decoded (((encodeSegment st s).1 ++ first).splitOn ',')).bind _ =
    Except.map _ ((readLine map line _ (first.splitOn ',')).bind _)
  rw [splitOn_append hcomma, htail]
  simp only [List.modifyHead_cons, List.append_nil, readLine, if_neg (encodeSegment_ne_nil st s),
    hdecode, Option.getD_some, readSegment_numbers hmap hs, if_true, bind, Except.bind]
  cases readLine map line (encodeSegment st s).2.decoded tail with
  | error e => rfl
  | ok read =>
    simp only [pure, Except.pure]
    cases readLines map (line + 1) read.2 others <;> rfl

/-- Segments in increasing order of lines are read back from the place where they were written. -/
theorem readOn_encodeSegments (hmap : map.Small) : ∀ {segments : List Segment} (st : EncodeState)
    (fresh : Bool), (∀ s ∈ segments, s.Fits map) → (∀ s ∈ segments, st.line ≤ s.line) →
    segments.Pairwise (·.line ≤ ·.line) →
    readOn map st.line st.decoded ((encodeSegments st fresh segments).splitOn ';') = .ok segments
  | [], st, _, _, _, _ => rfl
  | s :: rest, st, fresh, hs, hlines, hsorted => by
    obtain ⟨hfirst, hrest⟩ := List.forall_mem_cons.1 hs
    obtain ⟨hle, -⟩ := List.forall_mem_cons.1 hlines
    obtain ⟨hbefore, hsorted⟩ := List.pairwise_cons.1 hsorted
    -- both on the line and below it, the segment is read in a state `next` at its own line
    have hread : ∀ next : EncodeState, next.line = s.line →
        readOn map s.line next.decoded (((encodeSegment next s).1 ++
          encodeSegments (encodeSegment next s).2 false rest).splitOn ';') = .ok (s :: rest) := by
      intro next hnext
      have hline := (encodeSegment_line next s).trans hnext
      have hothers := readOn_encodeSegments hmap (encodeSegment next s).2 false hrest
        (fun t ht => by rw [hline]; exact hbefore t ht) hsorted
      rw [hline] at hothers
      rw [readOn_segment hmap hfirst s.line (encodeSegments_separated _ rest), hothers]
      rfl
    by_cases hline : st.line < s.line
    · obtain ⟨n, hn⟩ : ∃ n, s.line - st.line = n + 1 := ⟨s.line - st.line - 1, by omega⟩
      rw [encodeSegments_below hline, hn, splitOn_replicate, readLines_replicate,
        show st.line + n + 1 = s.line by omega]
      exact hread (st.atLine s.line) rfl
    · have heq : st.line = s.line := by omega
      rw [encodeSegments_onLine hline, heq]
      cases fresh with
      | true => exact hread st heq
      | false => exact (readOn_comma s.line st.decoded _).trans (hread st heq)

/-- The mappings text of sorted segments decodes to the segments. -/
theorem decode_mappingsText (hmap : map.Small) (hversion : map.version = 3)
    {segments : List Segment} (htext : map.mappings = mappingsText segments)
    (hs : ∀ s ∈ segments, s.Fits map) (hsorted : segments.Pairwise (·.line ≤ ·.line)) :
    map.decode = .ok segments := by
  have hlist : map.mappings.toList = encodeSegments .start true segments := by
    rw [htext, mappingsText, String.toList_ofList]
  have hcheck := checkMappings_encodeSegments hmap true EncodeState.start_fits hs
  have hread := readOn_encodeSegments hmap .start true hs (fun _ _ => Nat.zero_le _) hsorted
  rw [← hread]
  simp only [SourceMap.decode, hlist, hcheck, hversion, bind, Except.bind, ne_eq, not_true_eq_false,
    if_false]
  exact readLines_eq_readOn 0 _ _

end

end MessageCatalog
