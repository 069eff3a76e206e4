/-
What a source map says: the readings of its segments, with their sources and names looked up. A
builder records readings, and the map it builds decodes and says what was recorded, as long as all
numbers are words.
-/
import MessageCatalog.Proofs.SourceMap.Mappings
import Mathlib.Data.List.Nodup
import Mathlib.Data.List.Perm.Subperm

namespace MessageCatalog

/-! ## Readings -/

/-- What a segment says: a generated place, the place it comes from, and a name. -/
structure Reading where
  line : Nat
  column : Nat
  source : String
  originLine : Nat
  originColumn : Nat
  name : Option String
  deriving DecidableEq, Repr

/-- The reading of a segment, given the sources and names that its indices stand for. -/
def Segment.reading (sources names : List String) (s : Segment) : Option Reading :=
  match s.origin with
  | none => none
  | some o =>
    match sources[o.source]? with
    | none => none
    | some source =>
      match o.name with
      | none => some ⟨s.line, s.column, source, o.line, o.column, none⟩
      | some n => names[n]?.map fun name => ⟨s.line, s.column, source, o.line, o.column, some name⟩

def SourceMap.reading (map : SourceMap) (s : Segment) : Option Reading :=
  s.reading map.sources map.names

/--
The map decodes, each of its segments says something that holds, and all that holds is said, by one
segment only.
-/
def SourceMap.Tells (map : SourceMap) (holds : Reading → Prop) : Prop :=
  ∃ segments, map.decode = .ok segments ∧ (segments.map map.reading).Nodup ∧
    (∀ s ∈ segments, ∃ r, map.reading s = some r ∧ holds r) ∧
    ∀ r, holds r → ∃ s ∈ segments, map.reading s = some r

theorem SourceMap.Tells.congr {map : SourceMap} {holds holds' : Reading → Prop} (h : map.Tells holds)
    (heq : ∀ r, holds r ↔ holds' r) : map.Tells holds' := by
  obtain ⟨segments, hdecode, honce, heach, hall⟩ := h
  refine ⟨segments, hdecode, honce, fun s hs => ?_, fun r hr => hall r ((heq r).2 hr)⟩
  obtain ⟨r, hr, hholds⟩ := heach s hs
  exact ⟨r, hr, (heq r).1 hholds⟩

/-- What a map says, as the list of the readings of its segments. -/
theorem SourceMap.Tells.readings {map : SourceMap} {holds : Reading → Prop} (h : map.Tells holds) :
    ∃ (segments : List Segment) (readings : List Reading), map.decode = .ok segments ∧
      segments.map map.reading = readings.map some ∧ ∀ r, r ∈ readings ↔ holds r := by
  obtain ⟨segments, hdecode, -, heach, hall⟩ := h
  have hlist : ∀ l : List Segment, (∀ s ∈ l, ∃ r, map.reading s = some r ∧ holds r) →
      ∃ readings : List Reading, l.map map.reading = readings.map some := by
    intro l
    induction l with
    | nil => exact fun _ => ⟨[], rfl⟩
    | cons s l ih =>
      intro hl
      obtain ⟨hs, hl⟩ := List.forall_mem_cons.1 hl
      obtain ⟨r, hr, -⟩ := hs
      obtain ⟨readings, hreadings⟩ := ih hl
      exact ⟨r :: readings, by rw [List.map_cons, hr, hreadings]; rfl⟩
  obtain ⟨readings, hreadings⟩ := hlist segments heach
  refine ⟨segments, readings, hdecode, hreadings, fun r => ⟨fun hr => ?_, fun hr => ?_⟩⟩
  · have hmem : some r ∈ segments.map map.reading := by
      rw [hreadings]
      exact List.mem_map_of_mem hr
    obtain ⟨s, hs, he⟩ := List.mem_map.1 hmem
    obtain ⟨r', hr', hholds⟩ := heach s hs
    rw [he] at hr'
    cases hr'
    exact hholds
  · obtain ⟨s, hs, he⟩ := hall r hr
    have hmem : some r ∈ readings.map some := by
      rw [← hreadings, ← he]
      exact List.mem_map_of_mem hs
    obtain ⟨r', hr', he'⟩ := List.mem_map.1 hmem
    cases he'
    exact hr'

/-- The numbers of a reading are words. -/
structure Reading.Fits (r : Reading) : Prop where
  column : r.column < wordLimit
  originLine : r.originLine < wordLimit
  originColumn : r.originColumn < wordLimit

theorem Segment.reading_append {sources names : List String} {s : Segment} {r : Reading}
    (h : s.reading sources names = some r) (moreSources moreNames : List String) :
    s.reading (sources ++ moreSources) (names ++ moreNames) = some r := by
  have hget : ∀ {l more : List String} {i : Nat} {x : String}, l[i]? = some x →
      (l ++ more)[i]? = some x := by
    intro l more i x hx
    rw [List.getElem?_append_left (List.getElem?_eq_some_iff.1 hx).1, hx]
  unfold Segment.reading at h ⊢
  cases ho : s.origin with
  | none => rw [ho] at h; cases h
  | some o =>
    rw [ho] at h
    simp only at h ⊢
    cases hsource : sources[o.source]? with
    | none => rw [hsource] at h; cases h
    | some source =>
      rw [hsource] at h
      rw [hget hsource]
      cases hname : o.name with
      | none => rw [hname] at h; exact h
      | some n =>
        rw [hname] at h
        simp only at h ⊢
        obtain ⟨name, hn, rfl⟩ := Option.map_eq_some_iff.1 h
        rw [hget hn]
        rfl

/-- A segment with a reading, taken apart. -/
theorem Segment.reading_eq_some {sources names : List String} {s : Segment} {r : Reading}
    (h : s.reading sources names = some r) :
    ∃ source name, s = ⟨r.line, r.column, some ⟨source, r.originLine, r.originColumn, name⟩⟩ ∧
      sources[source]? = some r.source ∧ name.bind (names[·]?) = r.name ∧
      ∀ n ∈ name, n < names.length := by
  obtain ⟨line, column, origin⟩ := s
  unfold Segment.reading at h
  cases origin with
  | none => cases h
  | some o =>
    obtain ⟨id, oline, ocolumn, name⟩ := o
    simp only at h
    cases hsource : sources[id]? with
    | none => rw [hsource] at h; cases h
    | some source =>
      rw [hsource] at h
      cases name with
      | none => cases h; exact ⟨id, none, rfl, hsource, rfl, nofun⟩
      | some n =>
        obtain ⟨name, hn, rfl⟩ := Option.map_eq_some_iff.1 h
        refine ⟨id, some n, rfl, hsource, hn, ?_⟩
        rintro _ ⟨⟩
        exact (List.getElem?_eq_some_iff.1 hn).1

theorem getElem?_inj {l : List String} (hl : l.Nodup) {i j : Nat} {x : String} (hi : l[i]? = some x)
    (hj : l[j]? = some x) : i = j := by
  obtain ⟨hi, rfl⟩ := List.getElem?_eq_some_iff.1 hi
  obtain ⟨hj, hij⟩ := List.getElem?_eq_some_iff.1 hj
  exact ((List.Nodup.getElem_inj_iff hl).1 hij).symm

/-- A segment is known by its reading where sources and names are listed once each. -/
theorem Segment.reading_inj {sources names : List String} (hsources : sources.Nodup)
    (hnames : names.Nodup) {s t : Segment} {r : Reading} (hs : s.reading sources names = some r)
    (ht : t.reading sources names = some r) : s = t := by
  obtain ⟨source, name, rfl, hsource, hname, hbound⟩ := Segment.reading_eq_some hs
  obtain ⟨source', name', rfl, hsource', hname', hbound'⟩ := Segment.reading_eq_some ht
  cases getElem?_inj hsources hsource hsource'
  have hsame : name = name' := by
    rw [← hname'] at hname
    cases name with
    | none =>
      cases name' with
      | none => rfl
      | some n' =>
        rw [Option.bind_none, Option.bind_some, List.getElem?_eq_getElem (hbound' n' rfl)] at hname
        cases hname
    | some n =>
      have hn := List.getElem?_eq_getElem (hbound n rfl)
      rw [Option.bind_some, hn] at hname
      cases name' with
      | none => cases hname
      | some n' => rw [getElem?_inj hnames hn hname.symm]
  rw [hsame]

/-- A segment that has a reading has an origin that the map knows. -/
theorem Segment.fits_of_reading {map : SourceMap} {s : Segment} {r : Reading}
    (h : map.reading s = some r) (hr : r.Fits) : s.Fits map := by
  obtain ⟨source, name, rfl, hsource, -, hname⟩ := Segment.reading_eq_some h
  refine ⟨hr.column, ?_⟩
  rintro _ ⟨⟩
  exact ⟨(List.getElem?_eq_some_iff.1 hsource).1, hr.originLine, hr.originColumn, hname⟩

/-! ## Sorting -/

theorem compareLists_eq_gt : ∀ {a b : List Nat}, compareLists a b = .gt ↔ b < a
  | [], [] => by simp [compareLists]
  | [], b :: bs => by simp [compareLists]
  | a :: as, [] => by simp [compareLists]
  | a :: as, b :: bs => by
    rw [compareLists, List.cons_lt_cons_iff]
    rcases Nat.lt_trichotomy a b with h | rfl | h
    · rw [Nat.compare_eq_lt.2 h]
      simp only [reduceCtorEq, false_iff]
      omega
    · rw [Nat.compare_eq_eq.2 rfl]
      simp [compareLists_eq_gt]
    · rw [Nat.compare_eq_gt.2 h]
      simp [h]

theorem Segment.le_iff {a b : Segment} : a.le b = true ↔ ¬ b.key < a.key := by
  unfold Segment.le
  rw [bne_iff_ne, ne_eq, compareLists_eq_gt]

theorem Segment.line_le {a b : Segment} (h : a.le b = true) : a.line ≤ b.line := by
  rw [Segment.le_iff] at h
  by_contra hlt
  exact h (List.cons_lt_cons_iff.2 (Or.inl (Nat.not_le.1 hlt)))

/-- Segments that are in order are in the order of their generated places. -/
theorem Segment.place_le {a b : Segment} (h : a.le b = true) :
    a.line < b.line ∨ a.line = b.line ∧ a.column ≤ b.column := by
  rw [Segment.le_iff] at h
  by_contra hnot
  refine h (List.cons_lt_cons_iff.2 ?_)
  rcases Nat.lt_trichotomy b.line a.line with hline | hline | hline
  · exact Or.inl hline
  · exact Or.inr ⟨hline, List.cons_lt_cons_iff.2 (Or.inl (by omega))⟩
  · omega

theorem Segment.key_inj {a b : Segment} (h : a.key = b.key) : a = b := by
  obtain ⟨aline, acolumn, aorigin⟩ := a
  obtain ⟨bline, bcolumn, borigin⟩ := b
  simp only [Segment.key, List.cons_append, List.nil_append, List.cons.injEq] at h
  obtain ⟨rfl, rfl, h⟩ := h
  have horigin : aorigin = borigin := by
    rcases aorigin with _ | ⟨asource, aoline, aocolumn, _ | aname⟩ <;>
      rcases borigin with _ | ⟨bsource, boline, bocolumn, _ | bname⟩ <;> simp_all
  rw [horigin]

theorem Segment.le_antisymm {a b : Segment} (hab : a.le b = true) (hba : b.le a = true) : a = b := by
  rw [Segment.le_iff] at hab hba
  exact Segment.key_inj (List.le_antisymm (List.not_lt.1 hab) (List.not_lt.1 hba))

theorem dropRepeats_sublist : ∀ segments : List Segment, (dropRepeats segments).Sublist segments
  | [] => .slnil
  | [a] => .refl _
  | a :: b :: rest => by
    rw [dropRepeats]
    split
    · exact (dropRepeats_sublist (b :: rest)).cons a
    · exact (dropRepeats_sublist (b :: rest)).cons_cons a

theorem mem_dropRepeats {s : Segment} : ∀ {segments : List Segment},
    s ∈ dropRepeats segments ↔ s ∈ segments
  | [] => Iff.rfl
  | [a] => Iff.rfl
  | a :: b :: rest => by
    have ih := @mem_dropRepeats s (b :: rest)
    rw [dropRepeats]
    split
    · rename_i h
      subst h
      rw [ih]
      exact ⟨List.mem_cons_of_mem a, fun h => (List.mem_cons.1 h).elim (· ▸ List.mem_cons_self) id⟩
    · rw [List.mem_cons, ih]
      exact List.mem_cons.symm

theorem mem_sortSegments {s : Segment} {segments : List Segment} :
    s ∈ sortSegments segments ↔ s ∈ segments := by
  rw [sortSegments, mem_dropRepeats, List.mem_mergeSort]

/-- What is dropped from sorted segments are all the repeats. -/
theorem dropRepeats_nodup : ∀ {segments : List Segment}, segments.Pairwise (·.le · = true) →
    (dropRepeats segments).Nodup
  | [], _ => List.nodup_nil
  | [a], _ => List.pairwise_singleton _ a
  | a :: b :: rest, h => by
    obtain ⟨ha, hrest⟩ := List.pairwise_cons.1 h
    have ih := dropRepeats_nodup hrest
    rw [dropRepeats]
    split
    · exact ih
    · rename_i hab
      refine List.nodup_cons.2 ⟨fun hmem => ?_, ih⟩
      -- an equal segment further on would have all between them equal
      rcases List.mem_cons.1 (mem_dropRepeats.1 hmem) with rfl | hmem
      · exact hab rfl
      · exact hab (Segment.le_antisymm (ha b List.mem_cons_self) ((List.pairwise_cons.1 hrest).1 a hmem))

theorem sortSegments_le (segments : List Segment) :
    (segments.mergeSort Segment.le).Pairwise (·.le · = true) := by
  have htrans : ∀ a b c : Segment, a.le b = true → b.le c = true → a.le c = true := by
    intro a b c hab hbc
    rw [Segment.le_iff] at hab hbc ⊢
    exact List.not_lt.2 (List.le_trans (List.not_lt.1 hab) (List.not_lt.1 hbc))
  have htotal : ∀ a b : Segment, (a.le b || b.le a) = true := by
    intro a b
    rw [Bool.or_eq_true, Segment.le_iff, Segment.le_iff]
    exact (List.le_total a.key b.key).imp List.not_lt.2 List.not_lt.2
  exact List.pairwise_mergeSort htrans htotal segments

theorem sortSegments_sorted (segments : List Segment) :
    (sortSegments segments).Pairwise (·.line ≤ ·.line) :=
  ((sortSegments_le segments).sublist (dropRepeats_sublist _)).imp Segment.line_le

theorem sortSegments_nodup (segments : List Segment) : (sortSegments segments).Nodup :=
  dropRepeats_nodup (sortSegments_le segments)

/-! ## Recording -/

namespace SourceMapBuilder

/-- The segments of a builder say what is listed, in order, and only names in use are kept. -/
structure Records (b : SourceMapBuilder) (readings : List Reading) : Prop where
  reads : b.segments.toList.map (Segment.reading b.sources.toList b.names.toList) =
    readings.map some
  nodup : b.names.toList.Nodup
  sourcesNodup : b.sources.toList.Nodup
  used : ∀ name ∈ b.names.toList, ∃ r ∈ readings, r.name = some name

theorem new_records (file : Option String) : (new file).Records [] :=
  ⟨rfl, List.nodup_nil, List.nodup_nil, nofun⟩

variable {b : SourceMapBuilder} {readings : List Reading}

/-- Every segment has one of the readings. -/
theorem Records.reading_of_mem (h : b.Records readings) {s : Segment} (hs : s ∈ b.segments.toList) :
    ∃ r ∈ readings, s.reading b.sources.toList b.names.toList = some r := by
  have hmem : s.reading b.sources.toList b.names.toList ∈ readings.map some := by
    rw [← h.reads]
    exact List.mem_map_of_mem hs
  obtain ⟨r, hr, he⟩ := List.mem_map.1 hmem
  exact ⟨r, hr, he.symm⟩

/-- More sources and names behind those of a builder leave its readings as they are. -/
theorem Records.reads_append (h : b.Records readings) (sources names : List String) :
    b.segments.toList.map (Segment.reading (b.sources.toList ++ sources) (b.names.toList ++ names)) =
      readings.map some := by
  rw [← h.reads]
  refine List.map_congr_left fun s hs => ?_
  obtain ⟨r, -, hr⟩ := h.reading_of_mem hs
  rw [hr, Segment.reading_append hr]

theorem idxOf?_spec (names : Array String) (name : String) :
    (∃ id, names.idxOf? name = some id ∧ names.toList[id]? = some name) ∨
      (names.idxOf? name = none ∧ name ∉ names.toList) := by
  obtain ⟨names⟩ := names
  rw [List.idxOf?_toArray]
  cases h : names.idxOf? name with
  | none => exact Or.inr ⟨rfl, List.idxOf?_eq_none_iff.1 h⟩
  | some id =>
    obtain ⟨hid, hname, -⟩ := List.idxOf?_eq_some_iff.1 h
    exact Or.inl ⟨id, rfl, List.getElem?_eq_some_iff.2 ⟨hid, hname⟩⟩

theorem nodup_snoc {l : List String} {x : String} (hl : l.Nodup) (hx : x ∉ l) : (l ++ [x]).Nodup :=
  List.nodup_append.2 ⟨hl, List.pairwise_singleton _ x,
    fun _ ha _ hn he => hx (List.mem_singleton.1 hn ▸ he ▸ ha)⟩

/-- A source is found under its number; the sources before it keep theirs. -/
theorem addSource_spec (b : SourceMapBuilder) (source : String) :
    ∃ added, (b.addSource source).2.sources.toList = b.sources.toList ++ added ∧
      (source ∈ b.sources.toList → added = []) ∧
      (b.sources.toList.Nodup → (b.sources.toList ++ added).Nodup) ∧
      (∀ s ∈ added, s = source) ∧ added.length ≤ 1 ∧
      (b.addSource source).2.sources.toList[(b.addSource source).1]? = some source := by
  unfold addSource
  rcases idxOf?_spec b.sources source with ⟨id, hid, hget⟩ | ⟨hid, hnot⟩
  · rw [hid]
    exact ⟨[], (List.append_nil _).symm, fun _ => rfl, fun h => by rwa [List.append_nil], nofun,
      Nat.zero_le 1, hget⟩
  · rw [hid]
    exact ⟨[source], by simp, fun h => absurd h hnot, fun h => nodup_snoc h hnot, by simp,
      Nat.le_refl 1, by simp⟩

theorem addSource_new (file : Option String) (source : String) :
    (new file).addSource source = (0, ⟨file, #[source], #[none], #[], #[]⟩) := by
  have hnone : (new file).sources.idxOf? source = none := Array.idxOf?_empty
  unfold addSource
  rw [hnone]
  rfl

theorem addSource_segments (b : SourceMapBuilder) (source : String) :
    (b.addSource source).2.segments = b.segments ∧ (b.addSource source).2.names = b.names := by
  unfold addSource
  split <;> exact ⟨rfl, rfl⟩

theorem Records.addSource (h : b.Records readings) (source : String) :
    (b.addSource source).2.Records readings := by
  obtain ⟨added, hsources, -, hnodup, -⟩ := addSource_spec b source
  obtain ⟨hsegments, hnames⟩ := addSource_segments b source
  refine ⟨?_, by rw [hnames]; exact h.nodup, by rw [hsources]; exact hnodup h.sourcesNodup,
    by rw [hnames]; exact h.used⟩
  have hreads := h.reads_append added []
  rw [List.append_nil] at hreads
  rw [hsegments, hnames, hsources, hreads]

theorem Records.setContent (h : b.Records readings) (source : Nat) (content : String) :
    (b.setContent source content).Records readings := ⟨h.reads, h.nodup, h.sourcesNodup, h.used⟩

theorem addName_spec (b : SourceMapBuilder) (name : String) :
    ∃ added, (b.addName name).2 = { b with names := (b.names.toList ++ added).toArray } ∧
      (b.names.toList.Nodup → (b.names.toList ++ added).Nodup) ∧ (∀ n ∈ added, n = name) ∧
      (b.names.toList ++ added)[(b.addName name).1]? = some name := by
  unfold addName
  rcases idxOf?_spec b.names name with ⟨id, hid, hget⟩ | ⟨hid, hnot⟩
  · rw [hid]
    refine ⟨[], ?_, fun h => by rwa [List.append_nil], nofun, by rw [List.append_nil]; exact hget⟩
    rw [List.append_nil, Array.toArray_toList]
  · rw [hid]
    refine ⟨[name], ?_, fun h => ?_, by simp, by simp⟩
    · rw [← Array.toList_push, Array.toArray_toList]
    · exact nodup_snoc h hnot

theorem addMapping_sources (b : SourceMapBuilder) (line column id oline ocolumn : Nat)
    (name : Option String) :
    (b.addMapping line column id oline ocolumn name).sources = b.sources := by
  cases name with
  | none => rfl
  | some name =>
    obtain ⟨added, hadded, -⟩ := addName_spec b name
    simp only [addMapping, hadded]

theorem addMapping_contents (b : SourceMapBuilder) (line column id oline ocolumn : Nat)
    (name : Option String) :
    (b.addMapping line column id oline ocolumn name).contents = b.contents := by
  cases name with
  | none => rfl
  | some name =>
    obtain ⟨added, hadded, -⟩ := addName_spec b name
    simp only [addMapping, hadded]

/-- A mapping from a source that is known is recorded as one more reading. -/
theorem Records.addMapping (h : b.Records readings) {id : Nat} {source : String}
    (hid : b.sources.toList[id]? = some source) (line column originLine originColumn : Nat)
    (name : Option String) :
    (b.addMapping line column id originLine originColumn name).Records
      (readings ++ [⟨line, column, source, originLine, originColumn, name⟩]) := by
  cases name with
  | none =>
    refine ⟨?_, h.nodup, h.sourcesNodup, ?_⟩
    · show List.map _ (b.segments.push _).toList = _
      rw [Array.toList_push, List.map_append, List.map_append, ← h.reads]
      simp [Segment.reading, hid, SourceMapBuilder.addMapping]
    · intro name hname
      obtain ⟨r, hr, hrn⟩ := h.used name hname
      exact ⟨r, List.mem_append_left _ hr, hrn⟩
  | some name =>
    obtain ⟨added, hadded, hnodup, honly, hget⟩ := addName_spec b name
    have hb : b.addMapping line column id originLine originColumn (some name) =
        { b with
          names := (b.names.toList ++ added).toArray
          segments := b.segments.push
            ⟨line, column, some ⟨id, originLine, originColumn, some (b.addName name).1⟩⟩ } := by
      simp only [SourceMapBuilder.addMapping, hadded]
    -- names are only added behind the others, so what was recorded reads as before
    have hreads := h.reads_append [] added
    rw [List.append_nil] at hreads
    rw [hb]
    refine ⟨?_, hnodup h.nodup, h.sourcesNodup, ?_⟩
    · show List.map (Segment.reading b.sources.toList (b.names.toList ++ added))
        (b.segments.push _).toList = _
      rw [Array.toList_push, List.map_append, List.map_append, hreads]
      simp [Segment.reading, hid, hget]
    · intro n hn
      rcases List.mem_append.1 hn with hn | hn
      · obtain ⟨r, hr, hrn⟩ := h.used n hn
        exact ⟨r, List.mem_append_left _ hr, hrn⟩
      · exact ⟨_, List.mem_append_right _ (List.mem_singleton.2 rfl), by rw [honly n hn]⟩

/-! ## The built map -/

theorem build_sourcesContent {source : String} (h : b.contents.toList = [some source]) :
    b.build.sourcesContent = some [some source] := by
  have hany : b.contents.any Option.isSome = true := by
    rw [← Array.any_toList, h]
    rfl
  show (if b.contents.any Option.isSome then some b.contents.toList else none) = _
  rw [if_pos hany, h]

/-- The names of a builder are no more than the readings that use them. -/
theorem Records.names_le (h : b.Records readings) (names : List String)
    (hnames : ∀ r ∈ readings, ∀ name ∈ r.name, name ∈ names) : b.names.size ≤ names.length := by
  rw [← Array.length_toList]
  refine (List.subperm_of_subset h.nodup fun name hname => ?_).length_le
  obtain ⟨r, hr, hrn⟩ := h.used name hname
  exact hnames r hr name hrn

/-- What is decoded of a built map are its segments in order, each once. -/
theorem Records.decodes (h : b.Records readings) (hfits : ∀ r ∈ readings, r.Fits)
    (hsources : b.sources.size ≤ wordLimit) (hnames : b.names.size ≤ wordLimit) :
    b.build.decode = .ok (sortSegments b.segments.toList) := by
  have hsmall : b.build.Small := ⟨hsources, hnames⟩
  refine decode_mappingsText hsmall rfl rfl ?_ (sortSegments_sorted _)
  intro s hs
  obtain ⟨r, hr, he⟩ := h.reading_of_mem (mem_sortSegments.1 hs)
  exact Segment.fits_of_reading he (hfits r hr)

/-- A built map says what was recorded. -/
theorem Records.tells (h : b.Records readings) (hfits : ∀ r ∈ readings, r.Fits)
    (hsources : b.sources.size ≤ wordLimit) (hnames : b.names.size ≤ wordLimit) :
    b.build.Tells (· ∈ readings) := by
  have hreads : ∀ s ∈ b.segments.toList, ∃ r ∈ readings, b.build.reading s = some r :=
    fun s hs => h.reading_of_mem hs
  -- sorting keeps the segments as a set
  refine ⟨_, h.decodes hfits hsources hnames, ?_, ?_, ?_⟩
  · refine List.Nodup.map_on (fun s hs t ht he => ?_) (sortSegments_nodup b.segments.toList)
    obtain ⟨r, hr, hreading⟩ := hreads s (mem_sortSegments.1 hs)
    exact Segment.reading_inj h.sourcesNodup h.nodup hreading (he.symm.trans hreading)
  · intro s hs
    obtain ⟨r, hr, he⟩ := hreads s (mem_sortSegments.1 hs)
    exact ⟨r, he, hr⟩
  · intro r hr
    have hmem : some r ∈ b.segments.toList.map (Segment.reading b.sources.toList b.names.toList) := by
      rw [h.reads]
      exact List.mem_map_of_mem hr
    obtain ⟨s, hs, he⟩ := List.mem_map.1 hmem
    exact ⟨s, mem_sortSegments.2 hs, he⟩

end SourceMapBuilder

end MessageCatalog
