/-
Moving the map of a fragment into a token. The moved map lists each source once, but its segments keep
the numbers that their sources had in the list of the fragment. Where these numbers stand for the same
sources in both lists, and so wherever no source is listed twice, the moved map says what the fragment
says, with every origin at the column that the table has for it.
-/
import MessageCatalog.Proofs.Emission.LiteralColumns
import MessageCatalog.Proofs.SourceMap.Merge
import MessageCatalog.Proofs.SourceMap.Recording

namespace MessageCatalog.Emission

open SourceMapBuilder

variable {map moved : SourceMap} {columns : ColumnTable}

/-! ## Sources -/

/-- The numbers of the sources in use stand for the same ones when no source is listed twice. -/
def KeepsSources (map : SourceMap) (segments : List Segment) : Prop :=
  ∀ s ∈ segments, ∀ o ∈ s.origin, map.sources.eraseDups[o.source]? = map.sources[o.source]?

theorem eraseDups_of_nodup {l : List String} (h : l.Nodup) : l.eraseDups = l := by
  induction l using List.reverseRecOn with
  | nil => rfl
  | append_singleton l x ih =>
    obtain ⟨hl, -, hdisjoint⟩ := List.nodup_append.1 h
    have hx : x ∉ l := fun hx => hdisjoint x hx x (List.mem_singleton.2 rfl) rfl
    rw [eraseDups_snoc, if_neg hx, ih hl]

theorem keepsSources_of_nodup (h : map.sources.Nodup) (segments : List Segment) :
    KeepsSources map segments := by
  intro s _ o _
  rw [eraseDups_of_nodup h]

theorem addSources_sources (file : Option String) (sources : List String) :
    (sources.foldl (fun b s => (b.addSource s).2) (new file)).sources.toList =
      sources.eraseDups := by
  induction sources using List.reverseRecOn with
  | nil => rfl
  | append_singleton sources source ih =>
    rw [List.foldl_append, List.foldl_cons, List.foldl_nil, addSource_sources, ih, eraseDups_snoc]
    simp only [List.mem_eraseDups]

theorem addSources_records (sources : List String) {b : SourceMapBuilder} {readings : List Reading}
    (h : b.Records readings) :
    (sources.foldl (fun b s => (b.addSource s).2) b).Records readings := by
  induction sources generalizing b with
  | nil => exact h
  | cons source sources ih => exact ih (h.addSource source)

/-! ## Segments -/

/-- What a segment of a fragment says when its origin is moved to the column of a table. -/
def movedReading? (map : SourceMap) (columns : ColumnTable) (s : Segment) : Option Reading :=
  (map.reading s).bind fun r =>
    (columns.lookup (r.originLine, r.originColumn)).map fun column => atColumn r column

/-- A segment that is moved is recorded with its reading; one without an origin is left out. -/
theorem rebaseSegment?_moves {s : Segment} (hs : s.Decoded map) {b next : SourceMapBuilder}
    (hkeeps : ∀ o ∈ s.origin, b.sources.toList[o.source]? = map.sources[o.source]?)
    (h : rebaseSegment? map columns b s = some next) {readings : List Reading}
    (hb : b.Records readings) :
    next.Records (readings ++ (movedReading? map columns s).toList) ∧
      next.sources = b.sources := by
  unfold rebaseSegment? at h
  cases horigin : s.origin with
  | none =>
    rw [horigin] at h
    cases h
    have hnone : map.reading s = none := by
      unfold SourceMap.reading Segment.reading
      rw [horigin]
    rw [movedReading?, hnone, Option.bind_none, Option.toList_none, List.append_nil]
    exact ⟨hb, rfl⟩
  | some o =>
    rw [horigin] at h
    obtain ⟨column, hcolumn, h⟩ := Option.bind_eq_some_iff.1 h
    cases h
    obtain ⟨source, hsource, hreading⟩ := hs.reading horigin
    have hmoved : movedReading? map columns s =
        some ⟨s.line, s.column, source, 0, column, o.name.bind map.name?⟩ := by
      rw [movedReading?, hreading, Option.bind_some, hcolumn]
      rfl
    rw [hmoved]
    exact ⟨hb.addMapping ((hkeeps o horigin).trans hsource) _ _ _ _ _, addMapping_sources ..⟩

/-- All segments that are moved are recorded with their readings. -/
theorem rebaseSegments?_moves : ∀ {segments : List Segment} {b last : SourceMapBuilder}
    {readings : List Reading}, (∀ s ∈ segments, s.Decoded map) →
    (∀ s ∈ segments, ∀ o ∈ s.origin, b.sources.toList[o.source]? = map.sources[o.source]?) →
    segments.foldlM (rebaseSegment? map columns) b = some last → b.Records readings →
    last.Records (readings ++ segments.filterMap (movedReading? map columns)) ∧
      last.sources = b.sources
  | [], b, last, readings, _, _, h, hb => by
    cases h
    rw [List.filterMap_nil, List.append_nil]
    exact ⟨hb, rfl⟩
  | s :: rest, b, last, readings, hdecoded, hkeeps, h, hb => by
    obtain ⟨hs, hothers⟩ := List.forall_mem_cons.1 hdecoded
    obtain ⟨hkept, hkeeps⟩ := List.forall_mem_cons.1 hkeeps
    obtain ⟨next, hnext, hrest⟩ := Option.bind_eq_some_iff.1 h
    obtain ⟨hrecords, hsources⟩ := rebaseSegment?_moves hs hkept hnext hb
    rw [← hsources] at hkeeps
    obtain ⟨hlast, hlastSources⟩ := rebaseSegments?_moves hothers hkeeps hrest hrecords
    have hreadings : (s :: rest).filterMap (movedReading? map columns) =
        (movedReading? map columns s).toList ++ rest.filterMap (movedReading? map columns) := by
      cases hmoved : movedReading? map columns s with
      | none => rw [List.filterMap_cons_none hmoved]; rfl
      | some r => rw [List.filterMap_cons_some hmoved]; rfl
    rw [List.append_assoc, ← hreadings] at hlast
    exact ⟨hlast, hlastSources.trans hsources⟩

/-- What is said of a moved segment is in words, and its name is one of the fragment. -/
theorem movedReading?_fits {s : Segment} (hs : s.Decoded map)
    (hcolumns : ∀ entry ∈ columns, entry.2 < wordLimit) {r : Reading}
    (h : movedReading? map columns s = some r) :
    r.Fits ∧ ∀ name ∈ r.name, name ∈ map.names.take wordLimit := by
  obtain ⟨reading, hreading, h⟩ := Option.bind_eq_some_iff.1 h
  obtain ⟨column, hcolumn, rfl⟩ := Option.map_eq_some_iff.1 h
  obtain ⟨front, back, hentry, -⟩ := List.lookup_eq_some_iff.1 hcolumn
  have hword := hcolumns _ (hentry ▸ List.mem_append_right front List.mem_cons_self)
  obtain ⟨id, number, rfl, -, hname, -⟩ := Segment.reading_eq_some hreading
  refine ⟨⟨hs.column, by show 0 < wordLimit; decide, hword⟩, fun name hmem => ?_⟩
  obtain ⟨n, rfl, hn⟩ := Option.bind_eq_some_iff.1 (hname.trans hmem)
  exact mem_take_of_getElem? hn ((hs.origin _ rfl).name n rfl).2

/-! ## The map -/

/--
A fragment that is moved decodes, and all its origins have a column. If the numbers of its sources are
kept, then the moved map decodes as well and says of every segment with an origin what the fragment
says, from the first line of the source and the column that the table has; it says nothing else.
-/
theorem rebaseFragment?_moves (h : rebaseFragment? map columns = some moved)
    (hcolumns : ∀ entry ∈ columns, entry.2 < wordLimit) (hsources : map.sources.length ≤ wordLimit) :
    ∃ segments, map.decode = .ok segments ∧
      (∀ s ∈ segments, ∀ o ∈ s.origin, (columns.lookup (o.line, o.column)).isSome) ∧
      (KeepsSources map segments → moved.sources = map.sources.eraseDups ∧
        moved.Tells (· ∈ segments.filterMap (movedReading? map columns))) := by
  unfold rebaseFragment? at h
  obtain ⟨segments, hdecode, h⟩ := Option.bind_eq_some_iff.1 h
  obtain ⟨last, hlast, h⟩ := Option.bind_eq_some_iff.1 h
  cases h
  replace hdecode : map.decode = .ok segments := ok_of_toOption hdecode
  have hdecoded := decode_decoded hdecode
  refine ⟨segments, hdecode, fun s hs o ho => ?_, fun hkeeps => ?_⟩
  · obtain ⟨column, hcolumn⟩ := rebaseSegments?_lookup hlast s hs o ho
    rw [hcolumn]
    rfl
  · obtain ⟨hrecords, hlastSources⟩ := rebaseSegments?_moves hdecoded
      (by rw [addSources_sources]; exact hkeeps) hlast
      (addSources_records map.sources (new_records map.file))
    rw [List.nil_append] at hrecords
    have hlisted : last.sources.toList = map.sources.eraseDups := by
      rw [hlastSources, addSources_sources]
    have hfits : ∀ r ∈ segments.filterMap (movedReading? map columns),
        r.Fits ∧ ∀ name ∈ r.name, name ∈ map.names.take wordLimit := by
      intro r hr
      obtain ⟨s, hs, hmoved⟩ := List.mem_filterMap.1 hr
      exact movedReading?_fits (hdecoded s hs) hcolumns hmoved
    refine ⟨hlisted, hrecords.tells (fun r hr => (hfits r hr).1) ?_ ?_⟩
    · rw [← Array.length_toList, hlisted]
      exact Nat.le_trans (List.subperm_of_subset (eraseDups_nodup _)
        fun _ => List.mem_eraseDups.1).length_le hsources
    · refine Nat.le_trans (hrecords.names_le (map.names.take wordLimit) fun r hr => (hfits r hr).2) ?_
      rw [List.length_take]
      exact Nat.min_le_left _ _

/-- Where no source is listed twice, the moved map has the sources of the fragment and says the same. -/
theorem rebaseFragment?_exact (h : rebaseFragment? map columns = some moved)
    (hnodup : map.sources.Nodup) (hcolumns : ∀ entry ∈ columns, entry.2 < wordLimit)
    (hsources : map.sources.length ≤ wordLimit) :
    moved.sources = map.sources ∧ ∃ segments, map.decode = .ok segments ∧
      moved.Tells (· ∈ segments.filterMap (movedReading? map columns)) := by
  obtain ⟨segments, hdecode, -, hmoves⟩ := rebaseFragment?_moves h hcolumns hsources
  obtain ⟨hlisted, htells⟩ := hmoves (keepsSources_of_nodup hnodup segments)
  exact ⟨hlisted.trans (eraseDups_of_nodup hnodup), segments, hdecode, htells⟩

/--
A fragment that lists a source twice and comes from the one behind it: the moved map refers to a source
that it does not have.
-/
example :
    let map : SourceMap := ⟨3, none, ["a", "a", "b"], none, [], "CEAA"⟩
    map.decode.toOption = some [⟨0, 1, some ⟨2, 0, 0, none⟩⟩] ∧
      (rebaseFragment? map [((0, 0), 1)]).map (fun moved => (moved.sources, failure? moved.decode)) =
        some (["a", "b"], some (.unknownSource 0)) := by
  decide +kernel

end MessageCatalog.Emission
