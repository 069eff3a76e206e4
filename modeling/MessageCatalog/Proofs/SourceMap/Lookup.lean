/-
What decoding and looking up give: the numbers of decoded segments are words, and the sources and
names they refer to exist; the origin of a place is that of the nearest segment in front of it.
-/
import MessageCatalog.Proofs.Error
import MessageCatalog.Proofs.SourceMap.Builder
import MessageCatalog.SourceMap.Decode
import Mathlib.Data.List.Induction

namespace MessageCatalog

/-! ## Decoded segments -/

/-- An origin as it is decoded: indices and positions are words, and the map knows the indices. -/
structure Origin.Decoded (map : SourceMap) (o : Origin) : Prop where
  source : o.source < map.sources.length
  sourceWord : o.source < wordLimit
  line : o.line < wordLimit
  column : o.column < wordLimit
  name : ∀ n ∈ o.name, n < map.names.length ∧ n < wordLimit

structure Segment.Decoded (map : SourceMap) (s : Segment) : Prop where
  column : s.column < wordLimit
  origin : ∀ o ∈ s.origin, o.Decoded map

section

variable {map : SourceMap}

theorem word_lt (n : Int) : word n < wordLimit := by
  unfold word wordLimit
  omega

theorem word_le {n : Int} (h : 0 ≤ n) : (word n : Int) ≤ n := by
  unfold word
  omega

theorem moved_lt {old new : Nat} {delta : Int} (h : moved old delta = .ok new) : new < wordLimit := by
  simp only [moved] at h
  split at h
  · cases h
  · cases h
    exact word_lt _

theorem readOrigin_decoded {st next : DecodeState} {column source line originColumn : Int}
    (h : readOrigin map st column source line originColumn = .ok next) :
    next.column < wordLimit ∧
      Origin.Decoded map ⟨next.source, next.line, next.originColumn, none⟩ := by
  obtain ⟨c, hc, h⟩ := bind_eq_ok.1 h
  by_cases hsource : (st.source : Int) + source < 0 ∨
      (map.sources.length : Int) ≤ (st.source : Int) + source
  · rw [if_pos hsource] at h
    cases h
  · rw [if_neg hsource] at h
    obtain ⟨l, hl, h⟩ := bind_eq_ok.1 h
    obtain ⟨oc, hoc, h⟩ := bind_eq_ok.1 h
    cases h
    have hle := word_le (Int.not_lt.1 fun h => hsource (Or.inl h))
    refine ⟨moved_lt hc, ⟨?_, word_lt _, moved_lt hl, moved_lt hoc, nofun⟩⟩
    show word ((st.source : Int) + source) < map.sources.length
    omega

theorem readSegment_decoded {line : Nat} {st st' : DecodeState} {numbers : List Int} {s : Segment}
    (h : readSegment map line st numbers = .ok (s, st')) : s.Decoded map := by
  unfold readSegment at h
  split at h
  · obtain ⟨c, hc, h⟩ := bind_eq_ok.1 h
    cases h
    exact ⟨moved_lt hc, nofun⟩
  · obtain ⟨next, hnext, h⟩ := bind_eq_ok.1 h
    cases h
    obtain ⟨hcolumn, horigin⟩ := readOrigin_decoded hnext
    refine ⟨hcolumn, ?_⟩
    rintro _ ⟨⟩
    exact horigin
  · rename_i name
    obtain ⟨next, hnext, h⟩ := bind_eq_ok.1 h
    obtain ⟨hcolumn, horigin⟩ := readOrigin_decoded hnext
    by_cases hname : map.names.length ≤ word (next.name + name)
    · simp only [if_pos hname] at h
      cases h
    · simp only [if_neg hname] at h
      cases h
      refine ⟨hcolumn, ?_⟩
      rintro _ ⟨⟩
      refine { horigin with name := ?_ }
      rintro _ ⟨⟩
      exact ⟨Nat.not_le.1 hname, word_lt _⟩
  · cases h

theorem readLine_decoded {line : Nat} : ∀ {texts : List (List Char)} {st st' : DecodeState}
    {segments : List Segment}, readLine map line st texts = .ok (segments, st') →
    ∀ s ∈ segments, s.Decoded map
  | [], _, _, _, h => by
    cases h
    nofun
  | text :: rest, st, st', segments, h => by
    rw [readLine] at h
    split at h
    · exact readLine_decoded h
    · obtain ⟨⟨first, next⟩, hfirst, h⟩ := bind_eq_ok.1 h
      obtain ⟨⟨others, last⟩, hothers, h⟩ := bind_eq_ok.1 h
      cases h
      exact List.forall_mem_cons.2 ⟨readSegment_decoded hfirst, readLine_decoded hothers⟩

theorem readLines_decoded : ∀ {texts : List (List Char)} {line : Nat} {st : DecodeState}
    {segments : List Segment}, readLines map line st texts = .ok segments →
    ∀ s ∈ segments, s.Decoded map
  | [], _, _, _, h => by
    cases h
    nofun
  | text :: rest, line, st, segments, h => by
    obtain ⟨⟨here, next⟩, hhere, h⟩ := bind_eq_ok.1 h
    obtain ⟨others, hothers, h⟩ := bind_eq_ok.1 h
    cases h
    exact List.forall_mem_append.2 ⟨readLine_decoded hhere, readLines_decoded hothers⟩

/-- Whatever is decoded consists of words and refers to sources and names that exist. -/
theorem decode_decoded {segments : List Segment} (h : map.decode = .ok segments) :
    ∀ s ∈ segments, s.Decoded map := by
  obtain ⟨-, -, h⟩ := bind_eq_ok.1 h
  split at h
  · cases h
  · exact readLines_decoded h

/-- A decoded segment with an origin has a reading. -/
theorem Segment.Decoded.reading {s : Segment} (h : s.Decoded map) {o : Origin}
    (ho : s.origin = some o) : ∃ source, map.source? o.source = some source ∧
      map.reading s = some ⟨s.line, s.column, source, o.line, o.column, o.name.bind map.name?⟩ := by
  have horigin := h.origin o ho
  have hsource : map.sources[o.source]? = some (map.sources.get ⟨o.source, horigin.source⟩) :=
    List.getElem?_eq_getElem horigin.source
  refine ⟨_, hsource, ?_⟩
  unfold SourceMap.reading Segment.reading
  rw [ho]
  simp only [hsource]
  cases hname : o.name with
  | none => rfl
  | some n =>
    have hknown : map.names[n]? = some (map.names.get ⟨n, (horigin.name n hname).1⟩) :=
      List.getElem?_eq_getElem _
    rw [Option.bind_some, show map.name? n = _ from hknown]
    simp only [hknown, Option.map_some]

end

/-! ## The nearest segment -/

/-- A segment with an origin that is on the line and not behind the column. -/
def Segment.Covers (line column : Nat) (s : Segment) (o : Origin) : Prop :=
  s.origin = some o ∧ s.line = line ∧ s.column ≤ column

/--
Of all segments that cover a place, one that starts last; of several that start there, the last.
-/
inductive Nearest (line column : Nat) : List Segment → Segment → Origin → Prop where
  | intro {before after : List Segment} {s : Segment} {o : Origin} (covers : s.Covers line column o)
    (front : ∀ t ∈ before, ∀ o', t.Covers line column o' → t.column ≤ s.column)
    (behind : ∀ t ∈ after, ∀ o', t.Covers line column o' → t.column < s.column) :
    Nearest line column (before ++ s :: after) s o

section

variable {line column : Nat} {segments : List Segment} {s t : Segment} {o o' : Origin}

theorem Nearest.covers (h : Nearest line column segments s o) : s.Covers line column o := by
  cases h with
  | intro covers => exact covers

theorem Nearest.mem (h : Nearest line column segments s o) : s ∈ segments := by
  cases h with
  | intro => exact List.mem_append_right _ List.mem_cons_self

/-- No segment that covers the place starts behind the nearest one. -/
theorem Nearest.le (h : Nearest line column segments s o) (ht : t ∈ segments)
    (hcovers : t.Covers line column o') : t.column ≤ s.column := by
  cases h with
  | intro _ front behind =>
    rcases List.mem_append.1 ht with ht | ht
    · exact front t ht o' hcovers
    · rcases List.mem_cons.1 ht with rfl | ht
      · exact Nat.le_refl _
      · exact Nat.le_of_lt (behind t ht o' hcovers)

/-- The nearest segment stays the nearest if none that is added covers the place as late. -/
theorem Nearest.snoc (h : Nearest line column segments s o)
    (ht : ∀ o', t.Covers line column o' → t.column < s.column) :
    Nearest line column (segments ++ [t]) s o := by
  cases h with
  | intro covers front behind =>
    rw [List.append_assoc, List.cons_append]
    refine .intro covers front fun u hu o' hcovers => ?_
    rcases List.mem_append.1 hu with hu | hu
    · exact behind u hu o' hcovers
    · cases List.mem_singleton.1 hu
      exact ht o' hcovers

theorem startBy?_eq_some {start : Nat} :
    s.startBy? line column = some (start, o) ↔ s.Covers line column o ∧ s.column = start := by
  unfold Segment.startBy? Segment.Covers
  cases ho : s.origin with
  | none => simp
  | some o' =>
    rw [Option.bind_some]
    by_cases hplace : s.line = line ∧ s.column ≤ column
    · rw [if_pos hplace]
      simp only [Option.some.injEq, Prod.mk.injEq, hplace, and_self, and_true]
      exact and_comm
    · rw [if_neg hplace]
      simp [hplace]

theorem nearest?_snoc (segments : List Segment) (t : Segment) :
    nearest? (segments ++ [t]) line column =
      (t.startBy? line column).elim (nearest? segments line column)
        (laterStart (nearest? segments line column)) := by
  unfold nearest?
  rw [List.filterMap_append, List.foldl_append]
  cases ht : t.startBy? line column with
  | none => rw [List.filterMap_cons_none ht]; rfl
  | some start => rw [List.filterMap_cons_some ht]; rfl

/-- What is found is the nearest segment; if nothing is found, no segment covers the place. -/
theorem nearest?_spec (segments : List Segment) :
    match nearest? segments line column with
    | none => ∀ s ∈ segments, ∀ o, ¬ s.Covers line column o
    | some (start, o) => ∃ s, Nearest line column segments s o ∧ s.column = start := by
  induction segments using List.reverseRecOn with
  | nil => exact nofun
  | append_singleton segments t ih =>
    have hmem : ∀ {u}, u ∈ segments ++ [t] → u ∈ segments ∨ u = t := fun hu =>
      (List.mem_append.1 hu).imp_right List.mem_singleton.1
    rw [nearest?_snoc]
    cases ht : t.startBy? line column with
    | none =>
      have hnot : ∀ o, ¬ t.Covers line column o := fun o hcovers => by
        rw [startBy?_eq_some.2 ⟨hcovers, rfl⟩] at ht
        cases ht
      rw [Option.elim_none]
      cases hbest : nearest? segments line column with
      | none =>
        rw [hbest] at ih
        intro u hu
        rcases hmem hu with hu | rfl
        · exact ih u hu
        · exact hnot
      | some best =>
        rw [hbest] at ih
        obtain ⟨s, hs, hstart⟩ := ih
        exact ⟨s, hs.snoc fun o hcovers => absurd hcovers (hnot o), hstart⟩
    | some start =>
      obtain ⟨column', o⟩ := start
      obtain ⟨hcovers, rfl⟩ := startBy?_eq_some.1 ht
      rw [Option.elim_some]
      cases hbest : nearest? segments line column with
      | none =>
        rw [hbest] at ih
        exact ⟨t, .intro hcovers (fun u hu o' hu' => absurd hu' (ih u hu o')) nofun, rfl⟩
      | some best =>
        rw [hbest] at ih
        obtain ⟨s, hs, hstart⟩ := ih
        by_cases hlater : best.1 ≤ t.column
        · -- the new segment starts no earlier than the best so far, which no other one passes
          rw [show laterStart (some best) (t.column, o) = some (t.column, o) from if_pos hlater]
          refine ⟨t, .intro hcovers (fun u hu o' hu' => ?_) nofun, rfl⟩
          have := hs.le hu hu'
          omega
        · rw [show laterStart (some best) (t.column, o) = some best from if_neg hlater]
          exact ⟨s, hs.snoc fun _ _ => by omega, hstart⟩

theorem Nearest.split (h : Nearest line column segments s o) :
    ∃ before after, segments = before ++ s :: after ∧
      ∀ t ∈ after, ∀ o', t.Covers line column o' → t.column < s.column := by
  cases h with
  | @intro before after _ _ covers front behind => exact ⟨before, after, rfl, behind⟩

/-- There is only one nearest segment. -/
theorem Nearest.unique (h : Nearest line column segments s o) (h' : Nearest line column segments t o') :
    s = t ∧ o = o' := by
  have hst : s = t := by
    have hle := h'.le h.mem h.covers
    have hge := h.le h'.mem h'.covers
    obtain ⟨before, after, hs, hbehind⟩ := h.split
    obtain ⟨before', after', ht, hbehind'⟩ := h'.split
    -- whichever stands further on would have to start further on
    rcases List.append_eq_append_iff.1 (hs.symm.trans ht) with
      ⟨between, -, hrest⟩ | ⟨between, -, hrest⟩
    · cases between with
      | nil => exact (List.cons.inj hrest).1
      | cons u between =>
        have hmem : t ∈ after := by
          rw [(List.cons.inj hrest).2]
          exact List.mem_append_right _ List.mem_cons_self
        have := hbehind t hmem o' h'.covers
        omega
    · cases between with
      | nil => exact (List.cons.inj hrest).1.symm
      | cons u between =>
        have hmem : s ∈ after' := by
          rw [(List.cons.inj hrest).2]
          exact List.mem_append_right _ List.mem_cons_self
        have := hbehind' s hmem o h.covers
        omega
  subst hst
  exact ⟨rfl, Option.some.inj (h.covers.1.symm.trans h'.covers.1)⟩

/-- The origin of a place is that of the nearest segment, moved on by the distance to it. -/
theorem originAt_eq_some {found : Origin} :
    originAt segments line column = some found ↔ ∃ s o, Nearest line column segments s o ∧
      found = { o with column := o.column + (column - s.column) } := by
  have hspec := @nearest?_spec line column segments
  unfold originAt
  cases hnearest : nearest? segments line column with
  | none =>
    rw [hnearest] at hspec
    exact ⟨nofun, fun ⟨s, o, h, _⟩ => absurd h.covers (hspec s h.mem o)⟩
  | some start =>
    obtain ⟨column', o⟩ := start
    rw [hnearest] at hspec
    obtain ⟨s, hs, rfl⟩ := hspec
    constructor
    · intro h
      exact ⟨s, o, hs, (Option.some.inj h).symm⟩
    · rintro ⟨t, o', ht, rfl⟩
      obtain ⟨rfl, rfl⟩ := hs.unique ht
      rfl

end

end MessageCatalog
