/-
What a composed source map says: all that the structural map says, and, for every reading that is
named after a literal with a map, what that map says, counted from the reading. Only the start of
the literal's code is left out, which the reading itself covers. With an inbound map, what is said is
looked up in it, and what it does not know is dropped.
-/
import MessageCatalog.Proofs.Error
import MessageCatalog.Proofs.SourceMap.Lookup
import MessageCatalog.SourceMap.Merge

namespace MessageCatalog

/-! ## Composition of readings -/

/-- A segment of the map reads so. -/
def SourceMap.Says (map : SourceMap) (r : Reading) : Prop :=
  ∃ segments, map.decode = .ok segments ∧ ∃ s ∈ segments, map.reading s = some r

theorem SourceMap.says_iff_mem {map : SourceMap} {segments : List Segment}
    (h : map.decode = .ok segments) (r : Reading) : map.Says r ↔ some r ∈ segments.map map.reading := by
  rw [List.mem_map]
  constructor
  · rintro ⟨segments', hdecode, s, hs, hr⟩
    cases h.symm.trans hdecode
    exact ⟨s, hs, hr⟩
  · exact fun hr => ⟨segments, h, hr⟩

theorem SourceMap.Tells.decodes {map : SourceMap} {holds : Reading → Prop} (h : map.Tells holds) :
    ∃ segments, map.decode = .ok segments := by
  obtain ⟨segments, hdecode, -⟩ := h
  exact ⟨segments, hdecode⟩

theorem SourceMap.Tells.says_iff {map : SourceMap} {holds : Reading → Prop} (h : map.Tells holds)
    (r : Reading) : map.Says r ↔ holds r := by
  obtain ⟨segments, hdecode, -, heach, hall⟩ := h
  constructor
  · rintro ⟨segments', hdecode', s, hs, hr⟩
    cases hdecode.symm.trans hdecode'
    obtain ⟨r', hr', hholds⟩ := heach s hs
    cases hr.symm.trans hr'
    exact hholds
  · intro hr
    exact ⟨segments, hdecode, hall r hr⟩

/--
A reading of a literal's map, counted from the reading of the literal: lines add up, and columns
do on the first line.
-/
def Reading.movedTo (r anchor : Reading) : Reading where
  line := anchor.line + r.line
  column := if r.line = 0 then anchor.column + r.column else r.column
  source := anchor.source
  originLine := anchor.originLine + r.originLine
  originColumn := if r.originLine = 0 then anchor.originColumn + r.originColumn else r.originColumn
  name := none

/-- The readings that are composed at one reading of the structural map. -/
inductive Composed (fragment : String → Reading → Prop) (anchor : Reading) : Reading → Prop where
  | anchor : Composed fragment anchor anchor
  | inside {name : String} {r : Reading} (named : anchor.name = some name) (said : fragment name r)
    (behind : ¬ (r.line = 0 ∧ r.column = 0)) : Composed fragment anchor (r.movedTo anchor)

/-- A reading whose origin is looked up in the inbound map, if there is one. -/
inductive Routed : Option SourceMap → Reading → Reading → Prop where
  | direct {r : Reading} : Routed none r r
  | through {map : SourceMap} {segments : List Segment} {r : Reading} {s : Segment} {o : Origin}
    {source : String} (decoded : map.decode = .ok segments)
    (nearest : Nearest r.originLine r.originColumn segments s o)
    (known : map.source? o.source = some source) :
    Routed (some map) r
      { r with source, originLine := o.line, originColumn := o.column + (r.originColumn - s.column) }

/-- What the map of a literal says. -/
def CodeMaps.Say (codeMaps : CodeMaps) (literal : String) (r : Reading) : Prop :=
  ∃ map, codeMaps.lookup literal = some map ∧ map.Says r

/-- A literal's map says what its segments read. -/
theorem CodeMaps.say_iff {codeMaps : CodeMaps} {literal : String} {map : SourceMap} {segments : List Segment}
    (hmap : codeMaps.lookup literal = some map) (hdecode : map.decode = .ok segments) (r : Reading) :
    codeMaps.Say literal r ↔ ∃ s ∈ segments, map.reading s = some r := by
  constructor
  · rintro ⟨map', hmap', segments', hdecode', hr⟩
    cases hmap.symm.trans hmap'
    cases hdecode.symm.trans hdecode'
    exact hr
  · exact fun hr => ⟨map, hmap, segments, hdecode, hr⟩

theorem CodeMaps.not_say {codeMaps : CodeMaps} {literal : String} (hnone : codeMaps.lookup literal = none)
    (r : Reading) : ¬ codeMaps.Say literal r := by
  rintro ⟨map, hmap, -⟩
  cases hnone.symm.trans hmap

/-- What is composed at a reading leads on from the reading, or from one that is said inside it. -/
theorem composed_routed_iff {fragment : String → Reading → Prop} {inbound : Option SourceMap}
    {a r : Reading} :
    (∃ composed, Composed fragment a composed ∧ Routed inbound composed r) ↔
      Routed inbound a r ∨ ∃ name ∈ a.name, ∃ f, fragment name f ∧ ¬ (f.line = 0 ∧ f.column = 0) ∧
        Routed inbound (f.movedTo a) r := by
  constructor
  · rintro ⟨composed, hcomposed, hr⟩
    cases hcomposed with
    | anchor => exact Or.inl hr
    | inside named said behind => exact Or.inr ⟨_, named, _, said, behind, hr⟩
  · rintro (hr | ⟨name, named, f, said, behind, hr⟩)
    · exact ⟨a, .anchor, hr⟩
    · exact ⟨f.movedTo a, .inside named said behind, hr⟩

/-- What is composed of all maps. -/
def Composes (structural : SourceMap) (codeMaps : CodeMaps) (inbound : Option SourceMap)
    (r : Reading) : Prop :=
  ∃ anchor composed, structural.Says anchor ∧ Composed codeMaps.Say anchor composed ∧
    Routed inbound composed r

/-! ## Collecting readings -/

/-- A builder that has recorded just the readings that hold, all from sources of a pool. -/
structure Collects (pool : List String) (b : SourceMapBuilder) (holds : Reading → Prop) : Prop where
  records : ∃ readings, b.Records readings ∧ ∀ r, r ∈ readings ↔ holds r
  sources : ∀ source ∈ b.sources.toList, source ∈ pool

section

variable {pool : List String} {b : SourceMapBuilder} {holds : Reading → Prop}

theorem Collects.congr {holds' : Reading → Prop} (h : Collects pool b holds)
    (heq : ∀ r, holds r ↔ holds' r) : Collects pool b holds' := by
  obtain ⟨⟨readings, hrecords, hmem⟩, hsources⟩ := h
  exact ⟨⟨readings, hrecords, fun r => (hmem r).trans (heq r)⟩, hsources⟩

theorem new_collects (file : Option String) :
    Collects pool (.new file) fun _ => False :=
  ⟨⟨[], SourceMapBuilder.new_records file, fun _ => ⟨nofun, nofun⟩⟩, nofun⟩

/-- What steps collect one after another. -/
theorem Collects.foldl {α : Type} {step : SourceMapBuilder → α → SourceMapBuilder}
    {adds : α → Reading → Prop} : ∀ {l : List α} {b : SourceMapBuilder} {holds : Reading → Prop},
      (∀ x ∈ l, ∀ {b holds}, Collects pool b holds →
        Collects pool (step b x) fun r => holds r ∨ adds x r) →
      Collects pool b holds → Collects pool (l.foldl step b) fun r => holds r ∨ ∃ x ∈ l, adds x r
  | [], _, _, _, h => h.congr fun r => by simp
  | x :: l, _, _, hstep, h => by
    obtain ⟨hx, hl⟩ := List.forall_mem_cons.1 hstep
    refine (Collects.foldl hl (hx h)).congr fun r => ?_
    simp [or_assoc]

/-- One more reading, from a source that a map knows. -/
theorem Collects.addFrom (h : Collects pool b holds) {map : SourceMap} {origin : Origin}
    {source : String} (hsource : map.source? origin.source = some source) (hpool : source ∈ pool)
    (generated : Nat × Nat) (name : Option String) :
    Collects pool (b.addFrom map generated origin name) fun r =>
      holds r ∨ r = ⟨generated.1, generated.2, source, origin.line, origin.column, name⟩ := by
  obtain ⟨⟨readings, hrecords, hmem⟩, hsources⟩ := h
  obtain ⟨added, hadded, -, -, honly, -, hget⟩ := b.addSource_spec source
  have hnow : ∀ s ∈ (b.addSource source).2.sources.toList, s ∈ pool := by
    rw [hadded]
    exact List.forall_mem_append.2 ⟨hsources, fun s hs => honly s hs ▸ hpool⟩
  have hreadings : ∀ r, r ∈ readings ++
      [⟨generated.1, generated.2, source, origin.line, origin.column, name⟩] ↔
      holds r ∨ r = ⟨generated.1, generated.2, source, origin.line, origin.column, name⟩ := by
    intro r
    rw [List.mem_append, hmem, List.mem_singleton]
  have hb := hrecords.addSource source
  simp only [SourceMapBuilder.addFrom, hsource]
  cases map.content? origin.source with
  | none =>
    refine ⟨⟨_, hb.addMapping hget .., hreadings⟩, ?_⟩
    rw [SourceMapBuilder.addMapping_sources]
    exact hnow
  | some content =>
    refine ⟨⟨_, (hb.setContent (b.addSource source).1 content).addMapping hget .., hreadings⟩, ?_⟩
    rw [SourceMapBuilder.addMapping_sources]
    exact hnow

end

/-! ## Recording what is composed -/

/-- The context of a merge with an inbound map or without. -/
inductive MergeContext.Inbound (cx : MergeContext) : Option SourceMap → Prop where
  | absent (alone : cx.inbound = none) : Inbound cx none
  | present {map : SourceMap} {segments : List Segment} (decoded : map.decode = .ok segments)
    (known : cx.inbound = some (map, segments)) : Inbound cx (some map)

/-- The sources that a composed map may list. -/
def sourcePool (structural : SourceMap) (inbound : Option SourceMap) : List String :=
  (inbound.getD structural).sources.take wordLimit

theorem mem_take_of_getElem? {l : List String} {i n : Nat} {x : String} (hx : l[i]? = some x)
    (hi : i < n) : x ∈ l.take n :=
  List.mem_of_getElem? ((List.getElem?_take_of_lt hi).trans hx)

section

variable {cx : MergeContext} {inbound : Option SourceMap} {b : SourceMapBuilder}
  {holds : Reading → Prop}

/-- Whatever is found in the inbound map has a source there. -/
theorem MergeContext.Inbound.route_source (hcx : cx.Inbound inbound) {id : Nat} {source : String}
    (hid : cx.structural.source? id = some source) (hword : id < wordLimit) {origin : Nat × Nat}
    {map : SourceMap} {o : Origin} (hroute : cx.route id origin = some (map, o)) :
    ∃ text ∈ sourcePool cx.structural inbound, map.source? o.source = some text := by
  unfold MergeContext.route at hroute
  cases hcx with
  | absent alone =>
    rw [alone] at hroute
    cases hroute
    exact ⟨source, mem_take_of_getElem? hid hword, hid⟩
  | present decoded known =>
    rw [known] at hroute
    obtain ⟨found, hfound, he⟩ := Option.map_eq_some_iff.1 hroute
    cases he
    obtain ⟨s, o', hnearest, rfl⟩ := originAt_eq_some.1 hfound
    have hdecoded := decode_decoded decoded s hnearest.mem
    obtain ⟨text, htext, -⟩ := hdecoded.reading hnearest.covers.1
    have hlt := (hdecoded.origin o' hnearest.covers.1).sourceWord
    exact ⟨text, mem_take_of_getElem? htext hlt, htext⟩

/-- The route of an origin is what is looked up for the reading. -/
theorem MergeContext.Inbound.routed_iff (hcx : cx.Inbound inbound) {id : Nat} {source : String}
    (hid : cx.structural.source? id = some source) {a r : Reading} (hsource : a.source = source) :
    Routed inbound a r ↔ ∃ map o text, cx.route id (a.originLine, a.originColumn) = some (map, o) ∧
      map.source? o.source = some text ∧ r = ⟨a.line, a.column, text, o.line, o.column, a.name⟩ := by
  unfold MergeContext.route
  cases hcx with
  | absent alone =>
    rw [alone]
    constructor
    · rintro ⟨⟩
      exact ⟨_, _, source, rfl, hid, hsource ▸ rfl⟩
    · rintro ⟨map, o, text, ⟨⟩, htext, rfl⟩
      cases (hid.symm.trans htext)
      subst hsource
      exact .direct
  | present decoded known =>
    rw [known]
    constructor
    · rintro (_ | ⟨decoded', nearest, htext⟩)
      cases decoded.symm.trans decoded'
      have hat := originAt_eq_some.2 ⟨_, _, nearest, rfl⟩
      exact ⟨_, _, _, Option.map_eq_some_iff.2 ⟨_, hat, rfl⟩, htext, rfl⟩
    · rintro ⟨map, o, text, hroute, htext, rfl⟩
      obtain ⟨found, hfound, he⟩ := Option.map_eq_some_iff.1 hroute
      cases he
      obtain ⟨s, o', hnearest, rfl⟩ := originAt_eq_some.1 hfound
      exact .through decoded hnearest htext

/-- A reading is recorded where it is routed, and dropped if it leads nowhere. -/
theorem Collects.add (h : Collects (sourcePool cx.structural inbound) b holds)
    (hcx : cx.Inbound inbound) {id : Nat} {a : Reading}
    (hid : cx.structural.source? id = some a.source) (hword : id < wordLimit) :
    Collects (sourcePool cx.structural inbound)
      (cx.add b id (a.line, a.column) (a.originLine, a.originColumn) a.name) fun r =>
      holds r ∨ Routed inbound a r := by
  unfold MergeContext.add
  cases hroute : cx.route id (a.originLine, a.originColumn) with
  | none =>
    refine h.congr fun r => ⟨Or.inl, fun hr => hr.resolve_right fun hrouted => ?_⟩
    obtain ⟨_, _, _, hsome, -⟩ := (hcx.routed_iff hid rfl).1 hrouted
    rw [hroute] at hsome
    cases hsome
  | some target =>
    obtain ⟨map, o⟩ := target
    obtain ⟨text, hpool, htext⟩ := hcx.route_source hid hword hroute
    refine (h.addFrom htext hpool (a.line, a.column) a.name).congr fun r => or_congr_right ?_
    rw [hcx.routed_iff hid rfl]
    constructor
    · rintro rfl
      exact ⟨map, o, text, hroute, htext, rfl⟩
    · rintro ⟨map', o', text', hroute', htext', rfl⟩
      cases hroute.symm.trans hroute'
      cases htext.symm.trans htext'
      rfl

/-- The readings of a fragment that are behind its start are recorded where they are moved to. -/
theorem Collects.addFragment (h : Collects (sourcePool cx.structural inbound) b holds)
    (hcx : cx.Inbound inbound) {s : Segment} {o : Origin} {a : Reading}
    (hs : (s.line, s.column) = (a.line, a.column))
    (ho : (o.line, o.column) = (a.originLine, a.originColumn))
    (hid : cx.structural.source? o.source = some a.source) (hword : o.source < wordLimit)
    {map : SourceMap} {fragment : List Segment} (hfragment : ∀ f ∈ fragment, f.Decoded map) :
    Collects (sourcePool cx.structural inbound) (cx.addFragment b s o fragment) fun r =>
      holds r ∨ ∃ f ∈ fragment, ∃ r', map.reading f = some r' ∧ ¬ (r'.line = 0 ∧ r'.column = 0) ∧
        Routed inbound (r'.movedTo a) r := by
  refine Collects.foldl (fun f hf b holds h => ?_) h
  cases hfo : f.origin with
  | none =>
    refine h.congr fun r => ⟨Or.inl, fun hr => hr.resolve_right ?_⟩
    rintro ⟨r', hr', -⟩
    obtain ⟨_, _, he, -⟩ := Segment.reading_eq_some hr'
    rw [he] at hfo
    cases hfo
  | some fo =>
    obtain ⟨source, -, hreading⟩ := (hfragment f hf).reading hfo
    by_cases hstart : f.line = 0 ∧ f.column = 0
    · -- the start of a fragment is where the structural segment already is
      simp only [if_pos hstart]
      refine h.congr fun r => ⟨Or.inl, fun hr => hr.resolve_right ?_⟩
      rintro ⟨r', hr', hbehind, -⟩
      cases hreading.symm.trans hr'
      exact hbehind hstart
    · simp only [if_neg hstart, hs, ho]
      let inner : Reading := ⟨f.line, f.column, source, fo.line, fo.column, fo.name.bind map.name?⟩
      refine (h.add (a := inner.movedTo a) hcx hid hword).congr fun r => or_congr_right ?_
      constructor
      · exact fun hr => ⟨_, hreading, hstart, hr⟩
      · rintro ⟨r', hr', -, hr⟩
        cases hreading.symm.trans hr'
        exact hr

variable {codeMaps : CodeMaps} {fragments : List (String × List Segment)}

/-- The fragments are what the maps of literals decode to. -/
def DecodesTo (codeMaps : CodeMaps) (fragments : List (String × List Segment)) : Prop :=
  ∀ name, match fragments.lookup name with
    | none => codeMaps.lookup name = none
    | some segments => ∃ map, codeMaps.lookup name = some map ∧ map.decode = .ok segments

/-- What is composed at a segment is composed at its reading. -/
theorem composedAt_iff {s : Segment} {a : Reading} (hreading : cx.structural.reading s = some a)
    {r : Reading} :
    (∃ a' composed, cx.structural.reading s = some a' ∧
        Composed codeMaps.Say a' composed ∧ Routed inbound composed r) ↔
      Routed inbound a r ∨ ∃ name ∈ a.name, ∃ f, codeMaps.Say name f ∧
        ¬ (f.line = 0 ∧ f.column = 0) ∧ Routed inbound (f.movedTo a) r := by
  rw [← composed_routed_iff]
  constructor
  · rintro ⟨a', composed, ha', hr⟩
    cases hreading.symm.trans ha'
    exact ⟨composed, hr⟩
  · rintro ⟨composed, hr⟩
    exact ⟨a, composed, hreading, hr⟩

/-- A structural segment is recorded with all that is composed at it. -/
theorem Collects.addSegment (h : Collects (sourcePool cx.structural inbound) b holds)
    (hcx : cx.Inbound inbound) (hfragments : DecodesTo codeMaps fragments) {s : Segment}
    (hs : s.Decoded cx.structural) :
    Collects (sourcePool cx.structural inbound) (cx.addSegment fragments b s) fun r =>
      holds r ∨ ∃ a composed, cx.structural.reading s = some a ∧
        Composed codeMaps.Say a composed ∧ Routed inbound composed r := by
  unfold MergeContext.addSegment
  cases ho : s.origin with
  | none =>
    refine h.congr fun r => ⟨Or.inl, fun hr => hr.resolve_right ?_⟩
    rintro ⟨a, -, ha, -⟩
    obtain ⟨_, _, he, -⟩ := Segment.reading_eq_some ha
    rw [he] at ho
    cases ho
  | some o =>
    obtain ⟨source, hid, hreading⟩ := hs.reading ho
    have hword := (hs.origin o ho).sourceWord
    let a : Reading := ⟨s.line, s.column, source, o.line, o.column, o.name.bind cx.structural.name?⟩
    have hanchor := h.add (a := a) hcx hid hword
    -- without a map for the name the anchor is all that is composed
    have halone : (∀ name ∈ a.name, codeMaps.lookup name = none) →
        Collects (sourcePool cx.structural inbound)
          (cx.add b o.source (s.line, s.column) (o.line, o.column) a.name) fun r =>
          holds r ∨ ∃ a composed, cx.structural.reading s = some a ∧
            Composed codeMaps.Say a composed ∧ Routed inbound composed r := by
      refine fun hnone => hanchor.congr fun r => or_congr_right ?_
      rw [composedAt_iff hreading]
      refine ⟨Or.inl, fun hr => hr.resolve_right ?_⟩
      rintro ⟨name, named, f, said, -⟩
      exact CodeMaps.not_say (hnone name named) f said
    show Collects _ (match a.name.bind fun n => fragments.lookup n with
      | none => cx.add b o.source (s.line, s.column) (o.line, o.column) a.name
      | some fragment => cx.addFragment
          (cx.add b o.source (s.line, s.column) (o.line, o.column) a.name) s o fragment) _
    cases hname : a.name with
    | none =>
      rw [hname] at halone
      exact halone nofun
    | some name =>
      rw [hname] at halone hanchor
      have hdecodes := hfragments name
      rw [Option.bind_some]
      cases hlookup : fragments.lookup name with
      | none =>
        rw [hlookup] at hdecodes
        exact halone (by rintro _ ⟨⟩; exact hdecodes)
      | some fragment =>
        rw [hlookup] at hdecodes
        obtain ⟨map, hmap, hdecode⟩ := hdecodes
        have hinside := hanchor.addFragment (a := a) hcx (s := s) (o := o) rfl rfl hid hword
          (decode_decoded hdecode)
        refine hinside.congr fun r => ?_
        rw [composedAt_iff hreading, or_assoc, hname]
        refine or_congr_right (or_congr_right ?_)
        constructor
        · rintro ⟨f, hf, r', hr', hbehind, hr⟩
          exact ⟨name, rfl, r', (CodeMaps.say_iff hmap hdecode r').2 ⟨f, hf, hr'⟩, hbehind, hr⟩
        · rintro ⟨_, ⟨⟩, r', said, hbehind, hr⟩
          obtain ⟨f, hf, hr'⟩ := (CodeMaps.say_iff hmap hdecode r').1 said
          exact ⟨f, hf, r', hr', hbehind, hr⟩

/-- Structural segments are recorded one after another. -/
theorem Collects.addSegments (h : Collects (sourcePool cx.structural inbound) b holds)
    (hcx : cx.Inbound inbound) (hfragments : DecodesTo codeMaps fragments) {segments : List Segment}
    (hsegments : ∀ s ∈ segments, s.Decoded cx.structural) :
    Collects (sourcePool cx.structural inbound) (segments.foldl (cx.addSegment fragments) b) fun r =>
      holds r ∨ ∃ s ∈ segments, ∃ a composed, cx.structural.reading s = some a ∧
        Composed codeMaps.Say a composed ∧ Routed inbound composed r :=
  Collects.foldl (fun s hs _ _ h => h.addSegment hcx hfragments (hsegments s hs)) h

end

/-! ## The composed map -/

/-- The maps of literals decode to fragments if each of them decodes. -/
theorem mapM_decode (filename : String) : ∀ {codeMaps : CodeMaps},
    (∀ entry ∈ codeMaps, ∃ segments, SourceMap.decode entry.2 = .ok segments) →
    ∃ fragments, DecodesTo codeMaps fragments ∧
      codeMaps.mapM (fun (p : String × SourceMap) => do
        let decoded ← p.2.decode.mapError fun e => CompileError.sourceMap filename e.message
        return (p.1, decoded)) = Except.ok fragments
  | [], _ => ⟨[], fun _ => rfl, rfl⟩
  | (literal, map) :: rest, h => by
    obtain ⟨⟨segments, hdecode⟩, hrest⟩ := List.forall_mem_cons.1 h
    obtain ⟨fragments, hlookup, hfragments⟩ := mapM_decode filename hrest
    simp only at hdecode
    refine ⟨(literal, segments) :: fragments, fun name => ?_, ?_⟩
    · rw [List.lookup_cons, List.lookup_cons]
      cases name == literal with
      | true => exact ⟨map, rfl, hdecode⟩
      | false => exact hlookup name
    · rw [List.mapM_cons]
      simp only [hdecode, Except.mapError, bind, Except.bind, pure, Except.pure] at hfragments ⊢
      rw [hfragments]

theorem decode_error {map : SourceMap} {filename : String} {e : CompileError}
    (h : (map.decode.mapError fun fault => CompileError.sourceMap filename fault.message) = .error e) :
    ∃ message, e = .sourceMap filename message := by
  cases hmap : map.decode with
  | ok segments =>
    rw [hmap] at h
    cases h
  | error fault =>
    rw [hmap] at h
    cases h
    exact ⟨_, rfl⟩

theorem decodeAll_error {α : Type} {codeMaps : CodeMaps} {next : List (String × List Segment) → α}
    {filename : String} {e : CompileError}
    (h : ((codeMaps.mapM fun entry : String × SourceMap => do
      let decoded ← entry.2.decode.mapError
        fun fault : SourceMapError => CompileError.sourceMap filename fault.message
      pure (entry.1, decoded)) >>= fun fragments => pure (next fragments)) = .error e) :
    ∃ message, e = .sourceMap filename message := by
  rcases bind_eq_error.1 h with h | ⟨fragments, -, h⟩
  · obtain ⟨entry, -, h⟩ := mapM_eq_error h
    rcases bind_eq_error.1 h with h | ⟨segments, -, h⟩
    · exact decode_error h
    · cases h
  · cases h

/-- Maps that cannot be composed are refused as such. -/
theorem mergeSourceMaps_error {structural : SourceMap} {codeMaps : CodeMaps} {inbound : Option SourceMap}
    {filename : String} {e : CompileError}
    (h : mergeSourceMaps structural codeMaps inbound filename = .error e) :
    ∃ message, e = .sourceMap filename message := by
  unfold mergeSourceMaps at h
  rcases bind_eq_error.1 h with h | ⟨segments, -, h⟩
  · exact decode_error h
  · cases inbound with
    | none =>
      simp only [pure_bind] at h
      exact decodeAll_error h
    | some inbound =>
      rcases bind_eq_error.1 h with h | ⟨known, -, h⟩
      · exact decode_error h
      · simp only [pure_bind] at h
        exact decodeAll_error h

/-- The merge of maps that all decode builds a map from just the readings that are composed. -/
theorem mergeSourceMaps_collects {structural : SourceMap} {codeMaps : CodeMaps}
    {inbound : Option SourceMap} (filename : String)
    (hstructural : ∃ segments, structural.decode = .ok segments)
    (hmaps : ∀ entry ∈ codeMaps, ∃ segments, SourceMap.decode entry.2 = .ok segments)
    (hinbound : ∀ map ∈ inbound, ∃ segments, map.decode = .ok segments) :
    ∃ b, mergeSourceMaps structural codeMaps inbound filename = .ok b.build ∧
      Collects (sourcePool structural inbound) b (Composes structural codeMaps inbound) := by
  obtain ⟨segments, hdecode⟩ := hstructural
  obtain ⟨fragments, hfragments, hmapM⟩ := mapM_decode filename hmaps
  have hcollects : ∀ known, MergeContext.Inbound ⟨structural, known⟩ inbound →
      Collects (sourcePool structural inbound)
        (segments.foldl (MergeContext.addSegment ⟨structural, known⟩ fragments) (.new structural.file))
        (Composes structural codeMaps inbound) := by
    intro known hcx
    refine ((new_collects structural.file).addSegments hcx hfragments
      (decode_decoded hdecode)).congr fun r => ?_
    rw [false_or]
    constructor
    · rintro ⟨s, hs, a, composed, ha, hcomposed, hr⟩
      exact ⟨a, composed, ⟨segments, hdecode, s, hs, ha⟩, hcomposed, hr⟩
    · rintro ⟨a, composed, ⟨segments', hdecode', s, hs, ha⟩, hcomposed, hr⟩
      cases hdecode.symm.trans hdecode'
      exact ⟨s, hs, a, composed, ha, hcomposed, hr⟩
  cases inbound with
  | none =>
    refine ⟨_, ?_, hcollects none (.absent rfl)⟩
    simp only [mergeSourceMaps, hdecode, Except.mapError, bind, Except.bind, pure, Except.pure]
      at hmapM ⊢
    rw [hmapM]
  | some map =>
    obtain ⟨inboundSegments, hknown⟩ := hinbound map rfl
    refine ⟨_, ?_, hcollects (some (map, inboundSegments)) (.present hknown rfl)⟩
    simp only [mergeSourceMaps, hdecode, hknown, Except.mapError, bind, Except.bind, pure,
      Except.pure] at hmapM ⊢
    rw [hmapM]

/-- What is composed is named after names of the structural map. -/
theorem Composes.name_mem {structural : SourceMap} {codeMaps : CodeMaps} {inbound : Option SourceMap}
    {r : Reading} (h : Composes structural codeMaps inbound r) :
    ∀ name ∈ r.name, name ∈ structural.names.take wordLimit := by
  obtain ⟨a, composed, ⟨segments, hdecode, s, hs, ha⟩, hcomposed, hrouted⟩ := h
  have hname : r.name = composed.name := by
    cases hrouted with
    | direct => rfl
    | through => rfl
  rw [hname]
  cases hcomposed with
  | inside => nofun
  | anchor =>
    intro name hname
    obtain ⟨_, n, rfl, -, hn, -⟩ := Segment.reading_eq_some ha
    rw [← hn] at hname
    obtain ⟨k, rfl, hk⟩ := Option.bind_eq_some_iff.1 hname
    exact mem_take_of_getElem? hk (((decode_decoded hdecode _ hs).origin _ rfl).name k rfl).2

/-- A builder that collects what is composed lists no more sources and names than there are words. -/
theorem Collects.small {structural : SourceMap} {codeMaps : CodeMaps} {inbound : Option SourceMap}
    {b : SourceMapBuilder}
    (h : Collects (sourcePool structural inbound) b (Composes structural codeMaps inbound)) :
    b.sources.size ≤ wordLimit ∧ b.names.size ≤ wordLimit := by
  obtain ⟨⟨readings, hrecords, hmem⟩, hsources⟩ := h
  constructor
  · rw [← Array.length_toList]
    refine Nat.le_trans (List.subperm_of_subset hrecords.sourcesNodup hsources).length_le ?_
    exact List.length_take_le ..
  · refine Nat.le_trans (hrecords.names_le (structural.names.take wordLimit) fun r hr => ?_)
      (List.length_take_le ..)
    exact Composes.name_mem ((hmem r).1 hr)

/--
Without an inbound map the merge succeeds and the composed map says what is composed at the readings
of the structural map.
-/
theorem mergeSourceMaps_tells {structural : SourceMap} {codeMaps : CodeMaps} (filename : String)
    {anchor : Reading → Prop} {fragment : String → Reading → Prop} (hstructural : structural.Tells anchor)
    (hmaps : ∀ p ∈ codeMaps, SourceMap.Tells p.2 (fragment p.1))
    (hothers : ∀ name, codeMaps.lookup name = none → ∀ r, ¬ fragment name r)
    (hfits : ∀ a r, anchor a → Composed fragment a r → r.Fits) :
    ∃ map, mergeSourceMaps structural codeMaps none filename = .ok map ∧
      map.Tells fun r => ∃ a, anchor a ∧ Composed fragment a r := by
  have htells : ∀ name map, codeMaps.lookup name = some map → map.Tells (fragment name) := by
    intro name map hlookup
    obtain ⟨front, back, hmem, -⟩ := List.lookup_eq_some_iff.1 hlookup
    exact hmaps (name, map) (hmem ▸ List.mem_append_right _ List.mem_cons_self)
  have hsay : codeMaps.Say = fragment := by
    funext name r
    refine propext ⟨?_, fun hr => ?_⟩
    · rintro ⟨map, hlookup, hsays⟩
      exact ((htells name map hlookup).says_iff r).1 hsays
    · cases hlookup : codeMaps.lookup name with
      | none => exact absurd hr (hothers name hlookup r)
      | some map => exact ⟨map, hlookup, ((htells name map hlookup).says_iff r).2 hr⟩
  have hcomposes : ∀ r, Composes structural codeMaps none r ↔ ∃ a, anchor a ∧ Composed fragment a r := by
    intro r
    rw [← hsay]
    constructor
    · rintro ⟨a, _, ha, hr, ⟨⟩⟩
      exact ⟨a, (hstructural.says_iff a).1 ha, hr⟩
    · rintro ⟨a, ha, hr⟩
      exact ⟨a, r, (hstructural.says_iff a).2 ha, hr, .direct⟩
  obtain ⟨b, hmerge, hcollects⟩ := @mergeSourceMaps_collects structural codeMaps none filename
    hstructural.decodes (fun p hp => (hmaps p hp).decodes) nofun
  obtain ⟨hsources, hnames⟩ := hcollects.small
  obtain ⟨⟨readings, hrecords, hmem⟩, -⟩ := hcollects
  have hreadings : ∀ r, r ∈ readings ↔ ∃ a, anchor a ∧ Composed fragment a r := fun r =>
    (hmem r).trans (hcomposes r)
  refine ⟨_, hmerge, (hrecords.tells (fun r hr => ?_) hsources hnames).congr hreadings⟩
  obtain ⟨a, ha, hr⟩ := (hreadings r).1 hr
  exact hfits a r ha hr

/-- The generated place of a reading is not behind that of another. -/
def Reading.placeLe (r r' : Reading) : Prop :=
  r.line < r'.line ∨ r.line = r'.line ∧ r.column ≤ r'.column

/-- Segments in order read in the order of their generated places. -/
theorem readings_ordered {map : SourceMap} {segments : List Segment} {readings : List Reading}
    (hreadings : segments.map map.reading = readings.map some)
    (hsorted : segments.Pairwise (·.le · = true)) : readings.Pairwise Reading.placeLe := by
  have hread : (segments.map map.reading).Pairwise fun x y =>
      ∀ r r', x = some r → y = some r' → r.placeLe r' := by
    rw [List.pairwise_map]
    refine hsorted.imp fun {s t} hle r r' hr hr' => ?_
    obtain ⟨_, _, rfl, -⟩ := Segment.reading_eq_some hr
    obtain ⟨_, _, rfl, -⟩ := Segment.reading_eq_some hr'
    exact Segment.place_le hle
  rw [hreadings, List.pairwise_map] at hread
  exact hread.imp fun h => h _ _ rfl rfl

/--
The merge of maps that all decode succeeds, and what its result reads as, in the order of generated
places and without repeats, is what is composed of the maps, as long as all places are words.
-/
theorem mergeSourceMaps_composes {structural : SourceMap} {codeMaps : CodeMaps}
    {inbound : Option SourceMap} (filename : String)
    (hstructural : ∃ segments, structural.decode = .ok segments)
    (hmaps : ∀ entry ∈ codeMaps, ∃ segments, SourceMap.decode entry.2 = .ok segments)
    (hinbound : ∀ map ∈ inbound, ∃ segments, map.decode = .ok segments)
    (hwords : ∀ r, Composes structural codeMaps inbound r → r.Fits) :
    ∃ (map : SourceMap) (segments : List Segment) (readings : List Reading),
      mergeSourceMaps structural codeMaps inbound filename = .ok map ∧
      map.decode = .ok segments ∧ segments.map map.reading = readings.map some ∧ readings.Nodup ∧
      readings.Pairwise Reading.placeLe ∧
      ∀ r, r ∈ readings ↔ Composes structural codeMaps inbound r := by
  obtain ⟨b, hmerge, hcollects⟩ := mergeSourceMaps_collects filename hstructural hmaps hinbound
  obtain ⟨hsources, hnames⟩ := hcollects.small
  obtain ⟨⟨recorded, hrecords, hmem⟩, -⟩ := hcollects
  have hfits : ∀ r ∈ recorded, r.Fits := fun r hr => hwords r ((hmem r).1 hr)
  have hdecode := hrecords.decodes hfits hsources hnames
  have htells := hrecords.tells hfits hsources hnames
  obtain ⟨segments, readings, hdecode', hreadings, hall⟩ := htells.readings
  cases hdecode.symm.trans hdecode'
  refine ⟨_, _, readings, hmerge, hdecode, hreadings, ?_, ?_, fun r => (hall r).trans (hmem r)⟩
  · obtain ⟨segments, hdecode', hnodup, -⟩ := htells
    cases hdecode.symm.trans hdecode'
    rw [hreadings] at hnodup
    exact hnodup.of_map
  · exact readings_ordered hreadings ((sortSegments_le _).sublist (dropRepeats_sublist _))

/-- A message on the second line of a file that was itself generated. -/
theorem mergeSourceMaps_composes_routed :
    let structural : SourceMap := ⟨3, some "a.js", ["a.json"], none, ["hi"], "EACGA"⟩
    let codeMaps : CodeMaps := [("hi", ⟨3, none, ["hi"], none, [], "AAAA,IAAC"⟩)]
    let inbound : SourceMap := ⟨3, none, ["a.yaml"], none, [], ";CAEA"⟩
    ∃ (map : SourceMap) (segments : List Segment) (readings : List Reading),
      mergeSourceMaps structural codeMaps (some inbound) "a.json" = .ok map ∧
      map.decode = .ok segments ∧ segments.map map.reading = readings.map some ∧
      ⟨0, 2, "a.yaml", 2, 2, some "hi"⟩ ∈ readings ∧ ⟨0, 6, "a.yaml", 2, 3, none⟩ ∈ readings := by
  intro structural codeMaps inbound
  have hstructural : structural.decode = .ok [⟨0, 2, some ⟨0, 1, 3, some 0⟩⟩] := by
    decide +kernel
  have hfragment : SourceMap.decode ⟨3, none, ["hi"], none, [], "AAAA,IAAC"⟩ =
      .ok [⟨0, 0, some ⟨0, 0, 0, none⟩⟩, ⟨0, 4, some ⟨0, 0, 1, none⟩⟩] := by
    decide +kernel
  have hinbound : inbound.decode = .ok [⟨1, 1, some ⟨0, 2, 0, none⟩⟩] := by decide +kernel
  have hanchor : ∀ a, structural.Says a ↔ a = ⟨0, 2, "a.json", 1, 3, some "hi"⟩ := fun a =>
    (SourceMap.says_iff_mem hstructural a).trans (by simp [structural, SourceMap.reading, Segment.reading])
  have hinside : ∀ f, codeMaps.Say "hi" f ↔
      f = ⟨0, 0, "hi", 0, 0, none⟩ ∨ f = ⟨0, 4, "hi", 0, 1, none⟩ := by
    intro f
    rw [CodeMaps.say_iff rfl hfragment f]
    simp [SourceMap.reading, Segment.reading, @eq_comm _ f]
  -- both readings are on the line of the inbound segment and behind its start
  have hroutes : ∀ r : Reading, r.originLine = 1 → 1 ≤ r.originColumn → Routed (some inbound) r
      { r with source := "a.yaml", originLine := 2, originColumn := 0 + (r.originColumn - 1) } := by
    intro r hline hcolumn
    have hnearest : Nearest r.originLine r.originColumn [⟨1, 1, some ⟨0, 2, 0, none⟩⟩]
        ⟨1, 1, some ⟨0, 2, 0, none⟩⟩ ⟨0, 2, 0, none⟩ := by
      refine @Nearest.intro _ _ [] [] _ _ ⟨rfl, hline.symm, hcolumn⟩ ?_ ?_
      all_goals
        intro t ht
        cases ht
    exact .through hinbound hnearest rfl
  have hrouted : ∀ {r r'}, Routed (some inbound) r r' → r'.column = r.column ∧ r'.originLine = 2 ∧
      r'.originColumn ≤ r.originColumn := by
    rintro r r' (_ | ⟨hdecode, hnearest, -⟩)
    cases hinbound.symm.trans hdecode
    cases List.mem_singleton.1 hnearest.mem
    cases hnearest.covers.1
    exact ⟨rfl, rfl, by simp only [Nat.zero_add]; omega⟩
  have hwords : ∀ r, Composes structural codeMaps (some inbound) r → r.Fits := by
    rintro r ⟨a, c, ha, hc, hr⟩
    obtain ⟨hcolumn, hline, hle⟩ := hrouted hr
    cases (hanchor a).1 ha
    have hc : c.column ≤ 6 ∧ c.originColumn ≤ 4 := by
      cases hc with
      | anchor => exact ⟨by decide, by decide⟩
      | inside named said behind =>
        cases named
        rcases (hinside _).1 said with rfl | rfl
        · exact absurd ⟨rfl, rfl⟩ behind
        · exact ⟨by decide, by decide⟩
    constructor <;> simp only [wordLimit] <;> omega
  have hmaps : ∀ entry ∈ codeMaps, ∃ segments, SourceMap.decode entry.2 = .ok segments := by
    intro entry hentry
    cases List.mem_singleton.1 hentry
    exact ⟨_, hfragment⟩
  obtain ⟨map, segments, readings, hmerge, hdecode, hreadings, -, -, hall⟩ :=
    mergeSourceMaps_composes "a.json" ⟨_, hstructural⟩ hmaps
      (fun _ hmap => Option.some.inj hmap ▸ ⟨_, hinbound⟩) hwords
  refine ⟨map, segments, readings, hmerge, hdecode, hreadings, (hall _).2 ?_, (hall _).2 ?_⟩
  · exact ⟨_, _, (hanchor _).2 rfl, .anchor, hroutes _ rfl (by decide)⟩
  · have hmoved : Composed codeMaps.Say ⟨0, 2, "a.json", 1, 3, some "hi"⟩
        (Reading.movedTo ⟨0, 4, "hi", 0, 1, none⟩ ⟨0, 2, "a.json", 1, 3, some "hi"⟩) :=
      .inside rfl ((hinside _).2 (Or.inr rfl)) (by decide)
    exact ⟨_, _, (hanchor _).2 rfl, hmoved, hroutes _ rfl (by decide)⟩

end MessageCatalog
