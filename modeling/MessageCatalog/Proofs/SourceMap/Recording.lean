/-
Building and decoding. Whatever calls a source map is built by, it decodes to the mappings that were
recorded, in order and once each; sources and names are listed by their first use, and of the
contents set for a source the last one stays.
-/
import MessageCatalog.Proofs.SourceMap.Builder
import Mathlib.Data.List.Induction

namespace MessageCatalog

/-! ## Calls -/

/-- A call of a source map builder. -/
inductive BuilderCall where
  | source (name : String)
  | content (source : Nat) (text : String)
  | mapping (line column source originLine originColumn : Nat) (name : Option String)
  deriving DecidableEq, Repr

namespace BuilderCall

def apply (b : SourceMapBuilder) : BuilderCall → SourceMapBuilder
  | source name => (b.addSource name).2
  | content id text => b.setContent id text
  | mapping line column id originLine originColumn name =>
    b.addMapping line column id originLine originColumn name

/-- The source that is added. -/
def source? : BuilderCall → Option String
  | source name => some name
  | _ => none

/-- The name that a mapping is recorded under. -/
def name? : BuilderCall → Option String
  | mapping _ _ _ _ _ name => name
  | _ => none

/-- The content that is set for one source. -/
def contentOf? (id : Nat) : BuilderCall → Option String
  | content i text => if i = id then some text else none
  | _ => none

/-- A segment is what a mapping recorded, its name written as a number that the map knows. -/
def Yields (map : SourceMap) (s : Segment) : BuilderCall → Prop
  | mapping line column id originLine originColumn name =>
    ∃ n : Option Nat, s = ⟨line, column, some ⟨id, originLine, originColumn, n⟩⟩ ∧
      n.map map.name? = name.map some
  | _ => False

/-- The segment that a mapping becomes, given the list that numbers the names. -/
def segment? (names : List String) : BuilderCall → Option Segment
  | mapping line column id originLine originColumn name =>
    some ⟨line, column, some ⟨id, originLine, originColumn, name.map (names.idxOf ·)⟩⟩
  | _ => none

end BuilderCall

namespace SourceMapBuilder

/-- The builder after calls. -/
def after (file : Option String) (calls : List BuilderCall) : SourceMapBuilder :=
  calls.foldl BuilderCall.apply (new file)

/-- A number that one of the calls answered for the source it added. -/
def HandedOut (file : Option String) (calls : List BuilderCall) (id : Nat) : Prop :=
  ∃ front name back, calls = front ++ .source name :: back ∧
    ((after file front).addSource name).1 = id

/-- What a caller keeps to: places are words, and sources are given by numbers it was answered. -/
def CallFits (file : Option String) (earlier : List BuilderCall) : BuilderCall → Prop
  | .source _ => True
  | .content id _ => HandedOut file earlier id
  | .mapping line column id originLine originColumn _ =>
    line < wordLimit ∧ column < wordLimit ∧ originLine < wordLimit ∧ originColumn < wordLimit ∧
      HandedOut file earlier id

def CallsFit (file : Option String) (calls : List BuilderCall) : Prop :=
  ∀ front call back, calls = front ++ call :: back → CallFits file front call

section

variable {file : Option String} {calls : List BuilderCall}

theorem after_snoc (calls : List BuilderCall) (call : BuilderCall) :
    after file (calls ++ [call]) = call.apply (after file calls) := List.foldl_concat ..

theorem callsFit_snoc {call : BuilderCall} :
    CallsFit file (calls ++ [call]) ↔ CallsFit file calls ∧ CallFits file calls call := by
  constructor
  · refine fun h => ⟨fun front c back hcalls => ?_, h calls call [] rfl⟩
    exact h front c (back ++ [call]) (by rw [hcalls, List.append_assoc, List.cons_append])
  · rintro ⟨h, hcall⟩ front c back hcalls
    rcases List.eq_nil_or_concat back with rfl | ⟨back, last, rfl⟩
    · obtain ⟨rfl, hc⟩ := List.append_inj' hcalls rfl
      cases hc
      exact hcall
    · rw [List.concat_eq_append, ← List.cons_append, ← List.append_assoc] at hcalls
      exact h front c back (List.append_inj' hcalls rfl).1

/-! ## First uses -/

theorem eraseDups_snoc (l : List String) (x : String) :
    (l ++ [x]).eraseDups = if x ∈ l then l.eraseDups else l.eraseDups ++ [x] := by
  rw [List.eraseDups_append]
  split
  · rename_i h
    rw [List.removeAll, List.filter_cons_of_neg (by simpa using h)]
    exact List.append_nil _
  · rename_i h
    rw [List.removeAll, List.filter_cons_of_pos (by simpa using h)]
    rfl

theorem eraseDups_nodup (l : List String) : l.eraseDups.Nodup := by
  induction l using List.reverseRecOn with
  | nil => exact List.nodup_nil
  | append_singleton l x ih =>
    rw [eraseDups_snoc]
    split
    · exact ih
    · rename_i h
      exact nodup_snoc ih fun hx => h (List.mem_eraseDups.1 hx)

/-- Adding a source lists it behind the others unless it is known. -/
theorem addSource_sources (b : SourceMapBuilder) (name : String) :
    (b.addSource name).2.sources.toList =
      if name ∈ b.sources.toList then b.sources.toList else b.sources.toList ++ [name] := by
  unfold addSource
  rcases idxOf?_spec b.sources name with ⟨id, hid, hget⟩ | ⟨hid, hnot⟩
  · rw [hid, if_pos (List.mem_of_getElem? hget)]
  · rw [hid, if_neg hnot]
    exact Array.toList_push

/-- Contents are listed beside their sources, a new one without any. -/
theorem addSource_contents (b : SourceMapBuilder) (name : String) :
    (b.addSource name).2.contents =
      if name ∈ b.sources.toList then b.contents else b.contents.push none := by
  unfold addSource
  rcases idxOf?_spec b.sources name with ⟨id, hid, hget⟩ | ⟨hid, hnot⟩
  · rw [hid, if_pos (List.mem_of_getElem? hget)]
  · rw [hid, if_neg hnot]

/-- The number of a name is its place in the list of names. -/
theorem addName_eq (b : SourceMapBuilder) (name : String) :
    b.addName name =
      let names := if name ∈ b.names.toList then b.names.toList else b.names.toList ++ [name]
      (names.idxOf name, { b with names := names.toArray }) := by
  obtain ⟨file, sources, contents, ⟨names⟩, segments⟩ := b
  unfold addName
  simp only [List.idxOf?_toArray]
  cases hid : names.idxOf? name with
  | none =>
    have hnot := List.idxOf?_eq_none_iff.1 hid
    rw [if_neg hnot, List.idxOf_append_of_notMem hnot]
    simp
  | some id =>
    obtain ⟨hlt, hname, -⟩ := List.idxOf?_eq_some_iff.1 hid
    have hmem : name ∈ names := hname ▸ List.getElem_mem hlt
    rw [if_pos hmem, List.idxOf_eq_getD_idxOf?, hid]
    rfl

/-! ## What a builder holds -/

/-- What a builder holds after calls. -/
structure Holds (b : SourceMapBuilder) (calls : List BuilderCall) : Prop where
  sources : b.sources.toList = (calls.filterMap (·.source?)).eraseDups
  names : b.names.toList = (calls.filterMap (·.name?)).eraseDups
  segments : b.segments.toList = calls.filterMap (·.segment? b.names.toList)
  beside : b.contents.size = b.sources.size
  contents : ∀ id, b.contents[id]?.join = (calls.filterMap (·.contentOf? id)).getLast?

theorem new_holds (file : Option String) : (new file).Holds [] :=
  ⟨rfl, rfl, rfl, rfl, fun _ => rfl⟩

/-- Names that come later leave the segments of earlier calls as they are. -/
theorem segments_append {names : List String} (hnames : ∀ name ∈ calls.filterMap (·.name?), name ∈ names)
    (more : List String) :
    calls.filterMap (·.segment? (names ++ more)) = calls.filterMap (·.segment? names) := by
  refine List.filterMap_congr fun call hcall => ?_
  cases call with
  | source => rfl
  | content => rfl
  | mapping line column id originLine originColumn name =>
    cases name with
    | none => rfl
    | some name =>
      have hmem := hnames name (List.mem_filterMap.2 ⟨_, hcall, rfl⟩)
      simp only [BuilderCall.segment?, Option.map_some, List.idxOf_append_of_mem hmem]

variable {b : SourceMapBuilder}

theorem Holds.source (h : b.Holds calls) (name : String) :
    (b.addSource name).2.Holds (calls ++ [.source name]) := by
  obtain ⟨hsegments, hnames⟩ := addSource_segments b name
  have hmem : name ∈ b.sources.toList ↔ name ∈ calls.filterMap (·.source?) := by
    rw [h.sources, List.mem_eraseDups]
  have hcontents := addSource_contents b name
  have hsources := addSource_sources b name
  refine ⟨?_, ?_, ?_, ?_, fun id => ?_⟩
  · rw [hsources, List.filterMap_append]
    show _ = (calls.filterMap (·.source?) ++ [name]).eraseDups
    rw [eraseDups_snoc, h.sources]
    simp only [List.mem_eraseDups]
  · rw [hnames, h.names, List.filterMap_append]
    exact congrArg List.eraseDups (List.append_nil _).symm
  · rw [hsegments, hnames, h.segments, List.filterMap_append]
    exact (List.append_nil _).symm
  · rw [hcontents, ← @Array.length_toList _ (b.addSource name).2.sources, hsources]
    split
    · rw [Array.length_toList, h.beside]
    · rw [Array.size_push, List.length_append, Array.length_toList, h.beside]
      rfl
  · rw [hcontents, List.filterMap_append]
    show _ = (calls.filterMap (BuilderCall.contentOf? id) ++ []).getLast?
    rw [List.append_nil, ← h.contents id]
    split
    · rfl
    · rw [Array.getElem?_push]
      split
      · rename_i hid
        rw [hid, Array.getElem?_eq_none (Nat.le_refl _)]
        rfl
      · rfl

theorem Holds.content (h : b.Holds calls) {id : Nat} (hid : id < b.sources.size) (text : String) :
    (b.setContent id text).Holds (calls ++ [.content id text]) := by
  refine ⟨?_, ?_, ?_, ?_, fun i => ?_⟩
  · rw [List.filterMap_append]
    exact h.sources.trans (congrArg List.eraseDups (List.append_nil _).symm)
  · rw [List.filterMap_append]
    exact h.names.trans (congrArg List.eraseDups (List.append_nil _).symm)
  · rw [List.filterMap_append]
    exact h.segments.trans (List.append_nil _).symm
  · exact (Array.size_setIfInBounds ..).trans h.beside
  · rw [List.filterMap_append, setContent, Array.getElem?_setIfInBounds, h.beside, if_pos hid]
    by_cases hi : id = i
    · subst hi
      rw [if_pos rfl]
      simp [BuilderCall.contentOf?]
    · rw [if_neg hi, h.contents i]
      simp [BuilderCall.contentOf?, hi]

theorem Holds.mapping (h : b.Holds calls) (line column id originLine originColumn : Nat)
    (name : Option String) :
    (b.addMapping line column id originLine originColumn name).Holds
      (calls ++ [.mapping line column id originLine originColumn name]) := by
  have hmem : ∀ n, n ∈ b.names.toList ↔ n ∈ calls.filterMap (·.name?) := by
    intro n
    rw [h.names, List.mem_eraseDups]
  have hsources : (calls ++ [BuilderCall.mapping line column id originLine originColumn name]).filterMap
      (·.source?) = calls.filterMap (·.source?) := by simp [BuilderCall.source?]
  have hcontents : ∀ i, (calls ++ [BuilderCall.mapping line column id originLine originColumn name]).filterMap
      (·.contentOf? i) = calls.filterMap (·.contentOf? i) := by simp [BuilderCall.contentOf?]
  cases name with
  | none =>
    refine ⟨by rw [hsources]; exact h.sources, ?_, ?_, h.beside, fun i => by
      rw [hcontents]; exact h.contents i⟩
    · rw [List.filterMap_append]
      exact h.names.trans (congrArg List.eraseDups (List.append_nil _).symm)
    · show (b.segments.push _).toList = _
      rw [Array.toList_push, List.filterMap_append, h.segments]
      rfl
  | some name =>
    -- a known name adds nothing and a new one is added at the end; either way earlier numbers stay
    have hadded : ∃ more, (b.addName name).2.names.toList = b.names.toList ++ more ∧
        b.names.toList ++ more = ((calls ++ [BuilderCall.mapping line column id originLine originColumn
          (some name)]).filterMap (·.name?)).eraseDups ∧
        (b.addName name).1 = (b.names.toList ++ more).idxOf name := by
      rw [addName_eq, List.filterMap_append]
      show ∃ more, _ ∧ _ = (calls.filterMap (·.name?) ++ [name]).eraseDups ∧ _
      rw [eraseDups_snoc, ← h.names]
      simp only [hmem]
      split
      · exact ⟨[], (List.append_nil _).symm, List.append_nil _, by rw [List.append_nil]⟩
      · exact ⟨[name], rfl, rfl, rfl⟩
    obtain ⟨more, hnames, huses, hnumber⟩ := hadded
    have hother : (b.addName name).2 = { b with names := (b.addName name).2.names } := by
      rw [addName_eq]
    have hb : b.addMapping line column id originLine originColumn (some name) =
        { b with
          names := (b.addName name).2.names
          segments := b.segments.push
            ⟨line, column, some ⟨id, originLine, originColumn, some (b.addName name).1⟩⟩ } := by
      simp only [addMapping, addName_eq]
    rw [hb]
    refine ⟨by rw [hsources]; exact h.sources, hnames.trans huses, ?_, h.beside, fun i => by
      rw [hcontents]; exact h.contents i⟩
    show (b.segments.push _).toList =
      List.filterMap (BuilderCall.segment? (b.addName name).2.names.toList) _
    rw [Array.toList_push, List.filterMap_append, hnames,
      segments_append (fun n hn => (hmem n).2 hn), h.segments, hnumber]
    rfl

theorem apply_sources_le (b : SourceMapBuilder) (call : BuilderCall) :
    b.sources.size ≤ (call.apply b).sources.size := by
  cases call with
  | source name =>
    obtain ⟨added, hsources, -⟩ := addSource_spec b name
    rw [← Array.length_toList, ← @Array.length_toList _ (BuilderCall.apply b _).sources]
    show _ ≤ (b.addSource name).2.sources.toList.length
    rw [hsources, List.length_append]
    exact Nat.le_add_right ..
  | content => exact Nat.le_refl _
  | mapping => exact Nat.le_of_eq (congrArg Array.size (addMapping_sources ..).symm)

theorem after_sources_le (front back : List BuilderCall) :
    (after file front).sources.size ≤ (after file (front ++ back)).sources.size := by
  induction back using List.reverseRecOn with
  | nil => rw [List.append_nil]
  | append_singleton back call ih =>
    rw [← List.append_assoc, after_snoc]
    exact Nat.le_trans ih (apply_sources_le _ call)

/-- A number that was answered stays the number of a source. -/
theorem HandedOut.lt {id : Nat} (h : HandedOut file calls id) :
    id < (after file calls).sources.size := by
  obtain ⟨front, name, back, rfl, rfl⟩ := h
  obtain ⟨-, -, -, -, -, -, hget⟩ := addSource_spec (after file front) name
  have hthen : (after file (front ++ [.source name])).sources.size ≤
      (after file (front ++ .source name :: back)).sources.size := by
    rw [← List.singleton_append (l := back), ← List.append_assoc]
    exact after_sources_le ..
  rw [after_snoc] at hthen
  exact Nat.lt_of_lt_of_le (List.getElem?_eq_some_iff.1 hget).1 hthen

/-- What a builder holds after the calls of a caller that keeps to the rules. -/
theorem after_holds (h : CallsFit file calls) : (after file calls).Holds calls := by
  induction calls using List.reverseRecOn with
  | nil => exact new_holds file
  | append_singleton calls call ih =>
    obtain ⟨hcalls, hcall⟩ := callsFit_snoc.1 h
    have hb := ih hcalls
    rw [after_snoc]
    cases call with
    | source name => exact hb.source name
    | content id text => exact hb.content (HandedOut.lt hcall) text
    | mapping line column id originLine originColumn name => exact hb.mapping ..

/-! ## Decoding what was built -/

/-- Segments that are sorted, each once, follow each other in strictly increasing order. -/
theorem sortSegments_increasing (segments : List Segment) :
    (sortSegments segments).Pairwise (·.key < ·.key) := by
  have hle := (sortSegments_le segments).sublist (dropRepeats_sublist _)
  refine (hle.and (sortSegments_nodup segments)).imp fun {a b} hab => ?_
  obtain ⟨hab, hne⟩ := hab
  -- keys in order that were equal would be one segment twice, and repeats are dropped
  by_contra hnot
  exact hne (Segment.le_antisymm hab (Segment.le_iff.2 hnot))

/-- Where names are listed once, the number of a name is the place it is listed at. -/
theorem segment?_eq_some (map : SourceMap) (hnodup : map.names.Nodup) {call : BuilderCall}
    (hname : ∀ name ∈ call.name?, name ∈ map.names) (s : Segment) :
    call.segment? map.names = some s ↔ call.Yields map s := by
  cases call with
  | source => exact ⟨nofun, nofun⟩
  | content => exact ⟨nofun, nofun⟩
  | mapping line column id originLine originColumn name =>
    cases name with
    | none =>
      refine ⟨fun h => ⟨none, (Option.some.inj h).symm, rfl⟩, ?_⟩
      rintro ⟨n, rfl, hn⟩
      rw [Option.map_none, Option.map_eq_none_iff] at hn
      rw [hn]
      rfl
    | some name =>
      have hget : map.name? (map.names.idxOf name) = some name :=
        List.getElem?_idxOf (hname name rfl)
      refine ⟨fun h => ⟨some (map.names.idxOf name), (Option.some.inj h).symm, congrArg some hget⟩, ?_⟩
      rintro ⟨n, rfl, hn⟩
      obtain ⟨k, rfl, hk⟩ := Option.map_eq_some_iff.1 hn
      rw [getElem?_inj hnodup hk hget]
      rfl

/-- The segments of a builder are those of the mappings recorded. -/
theorem Holds.mem_segments (h : b.Holds calls) {s : Segment} :
    s ∈ b.segments.toList ↔ ∃ call ∈ calls, call.Yields b.build s := by
  have hnodup : b.names.toList.Nodup := by
    rw [h.names]
    exact eraseDups_nodup _
  rw [h.segments, List.mem_filterMap]
  refine exists_congr fun call => and_congr_right fun hcall =>
    segment?_eq_some b.build hnodup (fun name hname => ?_) s
  show name ∈ b.names.toList
  rw [h.names, List.mem_eraseDups]
  exact List.mem_filterMap.2 ⟨call, hcall, hname⟩

/-- What a caller records that keeps to the rules are words and numbers in use. -/
theorem Holds.fits (hb : (after file calls).Holds calls) (h : CallsFit file calls) {s : Segment}
    (hs : s ∈ (after file calls).segments.toList) : s.Fits (after file calls).build := by
  obtain ⟨call, hcall, hyields⟩ := hb.mem_segments.1 hs
  cases call with
  | source => cases hyields
  | content => cases hyields
  | mapping line column id originLine originColumn name =>
    obtain ⟨n, rfl, hn⟩ := hyields
    obtain ⟨front, back, hcalls⟩ := List.append_of_mem hcall
    obtain ⟨hline, hcolumn, horiginLine, horiginColumn, hid⟩ := h front _ back hcalls
    have hknown : id < (after file calls).sources.toList.length := by
      rw [hcalls, Array.length_toList]
      exact Nat.lt_of_lt_of_le hid.lt (after_sources_le front _)
    refine ⟨hcolumn, ?_⟩
    rintro _ ⟨⟩
    refine ⟨hknown, horiginLine, horiginColumn, ?_⟩
    rintro k ⟨⟩
    obtain ⟨name, -, hname⟩ := Option.map_eq_some_iff.1 hn.symm
    exact (List.getElem?_eq_some_iff.1 hname.symm).1

theorem any_isSome_iff (contents : Array (Option String)) :
    contents.any Option.isSome = true ↔ ∃ (id : Nat) (text : String), contents[id]?.join = some text := by
  rw [Array.any_eq_true]
  constructor
  · rintro ⟨id, hid, hsome⟩
    obtain ⟨text, htext⟩ := Option.isSome_iff_exists.1 hsome
    exact ⟨id, text, by rw [Array.getElem?_eq_getElem hid, htext]; rfl⟩
  · rintro ⟨id, text, hjoin⟩
    obtain ⟨hid, hget⟩ := Array.getElem?_eq_some_iff.1 (Option.join_eq_some_iff.1 hjoin)
    exact ⟨id, hid, by rw [hget]; rfl⟩

/-- The contents of a built map are those last set. -/
theorem Holds.content?_build (h : b.Holds calls) (id : Nat) :
    b.build.content? id = (calls.filterMap (·.contentOf? id)).getLast? := by
  rw [← h.contents id]
  unfold SourceMap.content? build
  by_cases hany : b.contents.any Option.isSome = true
  · simp only [hany, if_true, Array.getElem?_toList]
  · simp only [if_neg hany]
    cases hjoin : b.contents[id]?.join with
    | none => rfl
    | some text => exact absurd ((any_isSome_iff _).2 ⟨id, text, hjoin⟩) hany

/-- A list of contents is kept exactly if one was set. -/
theorem Holds.sourcesContent_build (h : b.Holds calls) :
    b.build.sourcesContent = none ↔ ∀ id text, .content id text ∉ calls := by
  have hset : b.contents.any Option.isSome = true ↔ ∃ id text, BuilderCall.content id text ∈ calls := by
    rw [any_isSome_iff]
    refine exists_congr fun id => ?_
    rw [h.contents id, ← Option.isSome_iff_exists, List.getLast?_isSome, ne_eq,
      List.filterMap_eq_nil_iff]
    constructor
    · intro hsome
      by_contra hnone
      refine hsome fun call hcall => ?_
      cases call with
      | source => rfl
      | mapping => rfl
      | content i text => exact if_neg fun hi : i = id => hnone ⟨text, hi ▸ hcall⟩
    · rintro ⟨text, hcall⟩ hnone
      exact absurd (hnone _ hcall) (by simp [BuilderCall.contentOf?])
  unfold build
  by_cases hany : b.contents.any Option.isSome = true
  · obtain ⟨id, text, hcall⟩ := hset.1 hany
    exact ⟨fun h => absurd (if_pos hany ▸ h) (by simp), fun h => absurd hcall (h id text)⟩
  · exact ⟨fun _ id text hcall => hany (hset.2 ⟨id, text, hcall⟩), fun _ => if_neg hany⟩

/-- No difference of words is too long for the check of mappings. -/
theorem checkMappings_difference_only {a b : Nat} (ha : a < wordLimit) (hb : b < wordLimit) :
    checkMappings 0 (difference a b) = .ok () := by
  rw [← List.append_nil (difference a b)]
  exact checkMappings_difference ha hb []

/--
A built map decodes to what was recorded, in increasing order and each segment once. Sources and
names are listed by their first use, contents are the last ones set, and there are none if none
was set. Places as far apart as words can be are no obstacle.
-/
theorem decode_build (h : CallsFit file calls)
    (hsources : (calls.filterMap (·.source?)).eraseDups.length < wordLimit - 1)
    (hnames : (calls.filterMap (·.name?)).eraseDups.length < wordLimit - 1) :
    let map := (after file calls).build
    (∃ segments, map.decode = .ok segments ∧ segments.Pairwise (·.key < ·.key) ∧
      ∀ s, s ∈ segments ↔ ∃ call ∈ calls, call.Yields map s) ∧
    map.sources = (calls.filterMap (·.source?)).eraseDups ∧
    map.names = (calls.filterMap (·.name?)).eraseDups ∧
    (∀ id, map.content? id = (calls.filterMap (·.contentOf? id)).getLast?) ∧
    (map.sourcesContent = none ↔ ∀ id text, .content id text ∉ calls) ∧
    ∀ a < wordLimit, ∀ b < wordLimit, checkMappings 0 (difference a b) = .ok () := by
  intro map
  have hb := after_holds h
  have hsmall : map.Small := by
    refine ⟨?_, ?_⟩
    · show (after file calls).sources.toList.length ≤ _
      rw [hb.sources]
      omega
    · show (after file calls).names.toList.length ≤ _
      rw [hb.names]
      omega
  refine ⟨⟨_, decode_mappingsText hsmall rfl rfl ?_ (sortSegments_sorted _),
      sortSegments_increasing _, fun s => ?_⟩, hb.sources, hb.names, hb.content?_build,
    hb.sourcesContent_build, fun a ha b hb => checkMappings_difference_only ha hb⟩
  · intro s hs
    exact hb.fits h (mem_sortSegments.1 hs)
  · rw [mem_sortSegments]
    exact hb.mem_segments

end

/-- A mapping from the last place of a source to the first of the output, and one the other way. -/
theorem decode_build_far :
    let calls : List BuilderCall := [.source "a.json", .source "b.json", .content 1 "old",
      .mapping 4294967295 0 1 0 4294967295 (some "n"), .content 1 "new",
      .mapping 0 4294967295 0 4294967295 0 none]
    let map := (after (some "out.js") calls).build
    CallsFit (some "out.js") calls ∧
    (∃ segments, map.decode = .ok segments ∧
      ⟨0, 4294967295, some ⟨0, 4294967295, 0, none⟩⟩ ∈ segments) ∧
    map.sources = ["a.json", "b.json"] ∧ map.content? 0 = none ∧ map.content? 1 = some "new" := by
  intro calls map
  have hfirst : ∀ back, HandedOut (some "out.js") (.source "a.json" :: back) 0 :=
    fun back => ⟨[], _, back, rfl, by decide +kernel⟩
  have hsecond : ∀ back, HandedOut (some "out.js") (.source "a.json" :: .source "b.json" :: back) 1 :=
    fun back => ⟨[.source "a.json"], _, back, rfl, by decide +kernel⟩
  have hfits : CallsFit (some "out.js") calls := by
    show CallsFit _ [_, _, _, _, _, _]
    rintro (_ | ⟨_, _ | ⟨_, _ | ⟨_, _ | ⟨_, _ | ⟨_, _ | ⟨_, front⟩⟩⟩⟩⟩⟩) call back h
    · cases h
      trivial
    · cases h
      trivial
    · cases h
      exact hsecond _
    · cases h
      exact ⟨by decide, by decide, by decide, by decide, hsecond _⟩
    · cases h
      exact hsecond _
    · cases h
      exact ⟨by decide, by decide, by decide, by decide, hfirst _⟩
    · exact absurd (congrArg List.length h) (by simp)
  obtain ⟨⟨segments, hdecode, -, hmem⟩, hsources, -, hcontents, -⟩ :=
    decode_build hfits (by decide) (by decide)
  refine ⟨hfits, ⟨segments, hdecode, (hmem _).2 ?_⟩, hsources.trans (by decide), hcontents 0,
    hcontents 1⟩
  exact ⟨.mapping 0 4294967295 0 4294967295 0 none, by decide, none, rfl, rfl⟩

end SourceMapBuilder

end MessageCatalog
