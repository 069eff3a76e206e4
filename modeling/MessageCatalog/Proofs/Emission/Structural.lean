/-
The structural map of a module, exactly. The code of every message, and code that is kept as it is, is
recorded with the place that it starts at. Between two of these stands a bracket, a comma or a key, so
the records are in strictly increasing order as they are made, and the map decodes to just them.
-/
import MessageCatalog.Proofs.Emission.Lenient
import MessageCatalog.Proofs.Emission.Mapped

namespace MessageCatalog

open MessageCatalog.Code MessageCatalog.Text

/-! ## Places in order -/

/-- The generated place of a segment. -/
def Segment.place (s : Segment) : Nat × Nat := (s.line, s.column)

/-- Segments at different places are ordered by their places alone. -/
theorem Segment.le_of_precedes {a b : Segment} (h : Precedes a.place b.place) : a.le b = true := by
  rw [Segment.le_iff]
  intro hlt
  rcases List.cons_lt_cons_iff.1 hlt with hline | ⟨hline, hlt⟩
  · rcases h with h | ⟨h, -⟩ <;> simp only [Segment.place] at h <;> omega
  · rcases List.cons_lt_cons_iff.1 hlt with hcolumn | ⟨hcolumn, -⟩
    · rcases h with h | ⟨h, h'⟩ <;> simp only [Segment.place] at * <;> omega
    · rcases h with h | ⟨h, h'⟩ <;> simp only [Segment.place] at * <;> omega

/-- The places of segments are those that their readings tell. -/
theorem Segment.places_of_readings {sources names : List String} : ∀ {segments : List Segment}
    {readings : List Reading}, segments.map (·.reading sources names) = readings.map some →
    segments.map Segment.place = readings.map fun r => (r.line, r.column)
  | [], [], _ => rfl
  | s :: segments, r :: readings, h => by
    obtain ⟨hfirst, hrest⟩ := List.cons.inj h
    obtain ⟨id, name, rfl, -⟩ := Segment.reading_eq_some hfirst
    exact congrArg₂ List.cons rfl (places_of_readings hrest)

theorem dropRepeats_eq_self : ∀ {segments : List Segment}, segments.Pairwise (· ≠ ·) →
    dropRepeats segments = segments
  | [], _ => rfl
  | [a], _ => rfl
  | a :: b :: rest, h => by
    obtain ⟨ha, hrest⟩ := List.pairwise_cons.1 h
    rw [dropRepeats, if_neg (ha b List.mem_cons_self), dropRepeats_eq_self hrest]

/-- Segments that are recorded in the order of their places stay as they are. -/
theorem sortSegments_eq_self {segments : List Segment}
    (h : segments.Pairwise fun a b => Precedes a.place b.place) :
    sortSegments segments = segments := by
  rw [sortSegments, List.mergeSort_of_pairwise (h.imp Segment.le_of_precedes)]
  refine dropRepeats_eq_self (h.imp fun {a b} hab he => ?_)
  subst he
  rcases hab with hab | ⟨-, hab⟩ <;> exact Nat.lt_irrefl _ hab

namespace Emission

/-! ## Sites -/

/-- A node whose code is recorded: a message, or code that is kept as it is. -/
inductive Site where
  | message (leaf : Leaf)
  | verbatim (v : Verbatim)
  deriving DecidableEq, Repr

/-- Where the code of a site comes from. -/
def Site.origin : Site → Position
  | .message leaf => leaf.scalar.contentStart
  | .verbatim v => v.span.start

/-- The name that the code of a site is recorded under: its literal, if it is a message. -/
def Site.name : Site → Option String
  | .message leaf => some leaf.literal
  | .verbatim _ => none

def Chunk.site? : Chunk → Option Site
  | .text _ => none
  | .message scalar literal path => some (.message ⟨scalar, literal, path⟩)
  | .verbatim v => some (.verbatim v)

section

variable (options : Options)

mutual

/-- The sites of a node in document order; messages have the path that they are found at. -/
def sites (path : List String) : Node → List Site
  | .mapping pairs _ => pairSites path pairs
  | .sequence items _ => itemSites path 0 items
  | .scalar s => (message? options s).toList.map fun literal => .message ⟨s, literal, path⟩
  | .verbatim v => [.verbatim v]

def pairSites (path : List String) : List (Key × Node) → List Site
  | [] => []
  | (key, value) :: rest => sites (path ++ [key.text]) value ++ pairSites path rest

def itemSites (path : List String) (index : Nat) : List Node → List Site
  | [] => []
  | item :: rest => sites (path ++ [toString index]) item ++ itemSites path (index + 1) rest

end

theorem scalarChunk_site (path : List String) (s : Scalar) :
    [scalarChunk options path s].filterMap Chunk.site? =
      (message? options s).toList.map fun literal => .message ⟨s, literal, path⟩ := by
  unfold scalarChunk message?
  cases s.value <;> simp only <;> try split
  all_goals rfl

mutual

theorem nodeChunks_sites : ∀ (node : Node) (level : Nat) (path : List String),
    (nodeChunks options level path node).filterMap Chunk.site? = sites options path node
  | .mapping pairs _, level, path => by
    rw [nodeChunks, filterMap_bracketed (fun _ => rfl), pairChunks_sites pairs, sites]
  | .sequence items _, level, path => by
    rw [nodeChunks, filterMap_bracketed (fun _ => rfl), itemChunks_sites items, sites]
  | .verbatim v, level, path => rfl
  | .scalar s, level, path => by
    rw [nodeChunks, scalarChunk_site, sites]

theorem pairChunks_sites : ∀ (pairs : List (Key × Node)) (level : Nat) (path : List String),
    (pairChunks options level path pairs).flatMap (·.filterMap Chunk.site?) =
      pairSites options path pairs
  | [], level, path => rfl
  | (key, value) :: rest, level, path => by
    rw [pairChunks, List.flatMap_cons, List.filterMap_cons_none rfl, nodeChunks_sites value,
      pairChunks_sites rest, pairSites]

theorem itemChunks_sites : ∀ (items : List Node) (level : Nat) (path : List String) (index : Nat),
    (itemChunks options level path index items).flatMap (·.filterMap Chunk.site?) =
      itemSites options path index items
  | [], level, path, index => rfl
  | item :: rest, level, path, index => by
    rw [itemChunks, List.flatMap_cons, nodeChunks_sites item, itemChunks_sites rest, itemSites]

end

theorem moduleChunks_sites (bridgePayload : Option String) (root : Node) :
    (moduleChunks options bridgePayload root).filterMap Chunk.site? = sites options [] root := by
  rw [filterMap_moduleChunks (fun _ => rfl), nodeChunks_sites]

end

/-! ## Sites stand apart -/

/-- Chunks in which every site is followed by text that is not empty. -/
inductive Apart : List Chunk → Prop where
  | nil : Apart []
  | text {code : String} {rest : List Chunk} : Apart rest → Apart (.text code :: rest)
  | site {chunk : Chunk} {code : String} {rest : List Chunk} : chunk.site?.isSome → code ≠ "" →
      Apart rest → Apart (chunk :: .text code :: rest)

/-- Chunks whose sites stand apart in front of any text that is not empty. -/
def Separable (chunks : List Chunk) : Prop :=
  ∀ {code rest}, code ≠ "" → Apart rest → Apart (chunks ++ .text code :: rest)

theorem intercalate_separable {sep : String} (hsep : sep ≠ "") : ∀ {children : List (List Chunk)},
    (∀ child ∈ children, Separable child) → Separable ([.text sep].intercalate children)
  | [], _, _, _, _, hrest => .text hrest
  | first :: others, h, code, rest, hcode, hrest => by
    obtain ⟨hfirst, hothers⟩ := List.forall_mem_cons.1 h
    rw [intercalate_cons, List.append_assoc]
    split
    · exact hfirst hcode hrest
    · exact hfirst hsep (intercalate_separable hsep hothers hcode hrest)

theorem bracketed_separable {opening closing : String} {level : Nat} {children : List (List Chunk)}
    (h : ∀ child ∈ children, Separable child) :
    Separable (bracketed opening closing level children) := by
  intro code rest hcode hrest
  unfold bracketed
  split
  · exact .text (.text hrest)
  · rw [List.cons_append, List.append_assoc]
    refine .text (intercalate_separable (by simp [separator]) h ?_ (.text hrest))
    simp [Writer.lineBreak]

section

variable {options : Options}

theorem scalarChunk_separable (path : List String) (s : Scalar) :
    Separable [scalarChunk options path s] := by
  intro code rest hcode hrest
  unfold scalarChunk
  split
  · exact .site rfl hcode hrest
  · split
    · exact .site rfl hcode hrest
    · exact .text (.text hrest)

mutual

theorem nodeChunks_separable : ∀ (node : Node) (level : Nat) (path : List String),
    Separable (nodeChunks options level path node)
  | .mapping pairs _, level, path => by
    rw [nodeChunks]
    exact bracketed_separable (pairChunks_separable pairs (level + 1) path)
  | .sequence items _, level, path => by
    rw [nodeChunks]
    exact bracketed_separable (itemChunks_separable items (level + 1) path 0)
  | .scalar s, level, path => by
    rw [nodeChunks]
    exact scalarChunk_separable path s
  | .verbatim v, level, path => by
    rw [nodeChunks]
    exact fun hcode hrest => .site rfl hcode hrest

theorem pairChunks_separable : ∀ (pairs : List (Key × Node)) (level : Nat) (path : List String),
    ∀ child ∈ pairChunks options level path pairs, Separable child
  | [], level, path => List.forall_mem_nil _
  | (key, value) :: rest, level, path => by
    rw [pairChunks]
    exact List.forall_mem_cons.2 ⟨fun hcode hrest => .text (nodeChunks_separable value _ _ hcode hrest),
      pairChunks_separable rest level path⟩

theorem itemChunks_separable : ∀ (items : List Node) (level : Nat) (path : List String) (index : Nat),
    ∀ child ∈ itemChunks options level path index items, Separable child
  | [], level, path, index => List.forall_mem_nil _
  | item :: rest, level, path, index => by
    rw [itemChunks]
    exact List.forall_mem_cons.2 ⟨nodeChunks_separable item _ _,
      itemChunks_separable rest level path (index + 1)⟩

end

theorem epilogueText_ne_empty (options : Options) (bridgePayload : Option String) :
    epilogueText options bridgePayload ≠ "" := by
  unfold epilogueText
  split <;> simp [Writer.lineBreak]

theorem moduleChunks_apart (bridgePayload : Option String) (root : Node) :
    Apart (moduleChunks options bridgePayload root) :=
  .text (nodeChunks_separable root _ _ (epilogueText_ne_empty options bridgePayload) .nil)

end

/-! ## Stretches -/

/-- The code of a site, with the generated text in front of it. -/
structure Stretch where
  site : Site
  before : List Char
  code : String
  deriving DecidableEq, Repr

/-- What is recorded for a stretch as it is written: it starts where the text in front of it ends. -/
def Stretch.recorded (filename : String) (s : Stretch) : Reading :=
  readingAt s.before filename s.site.origin s.site.name

/--
What a stretch of a generated code says: the position of its first byte in the code comes from the
origin of its site. Lines count from 0 here, and from 1 in positions.
-/
def Stretch.reading (generated : List Char) (filename : String) (s : Stretch) : Reading :=
  let start := (LineIndex.ofText generated).position (byteLength s.before)
  ⟨start.line - 1, start.column, filename, s.site.origin.line - 1, s.site.origin.column, s.site.name⟩

theorem Stretch.reading_of_prefix {s : Stretch} {generated : List Char} (h : s.before <+: generated)
    (filename : String) : s.reading generated filename = s.recorded filename := by
  obtain ⟨behind, rfl⟩ := h
  unfold Stretch.reading Stretch.recorded readingAt
  rw [position_append]
  rfl

variable {μ : Type}

section

variable (compiler : RememberingCompiler μ) (options : Options)

/-- The stretches of chunks that are printed behind a text. -/
def stretches (before : List Char) : List Chunk → Printing μ (List Stretch)
  | [] => pure []
  | chunk :: rest => do
    let code ← printChunk compiler options chunk
    let others ← stretches (before ++ code.toList) rest
    return (chunk.site?.map (⟨·, before, code⟩)).toList ++ others

variable {compiler options} {chunks rest : List Chunk} {chunk : Chunk} {before : List Char}
  {memory memory' : μ} {marks : List Stretch}

theorem stretches_cons (h : stretches compiler options before (chunk :: rest) memory =
      some (marks, memory')) : ∃ code next others,
    printChunk compiler options chunk memory = some (code, next) ∧
      stretches compiler options (before ++ code.toList) rest next = some (others, memory') ∧
      marks = (chunk.site?.map (⟨·, before, code⟩)).toList ++ others := by
  rw [stretches, printing_bind] at h
  obtain ⟨⟨code, next⟩, hcode, h⟩ := Option.bind_eq_some_iff.1 h
  rw [printing_bind] at h
  obtain ⟨⟨others, last⟩, hothers, h⟩ := Option.bind_eq_some_iff.1 h
  cases h
  exact ⟨code, next, others, hcode, hothers, rfl⟩

/-- The stretches are those of the sites, in order. -/
theorem stretches_sites (h : stretches compiler options before chunks memory =
    some (marks, memory')) : marks.map (·.site) = chunks.filterMap Chunk.site? := by
  induction chunks generalizing before memory marks with
  | nil => cases h; rfl
  | cons chunk rest ih =>
    obtain ⟨code, next, others, -, hothers, rfl⟩ := stretches_cons h
    rw [List.map_append, ih hothers]
    cases hsite : chunk.site? with
    | none => rw [List.filterMap_cons_none hsite]; rfl
    | some site => rw [List.filterMap_cons_some hsite]; rfl

/-- Stretches start behind what is in front of the chunks. -/
theorem stretches_behind (h : stretches compiler options before chunks memory =
    some (marks, memory')) : ∀ s ∈ marks, before <+: s.before := by
  induction chunks generalizing before memory marks with
  | nil => cases h; exact List.forall_mem_nil _
  | cons chunk rest ih =>
    obtain ⟨code, next, others, -, hothers, rfl⟩ := stretches_cons h
    refine List.forall_mem_append.2 ⟨fun s hs => ?_, fun s hs => ?_⟩
    · obtain ⟨site, -, rfl⟩ := Option.map_eq_some_iff.1 (Option.mem_toList.1 hs)
      exact List.prefix_refl _
    · exact (List.prefix_append _ _).trans (ih hothers s hs)

/-- A stretch starts behind another one, and not where that one does. -/
def Stretch.Before (a b : Stretch) : Prop := ∃ between, between ≠ [] ∧ b.before = a.before ++ between

/-- Where sites stand apart, every stretch starts behind those in front of it. -/
theorem Apart.stretches (hapart : Apart chunks)
    (h : stretches compiler options before chunks memory = some (marks, memory')) :
    marks.Pairwise Stretch.Before := by
  induction hapart generalizing before memory marks with
  | nil => cases h; exact .nil
  | text _ ih =>
    obtain ⟨code, next, others, -, hothers, rfl⟩ := stretches_cons h
    exact ih hothers
  | @site chunk code rest hsite hcode _ ih =>
    obtain ⟨first, next, others, -, hothers, rfl⟩ := stretches_cons h
    obtain ⟨_, last, behind, ⟨⟩, hbehind, rfl⟩ := stretches_cons hothers
    obtain ⟨site, hsite⟩ := Option.isSome_iff_exists.1 hsite
    rw [hsite]
    refine List.pairwise_cons.2 ⟨fun s hs => ?_, ih hbehind⟩
    -- the text behind the site stands in front of all that follow
    obtain ⟨more, hmore⟩ := stretches_behind hbehind s hs
    refine ⟨first.toList ++ code.toList ++ more, ?_, ?_⟩
    · have hlist : code.toList ≠ [] := fun h => hcode (String.toList_eq_nil_iff.1 h)
      simp [hlist]
    · rw [← hmore]
      simp only [List.append_assoc]

theorem Stretch.Before.precedes {a b : Stretch} (h : a.Before b) :
    Precedes (advance (0, 0) a.before) (advance (0, 0) b.before) := by
  obtain ⟨between, hne, hbefore⟩ := h
  rw [hbefore, advance_append]
  exact precedes_advance hne _

/-- There are no more stretches than units in the code they are in, and one. -/
theorem length_le_of_before {limit : Nat} (h : marks.Pairwise Stretch.Before)
    (hlimit : ∀ s ∈ marks, units s.before ≤ limit) : marks.length ≤ limit + 1 := by
  have hnodup : (marks.map fun s => units s.before).Nodup := by
    refine List.pairwise_map.2 (h.imp fun {a b} hab => ?_)
    obtain ⟨between, hne, hbefore⟩ := hab
    obtain ⟨c, more, rfl⟩ := List.exists_cons_of_ne_nil hne
    have hpos := unitsOf_pos c
    rw [hbefore, units_append, units]
    omega
  have hsubset : ∀ n ∈ marks.map fun s => units s.before, n ∈ List.range (limit + 1) := by
    intro n hn
    obtain ⟨s, hs, rfl⟩ := List.mem_map.1 hn
    exact List.mem_range.2 (Nat.lt_succ_of_le (hlimit s hs))
  have hle := (List.subperm_of_subset hnodup hsubset).length_le
  rwa [List.length_map, List.length_range] at hle

end

/-! ## Recording -/

/-- An output that holds the code of stretches and has them recorded. -/
structure Recorded (cx : Context μ) (marks : List Stretch) (out : Output μ) : Prop where
  place : (out.writer.line, out.writer.column) = advance (0, 0) out.writer.code.toList
  inside : ∀ s ∈ marks, s.before ++ s.code.toList <+: out.writer.code.toList
  map : ∃ b, out.writer.map = some (b, 0) ∧ b.sources.toList = [cx.filename] ∧
    b.contents.toList = [some (String.ofList cx.source)] ∧
    b.Records (marks.map (·.recorded cx.filename))

section

variable {cx : Context μ} {marks : List Stretch} {out next out' : Output μ} {chunk : Chunk}

theorem acceptMessage_writer (scalar : Scalar) (literal : String) (compiled : CompiledMessage) :
    (acceptMessage cx out scalar literal compiled).writer =
      out.writer.pushMapped compiled.code scalar.contentStart (some literal) := by
  unfold acceptMessage
  cases compiled.map with
  | none => rfl
  | some map => simp only; split <;> rfl

/-- A chunk is written as it is printed, and recorded if it is a site. -/
theorem writeChunk_writer (h : writeChunk cx out chunk = .ok next) : ∃ code,
    printChunk cx.compiler cx.options chunk out.memory = some (code, next.memory) ∧
      next.writer = match chunk.site? with
        | some site => out.writer.pushMapped code site.origin site.name
        | none => out.writer.push code := by
  cases chunk with
  | text code => cases h; exact ⟨code, rfl, rfl⟩
  | verbatim v => cases h; exact ⟨v.code, rfl, rfl⟩
  | message scalar literal path =>
    simp only [writeChunk, writeMessage] at h
    simp only [printChunk, printMessage, Chunk.site?]
    generalize cx.compiler literal cx.options path out.memory = asked at h ⊢
    obtain ⟨answer, memory⟩ := asked
    cases answer with
    | ok compiled =>
      cases h
      refine ⟨compiled.code, ?_, acceptMessage_writer _ _ _⟩
      rw [(Prod.mk.inj (acceptMessage_code { out with memory } scalar literal compiled)).2]
    | error e =>
      simp only [writeAnswer] at h
      split at h
      · rename_i hlenient
        cases h
        exact ⟨Json.quoted literal, if_pos hlenient, rfl⟩
      · cases h

theorem Recorded.push (h : Recorded cx marks out) {code : String} {added : List Stretch}
    (hadded : ∀ s ∈ added, s.before ++ s.code.toList <+: out.writer.code.toList ++ code.toList)
    {map : Option (SourceMapBuilder × Nat)} (hmap : ∃ b, map = some (b, 0) ∧
      b.sources.toList = [cx.filename] ∧ b.contents.toList = [some (String.ofList cx.source)] ∧
      b.Records ((marks ++ added).map (·.recorded cx.filename)))
    (hnext : next.writer = { out.writer with map }.push code) : Recorded cx (marks ++ added) next := by
  have hcode : next.writer.code.toList = out.writer.code.toList ++ code.toList := by
    rw [hnext]
    exact String.toList_append
  refine ⟨?_, List.forall_mem_append.2 ⟨fun s hs => ?_, fun s hs => ?_⟩, ?_⟩
  · rw [hcode, advance_append, ← h.place, hnext]
    rfl
  · rw [hcode]
    exact (h.inside s hs).trans (List.prefix_append _ _)
  · rw [hcode]
    exact hadded s hs
  · rw [hnext]
    exact hmap

/-- A chunk leaves what is recorded, and its own stretch if it is a site. -/
theorem Recorded.written (h : Recorded cx marks out) (hwrite : writeChunk cx out chunk = .ok next) :
    ∃ code, printChunk cx.compiler cx.options chunk out.memory = some (code, next.memory) ∧
      next.writer.code = out.writer.code ++ code ∧
      Recorded cx (marks ++ (chunk.site?.map (⟨·, out.writer.code.toList, code⟩)).toList) next := by
  obtain ⟨code, hprinted, hwriter⟩ := writeChunk_writer hwrite
  refine ⟨code, hprinted, ?_, ?_⟩
  · rw [hwriter]
    split <;> rfl
  · obtain ⟨b, hb, hsources, hcontents, hrecords⟩ := h.map
    cases hsite : chunk.site? with
    | none =>
      rw [hsite] at hwriter
      refine h.push (List.forall_mem_nil _) ⟨b, hb, hsources, hcontents, ?_⟩ hwriter
      rwa [Option.map_none, Option.toList_none, List.append_nil]
    | some site =>
      rw [hsite] at hwriter
      obtain ⟨hline, hcolumn⟩ := Prod.mk.inj h.place
      let recorded := b.addMapping out.writer.line out.writer.column 0 (site.origin.line - 1)
        site.origin.column site.name
      refine h.push (List.forall_mem_singleton.2 (List.prefix_refl _))
        ⟨recorded, ?_, ?_, ?_, ?_⟩ hwriter
      · rw [hb]
        rfl
      · rw [SourceMapBuilder.addMapping_sources, hsources]
      · rw [SourceMapBuilder.addMapping_contents, hcontents]
      · have hknown : b.sources.toList[0]? = some cx.filename := by
          rw [hsources]
          rfl
        have hreading : Stretch.recorded cx.filename ⟨site, out.writer.code.toList, code⟩ =
            ⟨out.writer.line, out.writer.column, cx.filename, site.origin.line - 1,
              site.origin.column, site.name⟩ := by
          rw [hline, hcolumn]
          rfl
        rw [List.map_append]
        show recorded.Records (_ ++ [Stretch.recorded cx.filename _])
        rw [hreading]
        exact hrecords.addMapping hknown _ _ _ _ _

/-- Chunks are written with their stretches recorded. -/
theorem writeChunks_recorded : ∀ {chunks : List Chunk} {marks : List Stretch} {out : Output μ},
    Recorded cx marks out → writeChunks cx chunks out = .ok out' →
    ∃ others, stretches cx.compiler cx.options out.writer.code.toList chunks out.memory =
        some (others, out'.memory) ∧ Recorded cx (marks ++ others) out'
  | [], marks, out, h, hwrite => by
    cases hwrite
    exact ⟨[], rfl, by rwa [List.append_nil]⟩
  | chunk :: rest, marks, out, h, hwrite => by
    obtain ⟨next, hnext, hrest⟩ := bind_eq_ok.1 hwrite
    obtain ⟨code, hprinted, hcode, hrecorded⟩ := h.written hnext
    obtain ⟨others, hothers, hlast⟩ := writeChunks_recorded hrecorded hrest
    rw [hcode, String.toList_append] at hothers
    refine ⟨_, ?_, by rwa [List.append_assoc] at hlast⟩
    rw [stretches, printing_bind, hprinted, Option.bind_some, printing_bind, hothers]
    rfl

theorem start_recorded {source : String} {document : Document} (hsource : cx.source = source.toList)
    (hfilename : cx.filename = document.filename) (hmap : cx.options.sourceMap = true) (memory : μ) :
    Recorded cx [] (State.start document source cx.options memory).output where
  place := rfl
  inside := List.forall_mem_nil _
  map := by
    obtain ⟨b, hb, hsources, hcontents, hrecords⟩ := @start_map _ cx source document hmap memory
    refine ⟨b, hb, hfilename ▸ hsources, ?_, hrecords⟩
    rw [hsource, String.ofList_toList, hcontents]

/-- What is built decodes to the stretches, in the order that they stand in. -/
theorem Recorded.decodes (h : Recorded cx marks out) (hapart : marks.Pairwise Stretch.Before)
    (hwords : ∀ s ∈ marks, s.site.origin.line - 1 < wordLimit ∧ s.site.origin.column < wordLimit)
    (hcode : units out.writer.code.toList < wordLimit) : ∃ map segments,
      out.writer.finish.2 = some map ∧ map.sources = [cx.filename] ∧
      map.sourcesContent = some [some (String.ofList cx.source)] ∧ map.decode = .ok segments ∧
      segments.map map.reading =
        marks.map (fun s => some (s.reading out.writer.code.toList cx.filename)) ∧
      segments.Pairwise fun a b => Precedes a.place b.place := by
  obtain ⟨b, hb, hsources, hcontents, hrecords⟩ := h.map
  have hinside : ∀ s ∈ marks, s.before <+: out.writer.code.toList :=
    fun s hs => (List.prefix_append _ _).trans (h.inside s hs)
  have hunits : ∀ s ∈ marks, units s.before ≤ units out.writer.code.toList := by
    intro s hs
    obtain ⟨behind, hbehind⟩ := hinside s hs
    rw [← hbehind, units_append]
    exact Nat.le_add_right _ _
  -- the segments are at the places that were recorded, and those increase
  have hplaces : b.segments.toList.map Segment.place =
      marks.map fun s => advance (0, 0) s.before := by
    rw [Segment.places_of_readings hrecords.reads, List.map_map]
    rfl
  have hsorted : b.segments.toList.Pairwise fun a b => Precedes a.place b.place := by
    rw [← List.pairwise_map (f := Segment.place) (R := Precedes), hplaces, List.pairwise_map]
    exact hapart.imp Stretch.Before.precedes
  have hdecodes := hrecords.decodes ?_ ?_ ?_
  · rw [sortSegments_eq_self hsorted] at hdecodes
    refine ⟨b.build, b.segments.toList, ?_, hsources, ?_, hdecodes, ?_, hsorted⟩
    · show out.writer.map.map _ = _
      rw [hb]
      rfl
    · exact SourceMapBuilder.build_sourcesContent hcontents
    · refine hrecords.reads.trans ?_
      rw [List.map_map]
      exact List.map_congr_left fun s hs =>
        congrArg some (Stretch.reading_of_prefix (hinside s hs) cx.filename).symm
  · intro r hr
    obtain ⟨s, hs, rfl⟩ := List.mem_map.1 hr
    have hcolumn := advance_column_le (0, 0) s.before
    have hle := hunits s hs
    obtain ⟨horiginLine, horiginColumn⟩ := hwords s hs
    exact ⟨show (advance (0, 0) s.before).2 < wordLimit by simp only at hcolumn; omega, horiginLine,
      horiginColumn⟩
  · rw [← Array.length_toList, hsources]
    exact Nat.le_of_ble_eq_true rfl
  · have hnames := hrecords.names_le (marks.filterMap (·.site.name)) ?_
    · have hfew := length_le_of_before hapart hunits
      have hle := List.length_filterMap_le (·.site.name) marks
      omega
    · intro r hr name hname
      obtain ⟨s, hs, rfl⟩ := List.mem_map.1 hr
      exact List.mem_filterMap.2 ⟨s, hs, hname⟩

end

/-! ## Literals with a map -/

/-- The literal of an answer that comes with a map. -/
def mappedLiteral? : Answer → Option String
  | (leaf, .ok compiled) => compiled.map.map fun _ => leaf.literal
  | (_, .error _) => none

section

variable {cx : Context μ} {out next out' : Output μ}

theorem mem_literals_set {literal other : String} {map : SourceMap} : ∀ {maps : CodeMaps},
    other ∈ (maps.set literal map).map Prod.fst ↔ other ∈ maps.map Prod.fst ∨ other = literal
  | [] => by simp [CodeMaps.set]
  | (l, m) :: rest => by
    rw [CodeMaps.set]
    split
    · rename_i hl
      subst hl
      simp only [List.map_cons, List.mem_cons]
      exact ⟨.inl, fun h => h.elim id .inl⟩
    · simp only [List.map_cons, List.mem_cons, mem_literals_set]
      exact or_assoc.symm

theorem acceptMessage_codeMaps (hmap : cx.options.sourceMap = true) (scalar : Scalar)
    (literal : String) (compiled : CompiledMessage) :
    (acceptMessage cx out scalar literal compiled).codeMaps =
      match compiled.map with
      | some map => out.codeMaps.set literal (literalMap cx scalar literal map)
      | none => out.codeMaps := by
  unfold acceptMessage
  cases compiled.map with
  | none => rfl
  | some map => simp only [hmap, if_true]; rfl

/-- A map is kept for the literal of a message if the compiler answers with one. -/
theorem writeMessage_literals (hmap : cx.options.sourceMap = true) {leaf : Leaf}
    (h : writeMessage cx out leaf.path leaf.scalar leaf.literal = .ok next) :
    next.memory = (cx.compiler leaf.literal cx.options leaf.path out.memory).2 ∧
      ∀ literal, literal ∈ next.codeMaps.map Prod.fst ↔ literal ∈ out.codeMaps.map Prod.fst ∨
        mappedLiteral? (leaf, (cx.compiler leaf.literal cx.options leaf.path out.memory).1) =
          some literal := by
  unfold writeMessage at h
  generalize cx.compiler leaf.literal cx.options leaf.path out.memory = asked at h ⊢
  obtain ⟨answer, memory⟩ := asked
  cases answer with
  | ok compiled =>
    cases h
    refine ⟨(Prod.mk.inj (acceptMessage_code _ _ _ _)).2, fun literal => ?_⟩
    rw [acceptMessage_codeMaps hmap]
    cases hfound : compiled.map with
    | none => simp [mappedLiteral?, hfound]
    | some map =>
      simp only [mappedLiteral?, hfound, mem_literals_set, Option.map_some, Option.some.injEq]
      rw [eq_comm]
  | error e =>
    simp only [writeAnswer] at h
    split at h
    · cases h
      exact ⟨rfl, fun literal => by simp [keepRaw, Output.say, Output.write, mappedLiteral?]⟩
    · cases h

/-- Maps are kept for just the literals that the compiler answers with a map for. -/
theorem writeChunks_literals (hmap : cx.options.sourceMap = true) : ∀ {chunks : List Chunk}
    {out : Output μ}, writeChunks cx chunks out = .ok out' →
    ∀ literal, literal ∈ out'.codeMaps.map Prod.fst ↔ literal ∈ out.codeMaps.map Prod.fst ∨
      literal ∈ (answers cx.compiler cx.options (chunks.filterMap Chunk.leaf?) out.memory).filterMap
        mappedLiteral?
  | [], out, hwrite, literal => by
    cases hwrite
    simp [answers]
  | chunk :: rest, out, hwrite, literal => by
    obtain ⟨next, hnext, hrest⟩ := bind_eq_ok.1 hwrite
    rw [writeChunks_literals hmap hrest]
    cases chunk with
    | text code => cases hnext; rfl
    | verbatim v => cases hnext; rfl
    | message scalar literal' path =>
      obtain ⟨hmemory, hliterals⟩ := @writeMessage_literals _ cx out next hmap ⟨scalar, literal', path⟩
        hnext
      have hleaves : (Chunk.message scalar literal' path :: rest).filterMap Chunk.leaf? =
          ⟨scalar, literal', path⟩ :: rest.filterMap Chunk.leaf? := rfl
      rw [hliterals, hmemory, or_assoc, hleaves, answers]
      refine or_congr_right ?_
      simp only [List.mem_filterMap, List.mem_cons, exists_eq_or_imp]

end

/-! ## The module -/

/--
The map of an emission with source maps has one segment for every message and for all code that is
kept as it is, in document order and at strictly increasing places: from where the line index of the
generated code finds the first byte of its code, to where it comes from, under the literal as its name.
The one source is the file of the document with the given text. Maps are kept for just the literals
that the compiler answered with a map for.
-/
theorem structural_map_exact {compiler : RememberingCompiler μ} {memory memory' : μ}
    {diagnostics : Diagnostics} {bridgePayload : Option String} {document : Document}
    {source : String} {options : Options} {generated : GeneratedModule} {log : List Notice}
    (hmap : options.sourceMap = true)
    (hwords : ∀ site ∈ sites options [] document.root,
      site.origin.line - 1 < wordLimit ∧ site.origin.column < wordLimit)
    (hemit : emitRemembering compiler memory diagnostics bridgePayload document source options =
      .ok (generated, log, memory'))
    (hcode : units generated.code.toList < wordLimit) : ∃ marks map segments,
      stretches compiler options [] (moduleChunks options bridgePayload document.root) memory =
        some (marks, memory') ∧
      marks.map (·.site) = sites options [] document.root ∧
      (∀ s ∈ marks, s.before ++ s.code.toList <+: generated.code.toList) ∧
      generated.map = some map ∧ map.sources = [document.filename] ∧
      map.sourcesContent = some [some source] ∧ map.decode = .ok segments ∧
      segments.map map.reading =
        marks.map (fun s => some (s.reading generated.code.toList document.filename)) ∧
      (segments.Pairwise fun a b => Precedes a.place b.place) ∧
      ∀ literal, literal ∈ generated.codeMaps.map Prod.fst ↔
        literal ∈ (answers compiler options (compiledLeaves options [] document.root)
          memory).filterMap mappedLiteral? := by
  let cx : Context μ :=
    ⟨source.toList, document.filename, options, compiler, diagnostics, bridgePayload⟩
  rw [emitRemembering_eq] at hemit
  obtain ⟨out, hout, hfinish⟩ := map_eq_ok hemit
  cases hfinish
  obtain ⟨marks, hmarks, hrecorded⟩ :=
    writeChunks_recorded (@start_recorded _ cx source document rfl rfl hmap memory) hout
  have hsites := (stretches_sites hmarks).trans (moduleChunks_sites options bridgePayload document.root)
  obtain ⟨map, segments, hfound, hsources, hcontents, hdecode, hreadings, hincreasing⟩ :=
    hrecorded.decodes ((moduleChunks_apart bridgePayload document.root).stretches hmarks)
      (fun s hs => hwords s.site (hsites ▸ List.mem_map_of_mem hs)) hcode
  refine ⟨marks, map, segments, hmarks, hsites, hrecorded.inside, hfound, hsources,
    hcontents.trans (by rw [String.ofList_toList]), hdecode, hreadings, hincreasing, fun literal => ?_⟩
  have hliterals := @writeChunks_literals _ cx out hmap _ _ hout literal
  rw [moduleChunks_compiled] at hliterals
  exact hliterals.trans ⟨fun h => h.elim (fun h => nomatch h) id, .inr⟩

/--
Code over two lines, with a character of two units, moves what stands behind it; a rejected message is
recorded as the string it is kept as, and a position on no line counts as one on the first.
-/
theorem structural_map_exact_over_lines :
    let span := fun line column => (⟨⟨line, column, 0⟩, ⟨line, column, 0⟩⟩ : Span)
    let string := fun text line column =>
      Node.scalar ⟨.string text, span line column, ⟨line, column + 1, 0⟩⟩
    let document : Document := ⟨.mapping [(⟨"a", span 1 1⟩, .sequence [string "x" 2 4, .scalar
      (.bare .null (span 2 8)), .verbatim ⟨"f", span 0 5⟩] (span 2 3)), (⟨"b", span 3 1⟩,
      string "y" 3 6)] (span 1 0), "m.json"⟩
    let options : Options := { sourceMap := true, lenient := true }
    let compiler : RememberingCompiler Nat := fun literal _ _ asked =>
      (if literal = "x" then .ok ⟨"𝕏(\n𝕏)", some .empty, []⟩ else .error ⟨.unterminatedPlaceholder, 0⟩,
        asked + 1)
    ∃ generated log map segments,
      emitRemembering compiler 0 .full none document "text" options = .ok (generated, log, 2) ∧
      generated.code = "const resource = \x7b\n  \"a\": [\n    𝕏(\n𝕏),\n    null,\n    f\n  ],\n" ++
        "  \"b\": \"y\"\n\x7d\nexport default resource" ∧
      generated.map = some map ∧ map.sources = ["m.json"] ∧ map.sourcesContent = some [some "text"] ∧
      map.decode = .ok segments ∧ segments.map map.reading = [some ⟨2, 4, "m.json", 1, 5, some "x"⟩,
        some ⟨5, 4, "m.json", 0, 5, none⟩, some ⟨7, 7, "m.json", 2, 7, some "y"⟩] ∧
      ∀ literal, literal ∈ generated.codeMaps.map Prod.fst ↔ literal = "x" := by
  intro span string document options compiler
  have hcode : (emitRemembering compiler 0 .full none document "text" options).toOption.map
      (fun emitted => (emitted.1.code, emitted.2.2)) = some ("const resource = \x7b\n  \"a\": [\n" ++
        "    𝕏(\n𝕏),\n    null,\n    f\n  ],\n  \"b\": \"y\"\n\x7d\nexport default resource", 2) := by
    decide +kernel
  obtain ⟨⟨generated, log, memory⟩, hemit, hcode⟩ := Option.map_eq_some_iff.1 hcode
  obtain ⟨hcode, rfl⟩ := Prod.mk.inj hcode
  obtain ⟨marks, map, segments, hmarks, -, -, hmap, hsources, hcontents, hdecode, hreadings, -,
      hliterals⟩ := structural_map_exact rfl (by decide +kernel) (ok_of_toOption hemit)
        (by rw [hcode]; decide +kernel)
  replace hmarks : some (marks, 2) = some ([
      ⟨.message ⟨⟨.string "x", span 2 4, ⟨2, 5, 0⟩⟩, "x", ["a", "0"]⟩,
        "const resource = \x7b\n  \"a\": [\n    ".toList, "𝕏(\n𝕏)"⟩,
      ⟨.verbatim ⟨"f", span 0 5⟩,
        "const resource = \x7b\n  \"a\": [\n    𝕏(\n𝕏),\n    null,\n    ".toList, "f"⟩,
      ⟨.message ⟨⟨.string "y", span 3 6, ⟨3, 7, 0⟩⟩, "y", ["b"]⟩,
        "const resource = \x7b\n  \"a\": [\n    𝕏(\n𝕏),\n    null,\n    f\n  ],\n  \"b\": ".toList,
        "\"y\""⟩], 2) := by
    rw [← hmarks]
    decide +kernel
  cases hmarks
  refine ⟨generated, log, map, segments, ok_of_toOption hemit, hcode, hmap, hsources, hcontents,
    hdecode, ?_, fun literal => ?_⟩
  · rw [hreadings, hcode]
    decide +kernel
  · rw [hliterals, show (answers compiler options (compiledLeaves options [] document.root)
      0).filterMap mappedLiteral? = ["x"] by decide +kernel, List.mem_singleton]

end Emission

end MessageCatalog
