/-
The maps that an emission hands over. A position is counted in words, and so is the generated code.
As long as neither runs over, every map decodes: the structural one, the map of each message that is
compiled, and that map moved into the token of its string, whatever the token looks like.
-/
import MessageCatalog.Proofs.Emission.Leaves
import MessageCatalog.Proofs.Emission.Mapped
import MessageCatalog.Proofs.Resource.Places

namespace MessageCatalog

open MessageCatalog.Code MessageCatalog.Message MessageCatalog.Text

/-! ## Words -/

/-- The lines, from 0, and the columns of a text are words. -/
structure Text.WordPositions (text : List Char) : Prop where
  words : ∀ position, (LineIndex.ofText text).Gives position →
    position.line - 1 < wordLimit ∧ position.column < wordLimit

theorem Text.wordPositions_of_byteLength {text : List Char} (h : byteLength text < wordLimit) :
    WordPositions text := by
  constructor
  rintro _ ⟨offset, rfl⟩
  obtain ⟨hline, hcolumn⟩ := position_le text offset
  exact ⟨Nat.lt_of_le_of_lt hline h, Nat.lt_of_le_of_lt hcolumn h⟩

/-- What stands on one line of such a text is counted in words. -/
theorem Text.WordPositions.units_lt {text middle : List Char} (h : WordPositions text)
    {start stop : Nat} (hslice : slice? text start stop = some middle) (hline : '\n' ∉ middle) :
    units middle < wordLimit := by
  obtain ⟨before, after, rfl, -⟩ := slice?_eq_some hslice
  have hwords := (h.words _ ⟨byteLength (before ++ middle), rfl⟩).2
  rw [position_append, advance_append, advance_of_not_mem hline] at hwords
  simp only at hwords
  omega

/-! ## The map of a message -/

/-- A map with one source that decodes and bears no names, with its columns inside the code. -/
structure FragmentMap (map : SourceMap) : Prop where
  sources : ∃ source, map.sources = [source]
  tells : ∃ holds, map.Tells holds ∧ ∀ r, holds r → r.name = none ∧ r.column < wordLimit

theorem FragmentMap.decodes {map : SourceMap} (h : FragmentMap map) :
    ∃ segments, map.decode = .ok segments := by
  obtain ⟨holds, htells, -⟩ := h.tells
  exact htells.decodes

theorem Message.compile_fragmentMap {message : String} {options : Options} {path : List String}
    {compiled : CompiledMessage} {map : SourceMap} (h : compile message options path = .ok compiled)
    (hmap : compiled.map = some map) (hcode : units compiled.code.toList < wordLimit)
    (hwords : options.strategy = .aheadOfTime → WordPositions (compiledText message.toList options)) :
    FragmentMap map := by
  obtain ⟨cases, -, hform⟩ := compile_eq_ok h
  unfold represent at hform
  split at hform
  · -- a deferred message has no map
    cases (Prod.mk.inj hform).2.trans hmap
  · rename_i hstrategy
    have hplaces := hwords hstrategy
    obtain ⟨hcodeEq, hmapEq⟩ := Prod.mk.inj hform
    cases hmapEq.trans hmap
    rw [← hcodeEq, toList_piecesCode] at hcode
    refine ⟨⟨_, functionMap_sources _ _ _⟩, _, functionMap_tells _ _ _ ?_, ?_⟩
    · rintro ⟨column, offset⟩ hmem
      obtain ⟨front, hanchor, rfl⟩ := mem_anchorsFrom.1 hmem
      obtain ⟨hline, hcolumn⟩ := hplaces.words _ ⟨offset, rfl⟩
      have hle := hanchor.units_le
      exact ⟨by simp only [anchorReading]; omega, hline, hcolumn⟩
    · rintro r ⟨column, offset, hmem, rfl⟩
      obtain ⟨front, hanchor, rfl⟩ := mem_anchorsFrom.1 hmem
      have hle := hanchor.units_le
      exact ⟨rfl, by simp only [anchorReading]; omega⟩

namespace Emission

variable {μ : Type}

/-- The map of a literal decodes, whether or not it can be moved into its token. -/
theorem literalMap_decodes {cx : Context μ} (hsource : WordPositions cx.source) (scalar : Scalar)
    (literal : String) {map : SourceMap} (hmap : FragmentMap map) :
    ∃ segments, (literalMap cx scalar literal map).decode = .ok segments := by
  obtain ⟨source, hsources⟩ := hmap.sources
  obtain ⟨holds, htells, hplain⟩ := hmap.tells
  unfold literalMap
  simp only
  split
  · rename_i moved hmoved
    obtain ⟨columns, hcolumns, hmoved⟩ := Option.bind_eq_some_iff.1 hmoved
    obtain ⟨hline, hle⟩ := literalColumns?_le hcolumns
    have hraw : units ((slice? cx.source scalar.span.start.offset
        scalar.span.stop.offset).getD []) < wordLimit := by
      cases hslice : slice? cx.source scalar.span.start.offset scalar.span.stop.offset with
      | none => exact Nat.zero_lt_succ _
      | some raw =>
        rw [hslice] at hline
        exact hsource.units_lt hslice hline
    exact rebaseFragment?_decodes hmoved hsources htells hplain
      fun entry hentry => Nat.lt_of_le_of_lt (hle entry hentry) hraw
  · exact hmap.decodes

/-! ## Places of chunks -/

/-- A chunk that comes from a position of an index, if it comes from the source at all. -/
def Chunk.PlacedIn (index : LineIndex) : Chunk → Prop
  | .text _ => True
  | .message scalar _ _ => index.Gives scalar.contentStart
  | .verbatim v => index.Gives v.span.start

theorem forall_mem_bracketed {P : Chunk → Prop} (htext : ∀ code, P (.text code))
    {children : List (List Chunk)} (h : ∀ child ∈ children, ∀ chunk ∈ child, P chunk)
    (opening closing : String) (level : Nat) :
    ∀ chunk ∈ bracketed opening closing level children, P chunk := by
  have hseparated : ∀ {children : List (List Chunk)}, (∀ child ∈ children, ∀ chunk ∈ child, P chunk) →
      ∀ chunk ∈ [.text (separator (level + 1))].intercalate children, P chunk := by
    intro children
    induction children with
    | nil => exact fun _ => List.forall_mem_nil _
    | cons first rest ih =>
      intro h
      obtain ⟨hfirst, hrest⟩ := List.forall_mem_cons.1 h
      rw [intercalate_cons]
      refine List.forall_mem_append.2 ⟨hfirst, ?_⟩
      split
      · exact List.forall_mem_nil _
      · exact List.forall_mem_cons.2 ⟨htext _, ih hrest⟩
  unfold bracketed
  split
  · exact List.forall_mem_singleton.2 (htext _)
  · exact List.forall_mem_cons.2 ⟨htext _,
      List.forall_mem_append.2 ⟨hseparated h, List.forall_mem_singleton.2 (htext _)⟩⟩

section

variable {index : LineIndex} {options : Options}

theorem scalarChunk_placed {s : Scalar} (h : index.Gives s.contentStart) (path : List String) :
    (scalarChunk options path s).PlacedIn index := by
  unfold scalarChunk
  split
  · exact h
  · split
    · exact h
    · trivial

/-- The chunks of a node come from where its parts are. -/
theorem nodeChunks_placed {node : Node} (h : node.PlacedIn index) :
    ∀ level path, ∀ chunk ∈ nodeChunks options level path node, chunk.PlacedIn index := by
  induction h with
  | @mapping pairs span values ih =>
    intro level path
    rw [nodeChunks]
    refine forall_mem_bracketed (fun _ => trivial) ?_ _ _ _
    clear values
    generalize level + 1 = inner
    induction pairs with
    | nil => exact List.forall_mem_nil _
    | cons pair rest ihRest =>
      obtain ⟨hpair, hrest⟩ := List.forall_mem_cons.1 ih
      rw [pairChunks]
      exact List.forall_mem_cons.2 ⟨List.forall_mem_cons.2 ⟨trivial, hpair _ _⟩, ihRest hrest⟩
  | @sequence items span values ih =>
    intro level path
    rw [nodeChunks]
    refine forall_mem_bracketed (fun _ => trivial) ?_ _ _ _
    clear values
    generalize level + 1 = inner
    generalize 0 = position
    induction items generalizing position with
    | nil => exact List.forall_mem_nil _
    | cons item rest ihRest =>
      obtain ⟨hitem, hrest⟩ := List.forall_mem_cons.1 ih
      rw [itemChunks]
      exact List.forall_mem_cons.2 ⟨hitem _ _, ihRest hrest _⟩
  | scalar content =>
    intro level path
    rw [nodeChunks]
    exact List.forall_mem_singleton.2 (scalarChunk_placed content path)
  | verbatim start =>
    intro level path
    rw [nodeChunks]
    exact List.forall_mem_singleton.2 start

theorem moduleChunks_placed {root : Node} (h : root.PlacedIn index) (bridgePayload : Option String) :
    ∀ chunk ∈ moduleChunks options bridgePayload root, chunk.PlacedIn index :=
  List.forall_mem_cons.2 ⟨trivial,
    List.forall_mem_append.2 ⟨nodeChunks_placed h _ _, List.forall_mem_singleton.2 trivial⟩⟩

end

/-! ## What is recorded -/

/--
An output whose numbers are kept in bounds by its code: the columns and the names of its map, and the
code of every message. What is kept for a literal is the map of a leaf with that literal.
-/
structure Traced (cx : Context Unit) (leaves : List Leaf) (out : Output Unit) : Prop where
  place : (out.writer.line, out.writer.column) = advance (0, 0) out.writer.code.toList
  map : ∃ b readings, out.writer.map = some (b, 0) ∧ b.sources.toList = [cx.filename] ∧
    b.Records readings ∧
    (∀ r ∈ readings, r.column ≤ units out.writer.code.toList ∧ r.originLine < wordLimit ∧
      r.originColumn < wordLimit) ∧
    (readings.filterMap (·.name)).length ≤ units out.writer.code.toList
  messages : ∀ leaf ∈ leaves, ∀ compiled,
    Message.compile leaf.literal cx.options leaf.path = .ok compiled →
      units compiled.code.toList ≤ units out.writer.code.toList
  codeMaps : ∀ entry ∈ out.codeMaps, ∃ leaf ∈ leaves, leaf.literal = entry.1 ∧ ∃ compiled map,
    Message.compile leaf.literal cx.options leaf.path = .ok compiled ∧ compiled.map = some map ∧
      entry.2 = literalMap cx leaf.scalar leaf.literal map

section

variable {cx : Context Unit} {leaves : List Leaf} {out out' : Output Unit}

theorem mem_set {literal : String} {map : SourceMap} {entry : String × SourceMap} :
    ∀ {maps : CodeMaps}, entry ∈ maps.set literal map → entry = (literal, map) ∨ entry ∈ maps
  | [], h => .inl (List.mem_singleton.1 h)
  | (l, m) :: rest, h => by
    rw [CodeMaps.set] at h
    split at h
    · rename_i hl
      subst hl
      rcases List.mem_cons.1 h with rfl | h
      · exact .inl rfl
      · exact .inr (List.mem_cons_of_mem _ h)
    · rcases List.mem_cons.1 h with rfl | h
      · exact .inr List.mem_cons_self
      · exact (mem_set h).imp_right (List.mem_cons_of_mem _)

theorem Traced.push (h : Traced cx leaves out) (code : String) : Traced cx leaves (out.push code) := by
  have hle : units out.writer.code.toList ≤ units (out.push code).writer.code.toList := by
    show _ ≤ units (out.writer.code ++ code).toList
    rw [String.toList_append, units_append]
    exact Nat.le_add_right _ _
  refine ⟨?_, ?_, ?_, h.codeMaps⟩
  · show advance (out.writer.line, out.writer.column) code.toList =
      advance (0, 0) (out.writer.code ++ code).toList
    rw [h.place, String.toList_append, advance_append]
  · obtain ⟨b, readings, hb, hsources, hrecords, hbounds, hnames⟩ := h.map
    refine ⟨b, readings, hb, hsources, hrecords, fun r hr => ?_, Nat.le_trans hnames hle⟩
    obtain ⟨hcolumn, horigin⟩ := hbounds r hr
    exact ⟨Nat.le_trans hcolumn hle, horigin⟩
  · exact fun leaf hleaf compiled hcompiled => Nat.le_trans (h.messages leaf hleaf compiled hcompiled) hle

/-- Code from a position is recorded; a name is paid for by a character of the code. -/
theorem Traced.pushMapped (h : Traced cx leaves out) {origin : Position}
    (horigin : origin.line - 1 < wordLimit ∧ origin.column < wordLimit) {code : String}
    {name : Option String} (hname : name.isSome → code.toList ≠ []) :
    Traced cx leaves (out.write (·.pushMapped code origin name)) := by
  -- the reading is recorded at the place of the code, and then the code is pushed
  obtain ⟨b, readings, hb, hsources, hrecords, hbounds, hnames⟩ := h.map
  let reading : Reading := ⟨out.writer.line, out.writer.column, cx.filename, origin.line - 1,
    origin.column, name⟩
  let next := b.addMapping out.writer.line out.writer.column 0 (origin.line - 1) origin.column name
  have hpushed := h.push code
  have hunits : units (out.writer.code ++ code).toList =
      units out.writer.code.toList + units code.toList := by
    rw [String.toList_append, units_append]
  have hcolumn : out.writer.column ≤ units out.writer.code.toList := by
    have hle := advance_column_le (0, 0) out.writer.code.toList
    rw [← h.place] at hle
    simp only at hle
    omega
  refine ⟨hpushed.place, ⟨next, readings ++ [reading], ?_, ?_, ?_, ?_, ?_⟩, hpushed.messages,
    h.codeMaps⟩
  · show out.writer.map.map _ = _
    rw [hb]
    rfl
  · show (b.addMapping _ _ _ _ _ _).sources.toList = _
    rw [SourceMapBuilder.addMapping_sources, hsources]
  · exact hrecords.addMapping (by rw [hsources]; rfl) _ _ _ _ _
  · refine List.forall_mem_append.2 ⟨fun r hr => ?_, List.forall_mem_singleton.2 ⟨?_, horigin⟩⟩
    · obtain ⟨hle, hwords⟩ := hbounds r hr
      refine ⟨?_, hwords⟩
      show _ ≤ units (out.writer.code ++ code).toList
      omega
    · show out.writer.column ≤ units (out.writer.code ++ code).toList
      omega
  · show _ ≤ units (out.writer.code ++ code).toList
    rw [List.filterMap_append, List.length_append, hunits]
    refine Nat.add_le_add hnames ?_
    cases name with
    | none => exact Nat.zero_le _
    | some name =>
      obtain ⟨c, rest, hcode⟩ := List.exists_cons_of_ne_nil (hname rfl)
      rw [hcode, units]
      exact Nat.le_trans (unitsOf_pos c) (Nat.le_add_right _ _)

/-- A leaf whose code is written is added, with the map that is kept for it. -/
theorem Traced.add (h : Traced cx leaves out) {leaf : Leaf} (hcode : ∀ compiled,
      Message.compile leaf.literal cx.options leaf.path = .ok compiled →
        units compiled.code.toList ≤ units out.writer.code.toList)
    (log : List Notice) {maps : CodeMaps} (hmaps : ∀ entry ∈ maps, entry ∈ out.codeMaps ∨
      ∃ compiled map, Message.compile leaf.literal cx.options leaf.path = .ok compiled ∧
        compiled.map = some map ∧
        entry = (leaf.literal, literalMap cx leaf.scalar leaf.literal map)) :
    Traced cx (leaves ++ [leaf]) { out with log, codeMaps := maps } := by
  refine ⟨h.place, h.map,
    List.forall_mem_append.2 ⟨h.messages, List.forall_mem_singleton.2 hcode⟩, fun entry hentry => ?_⟩
  rcases hmaps entry hentry with hentry | ⟨compiled, map, hcompiled, hmap, rfl⟩
  · obtain ⟨known, hknown, hentry⟩ := h.codeMaps entry hentry
    exact ⟨known, List.mem_append_left _ hknown, hentry⟩
  · exact ⟨leaf, List.mem_append_right _ (List.mem_singleton.2 rfl), rfl, compiled, map, hcompiled,
      hmap, rfl⟩

section

variable (hcompiler : cx.compiler = MessageCompiler.forgetful Message.compile)
  (hmap : cx.options.sourceMap = true)

include hcompiler hmap

/-- A message is written with its reading, and with the map of its literal if it is accepted. -/
theorem Traced.message (h : Traced cx leaves out) {scalar : Scalar} {literal : String}
    {path : List String}
    (horigin : scalar.contentStart.line - 1 < wordLimit ∧ scalar.contentStart.column < wordLimit)
    (hwrite : writeMessage cx out path scalar literal = .ok out') :
    Traced cx (leaves ++ [⟨scalar, literal, path⟩]) out' := by
  have hasked : cx.compiler literal cx.options path out.memory =
      (Message.compile literal cx.options path, ()) := by
    rw [hcompiler]
    rfl
  unfold writeMessage at hwrite
  rw [hasked] at hwrite
  cases hcompile : Message.compile literal cx.options path with
  | ok compiled =>
    rw [hcompile] at hwrite
    simp only [writeAnswer, acceptMessage_eq hmap] at hwrite
    cases hwrite
    have hpushed := @Traced.pushMapped _ _ _ h _ horigin compiled.code (some literal)
      fun _ => code_ne_nil hcompile
    refine hpushed.add ?_ _ ?_
    · intro compiled' hcompile'
      cases hcompile.symm.trans hcompile'
      show _ ≤ units (out.writer.code ++ compiled.code).toList
      rw [String.toList_append, units_append]
      exact Nat.le_add_left _ _
    · intro entry hentry
      cases hfound : compiled.map with
      | none =>
        rw [hfound] at hentry
        exact .inl hentry
      | some map =>
        rw [hfound] at hentry
        rcases mem_set hentry with rfl | hentry
        · exact .inr ⟨compiled, map, hcompile, hfound, rfl⟩
        · exact .inl hentry
  | error e =>
    rw [hcompile] at hwrite
    simp only [writeAnswer] at hwrite
    split at hwrite
    · cases hwrite
      have hpushed := @Traced.pushMapped _ _ _ h _ horigin (Json.quoted literal) (some literal)
        fun _ => by simp [Json.quoted]
      refine hpushed.add ?_ _ fun entry hentry => .inl hentry
      intro compiled hcompile'
      cases hcompile.symm.trans hcompile'
    · cases hwrite

/-- Chunks from positions that are words leave an output in bounds. -/
theorem writeChunks_traced (hwords : WordPositions cx.source) : ∀ {chunks : List Chunk}
    {leaves : List Leaf} {out out' : Output Unit},
    (∀ chunk ∈ chunks, chunk.PlacedIn (.ofText cx.source)) → Traced cx leaves out →
    writeChunks cx chunks out = .ok out' → Traced cx (leaves ++ chunks.filterMap Chunk.leaf?) out'
  | [], leaves, out, out', _, h, hwrite => by
    cases hwrite
    rwa [List.filterMap_nil, List.append_nil]
  | chunk :: rest, leaves, out, out', hplaced, h, hwrite => by
    obtain ⟨hchunk, hrest⟩ := List.forall_mem_cons.1 hplaced
    obtain ⟨next, hnext, hothers⟩ := bind_eq_ok.1 hwrite
    cases chunk with
    | text code =>
      cases hnext
      have hrun := writeChunks_traced hwords hrest (h.push code) hothers
      exact hrun
    | verbatim v =>
      cases hnext
      have hpushed := @Traced.pushMapped _ _ _ h _ (hwords.words _ hchunk) v.code none nofun
      have hrun := writeChunks_traced hwords hrest hpushed hothers
      exact hrun
    | message scalar literal path =>
      have hwritten := h.message hcompiler hmap (hwords.words _ hchunk) hnext
      have hrun := writeChunks_traced hwords hrest hwritten hothers
      rwa [List.append_assoc] at hrun

end

theorem start_traced {source : String} {document : Document}
    (hfilename : cx.filename = document.filename) (hmap : cx.options.sourceMap = true) :
    Traced cx [] (State.start document source cx.options ()).output := by
  obtain ⟨hcode, hplace, ⟨b, hb, hsources, hrecords⟩, -⟩ := start_written hfilename hmap
  refine ⟨?_, ⟨b, [], hb, hsources, hrecords, List.forall_mem_nil _, Nat.zero_le _⟩,
    List.forall_mem_nil _, List.forall_mem_nil _⟩
  rw [hplace, hcode]

/-- The structural map of an output in bounds decodes. -/
theorem Traced.structural_decodes (h : Traced cx leaves out)
    (hcode : units out.writer.code.toList < wordLimit) : ∃ structural segments,
      out.writer.finish.2 = some structural ∧ structural.decode = .ok segments := by
  obtain ⟨b, readings, hb, hsources, hrecords, hbounds, hnames⟩ := h.map
  have hdecodes := hrecords.decodes ?_ ?_ ?_
  · refine ⟨b.build, _, ?_, hdecodes⟩
    show out.writer.map.map _ = _
    rw [hb]
    rfl
  · intro r hr
    obtain ⟨hcolumn, hline, horigin⟩ := hbounds r hr
    exact ⟨Nat.lt_of_le_of_lt hcolumn hcode, hline, horigin⟩
  · rw [← Array.length_toList, hsources]
    exact Nat.le_of_ble_eq_true rfl
  · refine Nat.le_trans (hrecords.names_le (readings.filterMap (·.name)) ?_) (by omega)
    exact fun r hr name hname => List.mem_filterMap.2 ⟨r, hr, hname⟩

end

/-! ## The module -/

/-- The map of a leaf and the same map in the token of the leaf decode. -/
def FragmentsDecode (cx : Context Unit) (leaf : Leaf) : Prop :=
  ∀ compiled map, Message.compile leaf.literal cx.options leaf.path = .ok compiled →
    compiled.map = some map → (∃ segments, map.decode = .ok segments) ∧
      ∃ segments, (literalMap cx leaf.scalar leaf.literal map).decode = .ok segments

/-- All maps of an emission decode: the structural one, those of its leaves, and those it keeps. -/
structure MapsDecode (cx : Context Unit) (root : Node) (generated : GeneratedModule) : Prop where
  structural : ∃ structural segments, generated.map = some structural ∧
    structural.decode = .ok segments
  kept : ∀ entry ∈ generated.codeMaps, ∃ segments, SourceMap.decode entry.2 = .ok segments
  fragments : ∀ leaf ∈ compiledLeaves cx.options [] root, FragmentsDecode cx leaf

/--
All maps of an emission decode where positions and the generated code are counted in words: the
structural map, the map of every message and the same map moved into its token, and so all that is
kept for the literals.
-/
theorem emit_decodes {document : Document} {source : String} {options : Options}
    {diagnostics : Diagnostics} {bridgePayload : Option String} {generated : GeneratedModule}
    {log : List Notice} (hplaced : document.root.PlacedIn (.ofText source.toList))
    (hwords : WordPositions source.toList)
    (hmessages : options.strategy = .aheadOfTime → ∀ leaf ∈ compiledLeaves options [] document.root,
      WordPositions (compiledText leaf.literal.toList options))
    (hmap : options.sourceMap = true)
    (hemit : emit document source options ⟨Message.compile, diagnostics, bridgePayload⟩ =
      .ok (generated, log)) (hcode : units generated.code.toList < wordLimit) :
    MapsDecode ⟨source.toList, document.filename, options, MessageCompiler.forgetful Message.compile,
      diagnostics, bridgePayload⟩ document.root generated := by
  let cx : Context Unit := ⟨source.toList, document.filename, options,
    MessageCompiler.forgetful Message.compile, diagnostics, bridgePayload⟩
  unfold emit at hemit
  rw [emitRemembering_eq] at hemit
  obtain ⟨emitted, hemitted, hemit⟩ := bind_eq_ok.1 hemit
  obtain ⟨out, hout, rfl⟩ := map_eq_ok hemitted
  cases hemit
  have hstart : Traced cx [] (State.start document source options ()).output := start_traced rfl hmap
  have hchunks : ∀ chunk ∈ moduleChunks options bridgePayload document.root,
      chunk.PlacedIn (.ofText cx.source) := moduleChunks_placed hplaced bridgePayload
  have htraced := @writeChunks_traced cx rfl hmap hwords _ _ _ _ hchunks hstart hout
  rw [List.nil_append, moduleChunks_compiled] at htraced
  have hleaves : ∀ leaf ∈ compiledLeaves options [] document.root, FragmentsDecode cx leaf := by
    intro leaf hleaf compiled map hcompiled hfound
    have hle := htraced.messages leaf hleaf compiled hcompiled
    have hfragment := Message.compile_fragmentMap hcompiled hfound (Nat.lt_of_le_of_lt hle hcode)
      (hmessages · leaf hleaf)
    exact ⟨hfragment.decodes, literalMap_decodes hwords leaf.scalar leaf.literal hfragment⟩
  refine ⟨htraced.structural_decodes hcode, fun entry hentry => ?_, hleaves⟩
  obtain ⟨leaf, hleaf, -, compiled, map, hcompiled, hfound, hentry⟩ := htraced.codeMaps entry hentry
  rw [hentry]
  exact (hleaves leaf hleaf compiled map hcompiled hfound).2

end Emission

end MessageCatalog
