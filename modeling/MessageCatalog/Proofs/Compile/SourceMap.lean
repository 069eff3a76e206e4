/-
The source map of a compiled data text: what it says about every string of the text, from the bytes
of the text to the composed map that is handed out.
-/
import MessageCatalog.Proofs.Compile.Run
import MessageCatalog.Proofs.Emission.Leaves
import MessageCatalog.Proofs.Emission.Mapped

namespace MessageCatalog.Emission

open MessageCatalog.Message MessageCatalog.Script MessageCatalog.Text

/-! ## The strings of a layout -/

theorem placements_leaves (options : Options) : ∀ (chunks : List Chunk) (before : List Char),
    (placements options before chunks).map (·.toLeaf) = chunks.filterMap Chunk.leaf?
  | [], _ => rfl
  | chunk :: rest, before => by
    have ih := placements_leaves options rest (before ++ chunkText options chunk)
    cases chunk with
    | text code => exact ih
    | verbatim v => exact ih
    | message scalar literal path => exact congrArg (⟨scalar, literal, path⟩ :: ·) ih

/-- The layout of data holds no code. -/
theorem nodeChunks_verbatims {l : Lowering} {options : Options} {node : Node} (h : IsData l node) :
    ∀ level path, (nodeChunks options level path node).filterMap Chunk.verbatim? = [] := by
  induction h with
  | @mapping pairs span values ih =>
    intro level path
    rw [nodeChunks, filterMap_bracketed (fun _ => rfl)]
    clear values
    generalize level + 1 = inner
    induction pairs with
    | nil => rfl
    | cons pair rest ihRest =>
      obtain ⟨hpair, hrest⟩ := List.forall_mem_cons.1 ih
      rw [pairChunks, List.flatMap_cons, List.filterMap_cons_none rfl, hpair, ihRest hrest]
      rfl
  | @sequence items span values ih =>
    intro level path
    rw [nodeChunks, filterMap_bracketed (fun _ => rfl)]
    clear values
    generalize level + 1 = inner
    generalize 0 = index
    induction items generalizing index with
    | nil => rfl
    | cons item rest ihRest =>
      obtain ⟨hitem, hrest⟩ := List.forall_mem_cons.1 ih
      rw [itemChunks, List.flatMap_cons, hitem, ihRest hrest]
      rfl
  | string literal => exact fun _ _ => rfl
  | @bare s other =>
    intro level path
    rw [nodeChunks, scalarChunk]
    split
    · rfl
    · split <;> rfl

section

variable {options : Options} {bridgePayload : Option String}

theorem moduleChunks_verbatims {l : Lowering} {root : Node} (h : IsData l root) (v : Verbatim) :
    .verbatim v ∉ moduleChunks options bridgePayload root := by
  intro hmem
  have hfound : v ∈ (moduleChunks options bridgePayload root).filterMap Chunk.verbatim? :=
    List.mem_filterMap.2 ⟨_, hmem, rfl⟩
  rw [filterMap_moduleChunks (fun _ => rfl), nodeChunks_verbatims h] at hfound
  cases hfound

end

/-- Chunks are written if all messages among them are accepted. -/
theorem writeChunks_of_accepted {cx : Context Unit}
    (hcompiler : cx.compiler = MessageCompiler.forgetful Message.compile) :
    ∀ (chunks : List Chunk) (out : Output Unit),
      (∀ leaf ∈ chunks.filterMap Chunk.leaf?, ∃ compiled,
        Message.compile leaf.literal cx.options leaf.path = .ok compiled) →
      ∃ out', writeChunks cx chunks out = .ok out'
  | [], out, _ => ⟨out, rfl⟩
  | .text code :: rest, out, h => writeChunks_of_accepted hcompiler rest (out.push code) h
  | .verbatim v :: rest, out, h => writeChunks_of_accepted hcompiler rest _ h
  | .message scalar literal path :: rest, out, h => by
    have hleaves : (Chunk.message scalar literal path :: rest).filterMap Chunk.leaf? =
        ⟨scalar, literal, path⟩ :: rest.filterMap Chunk.leaf? := rfl
    rw [hleaves] at h
    obtain ⟨⟨compiled, hcompile⟩, hrest⟩ := List.forall_mem_cons.1 h
    have hmessage : writeChunk cx out (.message scalar literal path) =
        .ok (acceptMessage cx out scalar literal compiled) := by
      show writeAnswer cx _ path scalar literal (cx.compiler literal cx.options path _).1 = _
      rw [hcompiler]
      show writeAnswer cx _ path scalar literal (Message.compile literal cx.options path) = _
      rw [hcompile]
      rfl
    rw [writeChunks_cons, hmessage]
    exact writeChunks_of_accepted hcompiler rest _ hrest

/-- A document whose strings are all accepted is emitted. -/
theorem emit_of_accepted {document : Document} (source : String) {options : Options}
    (diagnostics : Diagnostics) (bridgePayload : Option String)
    (hforce : options.forceStringify = false)
    (haccepted : ∀ leaf ∈ document.root.leaves [], ∃ compiled,
      Message.compile leaf.literal options leaf.path = .ok compiled) :
    ∃ generated log, emit document source options ⟨Message.compile, diagnostics, bridgePayload⟩ =
      .ok (generated, log) := by
  let cx : Context Unit := ⟨source.toList, document.filename, options,
    MessageCompiler.forgetful Message.compile, diagnostics, bridgePayload⟩
  rw [← moduleChunks_leaves hforce] at haccepted
  obtain ⟨out, hout⟩ := @writeChunks_of_accepted cx rfl _
    (State.start document source options ()).output haccepted
  refine ⟨out.finish.1, out.finish.2.1, ?_⟩
  unfold emit
  rw [emitRemembering_eq, hout]
  rfl

/-- What an emission hands over has been written, chunk by chunk. -/
theorem emit_written {document : Document} {source : String} {options : Options}
    {diagnostics : Diagnostics} {bridgePayload : Option String} {generated : GeneratedModule}
    {log : List Notice} {l : Lowering} (hdata : IsData l document.root)
    (hmap : options.sourceMap = true)
    (hdistinct : ((placements options []
      (moduleChunks options bridgePayload document.root)).map (·.literal)).Nodup)
    (h : emit document source options ⟨Message.compile, diagnostics, bridgePayload⟩ =
      .ok (generated, log)) :
    ∃ out, generated = out.finish.1 ∧ Written
      ⟨source.toList, document.filename, options, MessageCompiler.forgetful Message.compile,
        diagnostics, bridgePayload⟩
      (chunksText options (moduleChunks options bridgePayload document.root))
      (placements options [] (moduleChunks options bridgePayload document.root)) out := by
  unfold emit at h
  rw [emitRemembering_eq] at h
  obtain ⟨emitted, hemitted, h⟩ := bind_eq_ok.1 h
  obtain ⟨out, hout, rfl⟩ := map_eq_ok hemitted
  cases h
  let cx : Context Unit := ⟨source.toList, document.filename, options,
    MessageCompiler.forgetful Message.compile, diagnostics, bridgePayload⟩
  have hstart : Written cx [] [] (State.start document source options ()).output :=
    start_written rfl hmap
  exact ⟨out, rfl, writeChunks_written rfl hmap (moduleChunks_verbatims hdata) hstart hdistinct hout⟩

end MessageCatalog.Emission

namespace MessageCatalog

open MessageCatalog.Emission MessageCatalog.Message MessageCatalog.Text

/-! ## The map of a compile -/

/-- Messages are compiled ahead of time, and the map of the emission is handed out as it is. -/
structure Options.MapsMessages (options : Options) : Prop where
  sourceMap : options.sourceMap = true
  aheadOfTime : options.jit = false
  current : options.legacy = false
  plain : options.escapeHtml = false
  scalars : options.forceStringify = false
  outermost : options.inSourceMap = none
  unfiltered : LocaleFilter.applies options = false

theorem Options.MapsMessages.strategy {options : Options} (h : options.MapsMessages) :
    options.strategy = .aheadOfTime := by
  unfold Options.strategy
  rw [h.aheadOfTime]
  rfl

/-- Where the strings of a document stand in the module that it is compiled to. -/
def modulePlacements (compiler : Compiler) (document : Document) (options : Options) :
    List Placement :=
  placements options [] (moduleChunks options (payloadOf compiler document options) document.root)

section

variable {compiler : Compiler} {source filename : String} {options : Options} {document : Document}

/-- The strings of a module are those of its document, in the same order. -/
theorem modulePlacements_leaves (hoptions : options.MapsMessages) (compiler : Compiler) :
    (modulePlacements compiler document options).map (·.toLeaf) = document.root.leaves [] :=
  (placements_leaves _ _ _).trans (moduleChunks_leaves hoptions.scalars document.root)

/-- Every plain string of a data text stands where its placement says. -/
theorem modulePlacements_standsAt (hread : Script.readData source filename = .ok document)
    (hplain : ∀ leaf ∈ document.root.leaves [], leaf.Plain source.toList)
    (hoptions : options.MapsMessages) : ∀ p ∈ modulePlacements compiler document options,
      ∃ quote before raw after, p.StandsAt source.toList quote before raw after := by
  intro p hp
  have hleaf : p.toLeaf ∈ document.root.leaves [] :=
    modulePlacements_leaves hoptions compiler ▸ List.mem_map_of_mem hp
  exact Script.readData_standsAt hread hleaf (hplain _ hleaf)

section

variable (hmessages : compiler.messages = Message.compile)
  (hread : Script.readData source filename = .ok document)
  (hdistinct : ((document.root.leaves []).map (·.literal)).Nodup) (hoptions : options.MapsMessages)
  {generated : GeneratedModule} {notices : List Notice}
  (hemit : emit document source options
    ⟨compiler.messages, compiler.diagnostics, payloadOf compiler document options⟩ =
      .ok (generated, notices))

include hmessages hread hdistinct hoptions hemit

theorem emitted_written : ∃ out, generated = out.finish.1 ∧ Written
    ⟨source.toList, filename, options, MessageCompiler.forgetful Message.compile,
      compiler.diagnostics, payloadOf compiler document options⟩
    (chunksText options (moduleChunks options (payloadOf compiler document options) document.root))
    (modulePlacements compiler document options) out := by
  obtain ⟨hdata, hfilename⟩ := Script.readData_isData hread
  have hliterals : ((modulePlacements compiler document options).map (·.literal)).Nodup := by
    rw [← modulePlacements_leaves hoptions compiler, List.map_map] at hdistinct
    exact hdistinct
  rw [hmessages] at hemit
  rw [← hfilename]
  exact emit_written hdata hoptions.sourceMap hliterals hemit

theorem emit_text : generated.code.toList =
    chunksText options (moduleChunks options (payloadOf compiler document options) document.root) := by
  obtain ⟨out, rfl, hwritten⟩ := emitted_written hmessages hread hdistinct hoptions hemit
  exact hwritten.code

/-- The maps of an emitted module can be composed, and the composed map says what it is to say. -/
theorem emit_tells (hplain : ∀ leaf ∈ document.root.leaves [], leaf.Plain source.toList)
    (hcode : units generated.code.toList < wordLimit) :
    ∃ structural map, generated.map = some structural ∧
      mergeSourceMaps structural generated.codeMaps none filename = .ok map ∧
      map.Tells fun r => ∃ p ∈ modulePlacements compiler document options,
        Maps source.toList filename options p r := by
  have htext := emit_text hmessages hread hdistinct hoptions hemit
  obtain ⟨out, rfl, hwritten⟩ := emitted_written hmessages hread hdistinct hoptions hemit
  rw [htext] at hcode
  refine hwritten.tells ?_ filename
  exact
    { ahead := hoptions.strategy
      plain := hoptions.plain
      distinct := by
        rw [← modulePlacements_leaves hoptions compiler, List.map_map] at hdistinct
        exact hdistinct
      stands := modulePlacements_standsAt hread hplain hoptions
      source := Nat.lt_succ_of_le (Script.readData_size hread)
      code := by
        intro p hp
        obtain ⟨behind, hsplit⟩ := placement_split hp
        rw [List.nil_append] at hsplit
        exact ⟨behind, hsplit ▸ hcode⟩
      few := Nat.le_trans (placements_length_le options _ [])
        (Nat.le_of_lt hcode) }

end

/-- A plain data text with distinct strings compiles if all of them are accepted. -/
theorem compile_of_accepted (hmessages : compiler.messages = Message.compile)
    (hformat : ResourceFormat.ofFilename? filename = some .json)
    (hread : Script.readData source filename = .ok document)
    (hplain : ∀ leaf ∈ document.root.leaves [], leaf.Plain source.toList)
    (hdistinct : ((document.root.leaves []).map (·.literal)).Nodup) (hoptions : options.MapsMessages)
    (haccepted : ∀ leaf ∈ document.root.leaves [], ∃ compiled,
      Message.compile leaf.literal options leaf.path = .ok compiled)
    (hcode : units (chunksText options
      (moduleChunks options (payloadOf compiler document options) document.root)) < wordLimit) :
    ∃ result, (Compile.logged (compiler.compile source filename options)).1 = .ok result ∧
      result.code.toList = chunksText options
        (moduleChunks options (payloadOf compiler document options) document.root) := by
  obtain ⟨generated, notices, hemit⟩ := emit_of_accepted source compiler.diagnostics
    (payloadOf compiler document options) hoptions.scalars haccepted
  rw [← hmessages] at hemit
  have htext := emit_text hmessages hread hdistinct hoptions hemit
  obtain ⟨structural, map, hstructural, hmerge, -⟩ :=
    emit_tells hmessages hread hdistinct hoptions hemit hplain (htext ▸ hcode)
  refine ⟨⟨generated.code, map⟩, ?_, htext⟩
  rw [compile_run_unfiltered compiler hformat hread hoptions.unfiltered,
    finishCompile_current compiler hoptions.current, emitModule_run, hemit]
  simp only [hstructural, hoptions.outermost, hmerge]
  rfl

/--
The map of a compiled data text decodes, and it says about every string of the text, and about
nothing else, what it is to say: where its code comes from, and, where the message was accepted,
where each of its items comes from. Lines and columns of both texts are words of 32 bits.
-/
theorem compile_map_tells {result : CompileResult} (hmessages : compiler.messages = Message.compile)
    (hformat : ResourceFormat.ofFilename? filename = some .json)
    (hread : Script.readData source filename = .ok document)
    (hplain : ∀ leaf ∈ document.root.leaves [], leaf.Plain source.toList)
    (hdistinct : ((document.root.leaves []).map (·.literal)).Nodup) (hoptions : options.MapsMessages)
    (hcompile : (Compile.logged (compiler.compile source filename options)).1 = .ok result)
    (hcode : units result.code.toList < wordLimit) :
    (modulePlacements compiler document options).map (·.toLeaf) = document.root.leaves [] ∧
      (∀ p ∈ modulePlacements compiler document options, ∃ behind, result.code.toList =
        p.before ++ (messageCode options p.literal p.path).toList ++ behind) ∧
      (∀ p ∈ modulePlacements compiler document options, ∀ compiled cases,
        Message.compile p.literal options p.path = .ok compiled →
        parse p.literal.toList = .ok cases → ∀ item ∈ cases.flatten,
        (∃ front behind, StartsBehind cases p.literal.toList options.environment item front ∧
          compiled.code.toList = front ++ item.part.code.toList ++ behind) ∧
        ∃ place, p.SpellsAt source.toList item.offset place) ∧
      result.map.Tells fun r => ∃ p ∈ modulePlacements compiler document options,
        Maps source.toList filename options p r := by
  rw [compile_run_unfiltered compiler hformat hread hoptions.unfiltered,
    finishCompile_current compiler hoptions.current, emitModule_run] at hcompile
  cases hemit : emit document source options
      ⟨compiler.messages, compiler.diagnostics, payloadOf compiler document options⟩ with
  | error refusal =>
    rw [hemit] at hcompile
    cases hcompile
  | ok emitted =>
    obtain ⟨generated, notices⟩ := emitted
    rw [hemit] at hcompile
    -- the code is that of the emission whether or not there is a map to compose
    have hgenerated : result.code = generated.code := by
      simp only at hcompile
      split at hcompile
      · obtain ⟨map, -, rfl⟩ := map_eq_ok hcompile
        rfl
      · cases hcompile
        rfl
    rw [hgenerated] at hcode ⊢
    have htext := emit_text hmessages hread hdistinct hoptions hemit
    obtain ⟨structural, map, hstructural, hmerge, htells⟩ :=
      emit_tells hmessages hread hdistinct hoptions hemit hplain hcode
    simp only [hstructural, hoptions.outermost, hmerge] at hcompile
    cases hcompile
    refine ⟨modulePlacements_leaves hoptions compiler, fun p hp => htext ▸ placement_split hp, ?_,
      htells⟩
    intro p hp compiled cases haccepted hparse item hitem
    obtain ⟨quote, before, raw, after, hp'⟩ :=
      modulePlacements_standsAt hread hplain hoptions p hp
    refine ⟨?_, exists_spellsAt hp' hparse hitem⟩
    obtain ⟨cases', hparse', hcode, -⟩ := compile_ahead hoptions.strategy hoptions.plain haccepted
    cases hparse.symm.trans hparse'
    obtain ⟨front, hstarts⟩ := startsBehind_exists hitem
    obtain ⟨behind, hbehind⟩ := hstarts.split
    exact ⟨front, behind, hstarts, hcode.trans hbehind⟩

/-- A string with escapes and a placeholder, compiled for production. -/
theorem compile_map_tells_escaped :
    let source := "\x7b\"a\": \"say \\\"hi\\\" \x7bn\x7d\"\x7d"
    let options : Options := { sourceMap := true, environment := .production }
    ∃ document result, Script.readData source "a.json" = .ok document ∧
      (Compile.logged (({} : Compiler).compile source "a.json" options)).1 = .ok result ∧
      result.map.Tells fun r => ∃ p ∈ modulePlacements {} document options,
        Maps source.toList "a.json" options p r := by
  intro source options
  let literal := "say \"hi\" \x7bn\x7d"
  let scalar : Scalar := ⟨.string literal, ⟨⟨1, 6, 6⟩, ⟨1, 22, 22⟩⟩, ⟨1, 7, 7⟩⟩
  have hdocument : (Script.readData source "a.json").toOption.map (fun d =>
      (d.root.leaves [], moduleChunks options none d.root)) =
      some ([⟨scalar, literal, ["a"]⟩], [.text "const resource = ", .text "\x7b\n  ", .text "\"a\": ",
        .message scalar literal ["a"], .text "\n\x7d", .text "\nexport default resource"]) := by
    decide +kernel
  obtain ⟨document, hread, hfacts⟩ := Option.map_eq_some_iff.1 hdocument
  obtain ⟨hleaves, hchunks⟩ := Prod.mk.inj hfacts
  have hread := ok_of_toOption hread
  have hparse : parse literal.toList = .ok [[⟨.text "say \"hi\" ".toList, 0⟩, ⟨.named ['n'], 9⟩]] := by
    decide +kernel
  have hsome : (Message.compile literal options ["a"]).toOption.isSome := by decide +kernel
  obtain ⟨compiled, hcompiled⟩ := Option.isSome_iff_exists.1 hsome
  have hcompiled := ok_of_toOption hcompiled
  have hoptions : options.MapsMessages := by constructor <;> rfl
  obtain ⟨cases, hcases, htext, -⟩ := compile_ahead hoptions.strategy hoptions.plain hcompiled
  cases hparse.symm.trans hcases
  have hleaf : ∀ leaf ∈ document.root.leaves [], leaf = ⟨scalar, literal, ["a"]⟩ := by
    rw [hleaves]
    exact fun leaf => List.mem_singleton.1
  have hplain : ∀ leaf ∈ document.root.leaves [], leaf.Plain source.toList := by
    intro leaf hmem
    have hquote : Script.Spelled '"' ['\\', '"'] ['"'] := .cons (.simple (by decide)) .nil
    have hraw : ∀ text : String, text.toList.all (fun c => c != '"' && c != '\\' && c != '\n') →
        Script.Spelled '"' text.toList text.toList := by
      intro text hall
      refine Script.spelled_raw fun c hc => ?_
      simpa [and_assoc] using List.all_eq_true.1 hall c hc
    have hsay := hraw "say " (by decide +kernel)
    have hhi := hraw "hi" (by decide +kernel)
    have hname := hraw " \x7bn\x7d" (by decide +kernel)
    rw [hleaf leaf hmem]
    exact ⟨'"', _, _, by decide +kernel,
      hsay.append (hquote.append (hhi.append (hquote.append hname)))⟩
  have hdistinct : ((document.root.leaves []).map (·.literal)).Nodup := by
    rw [hleaves]
    exact List.nodup_singleton _
  have haccepted : ∀ leaf ∈ document.root.leaves [], ∃ compiled,
      Message.compile leaf.literal options leaf.path = .ok compiled := by
    intro leaf hmem
    rw [hleaf leaf hmem]
    exact ⟨compiled, hcompiled⟩
  have hunits : units (chunksText options
      (moduleChunks options (payloadOf {} document options) document.root)) < wordLimit := by
    show units (chunksText options (moduleChunks options none document.root)) < wordLimit
    rw [hchunks]
    simp only [chunksText, List.flatMap_cons, List.flatMap_nil, chunkText, messageCode_ok hcompiled,
      htext]
    decide +kernel
  obtain ⟨result, hresult, hcode⟩ := compile_of_accepted rfl (by decide +kernel) hread hplain
    hdistinct hoptions haccepted hunits
  exact ⟨document, result, hread, hresult, (compile_map_tells rfl (by decide +kernel) hread hplain
    hdistinct hoptions hresult (hcode ▸ hunits)).2.2.2⟩

end

end MessageCatalog
