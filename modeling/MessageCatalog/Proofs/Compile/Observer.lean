/-
Source maps are an observer of a compile. With a map and without one the same resource is loaded, the
same is said, and the same code or the same error is handed out: all maps that an emission makes decode,
so composing them cannot fail.
-/
import MessageCatalog.Proofs.Compile.Run
import MessageCatalog.Proofs.Emission.Decodable
import MessageCatalog.Proofs.Emission.Lenient
import MessageCatalog.Proofs.Emission.Unmapped
import MessageCatalog.Proofs.Resource.Faults

namespace MessageCatalog

open MessageCatalog.Emission MessageCatalog.Message MessageCatalog.Text

/-! ## Loading -/

section

variable {diagnostics : Diagnostics} {source filename : String} {format : ResourceFormat}
  {options : Options} {document : Document} {text : String}

/-- A resource is refused by its reader, left as it is, or loaded from the text that is kept with it. -/
theorem loadResource_cases :
    let loaded := (Compile.logged (loadResource diagnostics source filename format options)).1
    (∃ e, loaded = .error e ∧ e.OfReading) ∨ loaded = .ok none ∨
      ∃ document text name, loaded = .ok (some (document, text)) ∧
        (format.read text name).1 = .ok document := by
  unfold Compile.logged loadResource
  simp only [Compile.run_bind, Compile.run_say]
  cases hread : (format.read source filename).1 with
  | error e =>
    have hreading := ResourceFormat.read_ofReading hread
    cases e with
    | unsupportedShape =>
      simp only
      split
      · exact .inr (.inl rfl)
      · exact .inl ⟨_, rfl, hreading⟩
    | _ => exact .inl ⟨_, rfl, hreading⟩
  | ok whole =>
    simp only [Compile.run_bind, refilter_run]
    cases LocaleFilter.filteredText whole format options with
    | none => exact .inr (.inr ⟨whole, source, filename, rfl, hread⟩)
    | some text =>
      -- what the filter keeps is read a second time
      simp only
      cases hkept : (format.read text whole.filename).1 with
      | error e => exact .inl ⟨e, rfl, ResourceFormat.read_ofReading hkept⟩
      | ok kept => exact .inr (.inr ⟨kept, text, whole.filename, rfl, hkept⟩)

end

/-- A compile loads a document in a format, with the text that its positions point into. -/
structure Compiler.Loads (compiler : Compiler) (source filename : String) (options : Options)
    (format : ResourceFormat) (document : Document) (text : String) : Prop where
  named : ResourceFormat.ofFilename? filename = some format
  loaded : (Compile.logged (loadResource compiler.diagnostics source filename format options)).1 =
    .ok (some (document, text))

/--
The lines and columns of what a compile works on are words. A script text of more bytes than a word
counts is not read, so this is about YAML texts, and about messages that are compiled to functions.
-/
structure Compiler.CountsInWords (compiler : Compiler) (source filename : String)
    (options : Options) : Prop where
  yaml : ∀ document text, compiler.Loads source filename options .yaml document text →
    WordPositions text.toList
  messages : options.strategy = .aheadOfTime → ∀ format document text,
    compiler.Loads source filename options format document text →
      ∀ leaf ∈ compiledLeaves options [] document.root,
        WordPositions (compiledText leaf.literal.toList options)

section

variable {compiler : Compiler} {source filename : String} {options : Options}
  {format : ResourceFormat} {document : Document} {text : String}

theorem Compiler.Loads.read (h : compiler.Loads source filename options format document text) :
    ∃ name, (format.read text name).1 = .ok document := by
  rcases @loadResource_cases compiler.diagnostics source filename format options with
    ⟨e, hloaded, -⟩ | hloaded | ⟨document', text', name, hloaded, hread⟩
  · cases h.loaded.symm.trans hloaded
  · cases h.loaded.symm.trans hloaded
  · cases h.loaded.symm.trans hloaded
    exact ⟨name, hread⟩

theorem Compiler.Loads.placed (h : compiler.Loads source filename options format document text) :
    document.root.PlacedIn (.ofText text.toList) := by
  obtain ⟨name, hread⟩ := h.read
  exact ResourceFormat.read_placed hread

theorem Compiler.Loads.words (h : compiler.Loads source filename options format document text)
    (hwords : compiler.CountsInWords source filename options) : WordPositions text.toList := by
  obtain ⟨name, hread⟩ := h.read
  by_cases hformat : format = .yaml
  · subst hformat
    exact hwords.yaml document text h
  · exact wordPositions_of_byteLength (Nat.lt_succ_of_le (ResourceFormat.read_size hformat hread))

end

/-! ## Refused messages -/

namespace Emission

variable {μ : Type} {cx : Context μ}

/-- Chunks that are not written are refused for a message that the compiler rejects. -/
theorem writeChunks_refused : ∀ {chunks : List Chunk} {out : Output μ} {refusal : Refusal},
    writeChunks cx chunks out = .error refusal →
    ∃ leaf ∈ chunks.filterMap Chunk.leaf?, ∃ memory rejected,
      (cx.compiler leaf.literal cx.options leaf.path memory).1 = .error rejected ∧
      refusal.error = (leafVerdict cx.diagnostics cx.filename leaf rejected).2
  | [], out, refusal, h => by cases h
  | chunk :: rest, out, refusal, h => by
    rcases bind_eq_error.1 h with hchunk | ⟨next, -, hrest⟩
    · cases chunk with
      | text code => cases hchunk
      | verbatim v => cases hchunk
      | message scalar literal path =>
        refine ⟨⟨scalar, literal, path⟩, List.mem_cons_self, out.memory, ?_⟩
        unfold writeChunk writeMessage at hchunk
        cases hanswer : (cx.compiler literal cx.options path out.memory).1 with
        | ok compiled =>
          simp only [hanswer] at hchunk
          cases hchunk
        | error rejected =>
          simp only [hanswer, writeAnswer] at hchunk
          split at hchunk
          · cases hchunk
          · cases hchunk
            exact ⟨rejected, rfl, rfl⟩
    · obtain ⟨leaf, hleaf, hrefused⟩ := writeChunks_refused hrest
      refine ⟨leaf, ?_, hrefused⟩
      rw [List.filterMap_cons]
      split
      · exact hleaf
      · exact List.mem_cons_of_mem _ hleaf

/-- An emission is refused for a leaf that the compiler rejects. -/
theorem emit_refused {document : Document} {source : String} {options : Options}
    {collaborators : Collaborators} {refusal : Refusal}
    (h : emit document source options collaborators = .error refusal) :
    ∃ leaf ∈ compiledLeaves options [] document.root, ∃ rejected,
      collaborators.compiler leaf.literal options leaf.path = .error rejected ∧
      refusal.error = (leafVerdict collaborators.diagnostics document.filename leaf rejected).2 := by
  unfold emit at h
  rcases bind_eq_error.1 h with h | ⟨emitted, -, h⟩
  · rw [emitRemembering_eq] at h
    obtain ⟨leaf, hleaf, memory, rejected, hrejected, herror⟩ := writeChunks_refused (map_eq_error h)
    rw [moduleChunks_compiled] at hleaf
    exact ⟨leaf, hleaf, rejected, hrejected, herror⟩
  · cases h

end Emission

/-- The code of a message error is none of those that a compile has for itself. -/
theorem Message.compile_error_code {message : String} {options : Options} {path : List String}
    {e : Message.Error} (h : compile message options path = .error e) :
    e.fault.code ≠ "E-SOURCE-MAP" := by
  obtain ⟨-, c, -, -, -, hopens⟩ := compile_error h
  cases hfault : e.fault with
  | custom code text =>
    rw [hfault] at hopens
    cases hopens
  | _ => simp [Fault.code]

/-! ## Finishing -/

section

variable {compiler : Compiler} {document : Document} {text filename : String} {options : Options}
  (hmessages : compiler.messages = Message.compile) (hlegacy : options.legacy = false)

include hmessages hlegacy

variable (hinbound : options.inSourceMap = none)

include hinbound

/-- With a map a resource is finished in the same way if all maps of its emission decode. -/
theorem finishCompile_mapped
    (hdecodes : ∀ generated log, emit document text (options.mapping true)
      ⟨Message.compile, compiler.diagnostics, payloadOf compiler document options⟩ =
        .ok (generated, log) → ∃ cx, MapsDecode cx document.root generated) :
    let finish := fun sourceMap =>
      finishCompile compiler document text filename (options.mapping sourceMap)
    (finish true).1.map (·.code) = (finish false).1.map (·.code) ∧
      (finish true).2 = (finish false).2 := by
  intro finish
  have hcurrent : (options.mapping true).legacy = false := hlegacy
  have hpayload : payloadOf compiler document (options.mapping true) =
      payloadOf compiler document options := rfl
  show (finishCompile _ _ _ _ (options.mapping true)).1.map _ =
      (finishCompile _ _ _ _ (options.mapping false)).1.map _ ∧
    (finishCompile _ _ _ _ (options.mapping true)).2 =
      (finishCompile _ _ _ _ (options.mapping false)).2
  rw [finishCompile_unmapped hmessages hlegacy, finishCompile_current compiler hcurrent,
    emitModule_run, hmessages, hpayload]
  cases hemit : emit document text (options.mapping true)
      ⟨Message.compile, compiler.diagnostics, payloadOf compiler document options⟩ with
  | error refusal => exact ⟨rfl, rfl⟩
  | ok emitted =>
    obtain ⟨generated, log⟩ := emitted
    obtain ⟨cx, ⟨structural, segments, hstructural, hdecode⟩, hkept, -⟩ := hdecodes _ _ hemit
    have hnone : (options.mapping true).inSourceMap = none := hinbound
    obtain ⟨b, hmerge, -⟩ := @mergeSourceMaps_collects structural generated.codeMaps none filename
      ⟨segments, hdecode⟩ hkept nofun
    simp only [hstructural, hnone, hmerge]
    exact ⟨rfl, rfl⟩

end

/-! ## Compiling -/

section

variable {compiler : Compiler} {source filename : String} {options : Options}
  {format : ResourceFormat} {document : Document} {text : String}

/-- What is loaded does not depend on whether a map is asked for. -/
theorem compile_loaded (hformat : ResourceFormat.ofFilename? filename = some format)
    {answer : Except CompileError (Option (Document × String))}
    (h : (Compile.logged (loadResource compiler.diagnostics source filename format options)).1 =
      answer) :
    ∃ log, ∀ sourceMap, Compile.logged (compiler.compile source filename (options.mapping sourceMap)) =
      finishLoaded compiler source filename (options.mapping sourceMap) (answer, log) := by
  refine ⟨(Compile.logged (loadResource compiler.diagnostics source filename format options)).2,
    fun sourceMap => ?_⟩
  rw [compile_load compiler hformat, ← h]
  rfl

/-- A resource that is loaded is finished from its document, behind what was said before. -/
theorem Compiler.Loads.finish (h : compiler.Loads source filename options format document text) :
    ∃ log, ∀ sourceMap,
      let finished := finishCompile compiler document text filename (options.mapping sourceMap)
      Compile.logged (compiler.compile source filename (options.mapping sourceMap)) =
        (finished.1, log ++ finished.2) :=
  compile_loaded h.named h.loaded

/-- Whether a map is asked for matters only where a resource that is loaded is finished. -/
theorem compile_cases :
    (∃ e log, e.OfReading ∧ ∀ sourceMap,
        Compile.logged (compiler.compile source filename (options.mapping sourceMap)) =
          (.error e, log)) ∨
      (∃ log, ∀ sourceMap,
        Compile.logged (compiler.compile source filename (options.mapping sourceMap)) =
          (.ok ⟨source, .empty⟩, log)) ∨
      ∃ format document text, compiler.Loads source filename options format document text := by
  cases hformat : ResourceFormat.ofFilename? filename with
  | none =>
    refine .inl ⟨.malformed filename "unsupported resource file extension" none, [],
      .malformed _ _ _, fun sourceMap => ?_⟩
    unfold Compile.logged Compiler.compile formatOf
    rw [hformat]
    rfl
  | some format =>
    rcases @loadResource_cases compiler.diagnostics source filename format options with
      ⟨e, hloaded, hreading⟩ | hloaded | ⟨document, text, name, hloaded, -⟩
    · obtain ⟨log, hrun⟩ := compile_loaded hformat hloaded
      exact .inl ⟨e, log, hreading, hrun⟩
    · obtain ⟨log, hrun⟩ := compile_loaded hformat hloaded
      exact .inr (.inl ⟨log, hrun⟩)
    · exact .inr (.inr ⟨format, document, text, hformat, hloaded⟩)

/-- All maps that are made for a loaded resource decode. -/
theorem Compiler.Loads.mapsDecode (h : compiler.Loads source filename options format document text)
    (hmessages : compiler.messages = Message.compile) (hlegacy : options.legacy = false)
    (hwords : compiler.CountsInWords source filename options)
    (hcode : ∀ result, (Compile.logged (compiler.compile source filename (options.mapping false))).1 =
      .ok result → units result.code.toList < wordLimit)
    {generated : GeneratedModule} {log : List Notice}
    (hemit : emit document text (options.mapping true)
      ⟨Message.compile, compiler.diagnostics, payloadOf compiler document options⟩ =
        .ok (generated, log)) :
    MapsDecode ⟨text.toList, document.filename, options.mapping true,
      MessageCompiler.forgetful Message.compile, compiler.diagnostics,
      payloadOf compiler document options⟩ document.root generated := by
  obtain ⟨said, hfinish⟩ := h.finish
  have hresult := congrArg (·.1) (hfinish false)
  simp only [finishCompile_unmapped hmessages hlegacy, hemit] at hresult
  refine emit_decodes h.placed (h.words hwords) ?_ rfl hemit (hcode _ hresult)
  intro hstrategy leaf hleaf
  rw [compiledLeaves_mapping] at hleaf
  exact hwords.messages hstrategy _ _ _ h leaf hleaf

end

/-- An error of a compile: the resource cannot be read, or the channel turned a message into it. -/
inductive Compiler.Refuses (compiler : Compiler) (source filename : String) (options : Options) :
    CompileError → Prop where
  | unread {e : CompileError} (reading : e.OfReading) : Refuses compiler source filename options e
  | message {format : ResourceFormat} {document : Document} {text : String} {leaf : Leaf}
    {rejected : Message.Error} (loads : compiler.Loads source filename options format document text)
    (mem : leaf ∈ compiledLeaves options [] document.root)
    (answer : Message.compile leaf.literal options leaf.path = .error rejected) :
    Refuses compiler source filename options
      (leafVerdict compiler.diagnostics document.filename leaf rejected).2

section

variable {compiler : Compiler} {source filename : String} {options : Options}
  (hmessages : compiler.messages = Message.compile)

include hmessages

/-- What is refused without a map is refused for its text or for one of its messages. -/
theorem compile_refuses {e : CompileError}
    (h : (Compile.logged (compiler.compile source filename (options.mapping false))).1 = .error e) :
    compiler.Refuses source filename options e := by
  rcases @compile_cases compiler source filename options with
    ⟨fault, log, hreading, hrun⟩ | ⟨log, hrun⟩ | ⟨format, document, text, hloads⟩
  · rw [hrun] at h
    cases h
    exact .unread hreading
  · rw [hrun] at h
    cases h
  · obtain ⟨log, hfinish⟩ := hloads.finish
    rw [hfinish] at h
    cases hlegacy : options.legacy with
    | true =>
      have hpassed : (options.mapping false).legacy = true := hlegacy
      rw [finishCompile, hpassed] at h
      cases h
    | false =>
      rw [finishCompile_unmapped hmessages hlegacy] at h
      cases hemit : emit document text (options.mapping true)
          ⟨Message.compile, compiler.diagnostics, payloadOf compiler document options⟩ with
      | ok emitted =>
        rw [hemit] at h
        cases h
      | error refusal =>
        rw [hemit] at h
        cases h
        obtain ⟨leaf, hleaf, rejected, hrejected, herror⟩ := emit_refused hemit
        rw [compiledLeaves_mapping] at hleaf
        rw [herror]
        exact .message hloads hleaf hrejected

/-- With a map the same is handed out and said as without one. -/
theorem compile_agrees (hinbound : options.inSourceMap = none)
    (hwords : options.legacy = false → compiler.CountsInWords source filename options)
    (hcode : ∀ result, (Compile.logged (compiler.compile source filename (options.mapping false))).1 =
      .ok result → units result.code.toList < wordLimit) :
    let run := fun sourceMap =>
      Compile.logged (compiler.compile source filename (options.mapping sourceMap))
    (run true).1.map (·.code) = (run false).1.map (·.code) ∧ (run true).2 = (run false).2 := by
  intro run
  rcases @compile_cases compiler source filename options with
    ⟨fault, log, hreading, hrun⟩ | ⟨log, hrun⟩ | ⟨format, document, text, hloads⟩
  · exact ⟨by simp only [run, hrun], by simp only [run, hrun]⟩
  · exact ⟨by simp only [run, hrun], by simp only [run, hrun]⟩
  · obtain ⟨log, hfinish⟩ := hloads.finish
    simp only [run, hfinish]
    cases hlegacy : options.legacy with
    | true =>
      have hpassed : ∀ sourceMap, finishCompile compiler document text filename
          (options.mapping sourceMap) = (.ok ⟨Registration.emit document options, .empty⟩, []) := by
        intro sourceMap
        have hpassed : (options.mapping sourceMap).legacy = true := hlegacy
        rw [finishCompile, hpassed]
        rfl
      rw [hpassed, hpassed]
      exact ⟨rfl, rfl⟩
    | false =>
      obtain ⟨hsame, hsaid⟩ := @finishCompile_mapped compiler document text filename options hmessages
        hlegacy hinbound fun generated said hemit =>
          ⟨_, hloads.mapsDecode hmessages hlegacy (hwords hlegacy) hcode hemit⟩
      exact ⟨hsame, congrArg (log ++ ·) hsaid⟩

end

/--
A map has no part in what is compiled. With a map and without one a resource compiles to the same code,
or it is refused with the same error, and the same is said. An error is one about the text of the
resource, or what the channel makes of a message that is rejected; so there is none about a source map,
unless the channel itself makes one up. All maps of an emission decode.
-/
theorem compile_observed {compiler : Compiler} {source filename : String} {options : Options}
    (hmessages : compiler.messages = Message.compile) (hinbound : options.inSourceMap = none)
    (hwords : options.legacy = false → compiler.CountsInWords source filename options)
    (hcode : ∀ result, (Compile.logged (compiler.compile source filename (options.mapping false))).1 =
      .ok result → units result.code.toList < wordLimit) :
    let run := fun sourceMap =>
      Compile.logged (compiler.compile source filename (options.mapping sourceMap))
    (run true).1.map (·.code) = (run false).1.map (·.code) ∧ (run true).2 = (run false).2 ∧
      (∀ e, (run true).1 = .error e → compiler.Refuses source filename options e) ∧
      ((∀ name message context,
          (compiler.diagnostics.reject name message context).2.code = context.code) →
        ∀ e, (run true).1 = .error e → e.code ≠ "E-SOURCE-MAP") ∧
      ∀ format document text generated log, options.legacy = false →
        compiler.Loads source filename options format document text →
        emit document text (options.mapping true)
          ⟨compiler.messages, compiler.diagnostics, payloadOf compiler document options⟩ =
            .ok (generated, log) →
        MapsDecode ⟨text.toList, document.filename, options.mapping true,
          compiler.messages.forgetful, compiler.diagnostics,
          payloadOf compiler document options⟩ document.root generated := by
  intro run
  obtain ⟨hsame, hsaid⟩ := @compile_agrees compiler source filename options hmessages hinbound hwords
    hcode
  have hrefuses : ∀ e, (run true).1 = .error e → compiler.Refuses source filename options e := by
    intro e he
    have hoff := hsame.symm.trans (congrArg (Except.map (·.code)) he)
    exact compile_refuses hmessages (map_eq_error hoff)
  refine ⟨hsame, hsaid, hrefuses, ?_, ?_⟩
  · intro hchannel e he
    cases hrefuses e he with
    | unread hreading => exact hreading.code_ne
    | message hloads hleaf hrejected =>
      rw [leafVerdict, hchannel]
      exact Message.compile_error_code hrejected
  · intro format document text generated log hlegacy hloads hemit
    rw [hmessages] at hemit ⊢
    exact hloads.mapsDecode hmessages hlegacy (hwords hlegacy) hcode hemit

/-- A string that is written with an escape compiles to the same code with a map. -/
theorem compile_observed_escaped :
    let source := "\x7b\"a\": \"\\u0041 \x7bn\x7d\"\x7d"
    let options : Options := { environment := .production }
    let run := fun sourceMap =>
      Compile.logged (({} : Compiler).compile source "a.json" (options.mapping sourceMap))
    ∃ plain mapped, (run false).1 = .ok plain ∧ (run true).1 = .ok mapped ∧
      mapped.code = plain.code ∧ (run true).2 = (run false).2 := by
  intro source options run
  have hplain : (run false).1.toOption.map (fun result =>
      decide (units result.code.toList < wordLimit)) = some true := by
    decide +kernel
  have hliterals : (Compile.logged (loadResource .silent source "a.json" .json options)).1.toOption.map
      (·.map fun loaded => (compiledLeaves options [] loaded.1.root).map (·.literal)) =
        some (some ["A \x7bn\x7d"]) := by
    decide +kernel
  obtain ⟨plain, hplain, hunits⟩ := Option.map_eq_some_iff.1 hplain
  have hplain := ok_of_toOption hplain
  have hwords : ({} : Compiler).CountsInWords source "a.json" options := by
    constructor
    · intro document text hloads
      exact absurd hloads.named (by decide +kernel)
    · intro _ format document text hloads leaf hleaf
      have hformat : some format = some .json := hloads.named.symm.trans (by decide +kernel)
      cases hformat
      have hloaded : (Compile.logged (loadResource .silent source "a.json" .json options)).1 =
          .ok (some (document, text)) := hloads.loaded
      rw [hloaded] at hliterals
      have hall : (compiledLeaves options [] document.root).map (·.literal) = ["A \x7bn\x7d"] :=
        Option.some.inj (Option.some.inj hliterals)
      have hliteral : leaf.literal ∈ (compiledLeaves options [] document.root).map (·.literal) :=
        List.mem_map_of_mem hleaf
      rw [hall, List.mem_singleton] at hliteral
      rw [hliteral]
      exact wordPositions_of_byteLength (by decide +kernel)
  obtain ⟨hsame, hsaid, -⟩ := @compile_observed {} source "a.json" options rfl rfl (fun _ => hwords)
    fun result hresult => by
      cases hplain.symm.trans hresult
      exact of_decide_eq_true hunits
  have hcodes : (run true).1.map (·.code) = (run false).1.map (·.code) := hsame
  rw [hplain] at hcodes
  obtain ⟨mapped, hmapped, hcode⟩ := map_eq_ok hcodes
  exact ⟨plain, mapped, hplain, hmapped, hcode, hsaid⟩

end MessageCatalog
