/-
Running a compile: a data text is read, filtered if that is asked for, and its module emitted. What is
emitted does not depend on which locales are asked for, so a filtered text compiles as the text that
the filter writes does without a filter.
-/
import MessageCatalog.Compile.Pipeline
import MessageCatalog.Proofs.Emission.Verdict
import MessageCatalog.Proofs.Script.Leaf

namespace MessageCatalog

open MessageCatalog.Emission MessageCatalog.Text

/-! ## Steps of a compile -/

/-- What bridge output of a document registers. -/
def payloadOf (compiler : Compiler) (document : Document) (options : Options) : Option String :=
  match compiler.bridgePayload with
  | some payload => some payload
  | none =>
    if options.bridge && options.isComponent then some (Registration.resourceJson document)
    else none

theorem Compile.run_bind {α β : Type} (x : Compile α) (f : α → Compile β) (log : List Notice) :
    (x >>= f).run.run log =
      match x.run.run log with
      | (.ok a, between) => (f a).run.run between
      | (.error e, between) => (.error e, between) := by
  rw [ExceptT.run_bind, StateT.run_bind]
  cases x.run.run log with
  | mk answer between => cases answer <;> rfl

theorem Compile.run_pure {α : Type} (a : α) (log : List Notice) :
    (pure a : Compile α).run.run log = (.ok a, log) := rfl

/-- A module is emitted, and then its maps are composed. -/
theorem emitModule_run (compiler : Compiler) (document : Document) (source filename : String)
    (options : Options) (log : List Notice) :
    (emitModule compiler document source filename options).run.run log =
      match emit document source options
        ⟨compiler.messages, compiler.diagnostics, payloadOf compiler document options⟩ with
      | .error refusal => (.error refusal.error, log ++ refusal.log)
      | .ok (generated, notices) =>
        (match generated.map with
        | some structural =>
          (mergeSourceMaps structural generated.codeMaps options.inSourceMap filename).map
            (⟨generated.code, ·⟩)
        | none => .ok ⟨generated.code, .empty⟩, log ++ notices) := by
  unfold emitModule
  change (match emit document source options
      ⟨compiler.messages, compiler.diagnostics, payloadOf compiler document options⟩ with
    | .error refusal => _
    | .ok (emission, log) => _ : Compile CompileResult).run.run log = _
  cases emit document source options
      ⟨compiler.messages, compiler.diagnostics, payloadOf compiler document options⟩ with
  | error refusal => rfl
  | ok emitted =>
    obtain ⟨generated, notices⟩ := emitted
    cases hmap : generated.map with
    | none =>
      simp only [hmap]
      rfl
    | some structural =>
      simp only [hmap]
      cases hmerge : mergeSourceMaps structural generated.codeMaps options.inSourceMap filename with
      | error e => rfl
      | ok map => rfl

/-- What a compile makes of a resource that is read, and filtered if that is asked for. -/
def finishCompile (compiler : Compiler) (document : Document) (source filename : String)
    (options : Options) : Except CompileError CompileResult × List Notice :=
  if options.legacy then (.ok ⟨Registration.emit document options, .empty⟩, [])
  else (emitModule compiler document source filename options).run.run []

theorem Compile.run_say (notices log : List Notice) :
    (Compile.say notices).run.run log = (.ok ⟨⟩, log ++ notices) := rfl

theorem finishCompile_current (compiler : Compiler) {document : Document} {source filename : String}
    {options : Options} (hlegacy : options.legacy = false) :
    finishCompile compiler document source filename options =
      (emitModule compiler document source filename options).run.run [] := by
  rw [finishCompile, hlegacy]
  rfl

/-- Without a map a resource is finished as it is emitted with one. -/
theorem finishCompile_unmapped {compiler : Compiler} {document : Document} {text filename : String}
    {options : Options} (hmessages : compiler.messages = Message.compile)
    (hlegacy : options.legacy = false) :
    finishCompile compiler document text filename (options.mapping false) =
      match emit document text (options.mapping true)
        ⟨Message.compile, compiler.diagnostics, payloadOf compiler document options⟩ with
      | .error refusal => (.error refusal.error, refusal.log)
      | .ok (generated, log) => (.ok ⟨generated.code, .empty⟩, log) := by
  have hcurrent : (options.mapping false).legacy = false := hlegacy
  have hpayload : payloadOf compiler document (options.mapping false) =
      payloadOf compiler document options := rfl
  have hunmapped := @emit_unmapped
    ⟨Message.compile, compiler.diagnostics, payloadOf compiler document options⟩
    Message.compile_ignoresSourceMap document text (options.mapping true)
  change emit document text (options.mapping false) _ = _ at hunmapped
  rw [finishCompile_current compiler hcurrent, emitModule_run, hmessages, hpayload, hunmapped]
  cases emit document text (options.mapping true)
    ⟨Message.compile, compiler.diagnostics, payloadOf compiler document options⟩ <;> rfl

/-- Without a map, a resource that is finished comes to what its emission comes to. -/
theorem finishCompile_verdict {ε : Type} (cause : CompileError → ε) {compiler : Compiler}
    {options : Options} (hmessages : compiler.messages = Message.compile)
    (hmap : options.sourceMap = false) (hlegacy : options.legacy = false) (document : Document)
    (text filename : String) :
    (finishCompile compiler document text filename options).1.mapError cause =
      (codeOrCause cause (emit document text (options.mapping true)
        ⟨Message.compile, compiler.diagnostics, payloadOf compiler document options⟩)).map
          (⟨·, .empty⟩) := by
  have hoff : options.mapping false = options := by
    unfold Options.mapping
    rw [← hmap]
  have hfinish := @finishCompile_unmapped compiler document text filename options hmessages hlegacy
  rw [hoff] at hfinish
  rw [hfinish]
  cases emit document text (options.mapping true)
    ⟨Message.compile, compiler.diagnostics, payloadOf compiler document options⟩ <;> rfl

/-! ## Loading and finishing -/

/--
The resource of a source text, filtered if that is asked for, with the text that its positions point
into; `none` for a module that is left as it is.
-/
def loadResource (diagnostics : Diagnostics) (source filename : String) (format : ResourceFormat)
    (options : Options) : Compile (Option (Document × String)) := do
  let (read, warnings) := format.read source filename
  Compile.say (warnings.flatMap diagnostics.warn)
  match read with
  | .error e =>
    match e with
    | .unsupportedShape .. =>
      if format = .plainModule && options.allowDynamic then return none else throw e
    | _ => throw e
  | .ok document =>
    let filtered ← refilter document format options diagnostics
    return some (filtered.getD (document, source))

/-- What is said while a resource is finished stands behind what was said before. -/
theorem finishCompile_behind (compiler : Compiler) (document : Document) (text filename : String)
    (options : Options) (hlegacy : options.legacy = false) (log : List Notice) :
    (emitModule compiler document text filename options).run.run log =
      ((finishCompile compiler document text filename options).1,
        log ++ (finishCompile compiler document text filename options).2) := by
  rw [finishCompile_current compiler hlegacy, emitModule_run, emitModule_run]
  cases emit document text options
    ⟨compiler.messages, compiler.diagnostics, payloadOf compiler document options⟩ <;> rfl

/-- What a compile hands over when its resource is loaded, and what is said behind the log. -/
def finishLoaded (compiler : Compiler) (source filename : String) (options : Options) :
    Except CompileError (Option (Document × String)) × List Notice →
      Except CompileError CompileResult × List Notice
  | (.error e, log) => (.error e, log)
  | (.ok none, log) => (.ok ⟨source, .empty⟩, log)
  | (.ok (some (document, text)), log) =>
    ((finishCompile compiler document text filename options).1,
      log ++ (finishCompile compiler document text filename options).2)

/-- Compiles a text in a known format; a module that is left as it is has its own text as code. -/
def compileIn (compiler : Compiler) (source filename : String) (format : ResourceFormat)
    (options : Options) : Compile CompileResult := do
  match ← runPipeline compiler source filename format options with
  | .compiled result => return result
  | .unchanged => return ⟨source, .empty⟩

theorem compile_eq_compileIn (compiler : Compiler) {source filename : String} {format : ResourceFormat}
    {options : Options} (hformat : ResourceFormat.ofFilename? filename = some format) :
    compiler.compile source filename options = compileIn compiler source filename format options := by
  unfold Compiler.compile formatOf
  rw [hformat]
  rfl

/-- A text in a known format is compiled by loading its resource and finishing it. -/
theorem compileIn_load (compiler : Compiler) (source filename : String) (format : ResourceFormat)
    (options : Options) :
    Compile.logged (compileIn compiler source filename format options) =
      finishLoaded compiler source filename options
        (Compile.logged (loadResource compiler.diagnostics source filename format options)) := by
  unfold Compile.logged compileIn runPipeline loadResource
  simp only [Compile.run_bind, Compile.run_say]
  cases (format.read source filename).1 with
  | error e =>
    cases e with
    | unsupportedShape =>
      by_cases hdynamic : (decide (format = .plainModule) && options.allowDynamic) = true
      · simp only [hdynamic, if_true]
        rfl
      · simp only [hdynamic]
        rfl
    | _ => rfl
  | ok document =>
    simp only [Compile.run_bind]
    cases (refilter document format options compiler.diagnostics).run.run _ with
    | mk kept log =>
    cases kept with
    | error e => rfl
    | ok kept =>
      cases hlegacy : options.legacy with
      | true =>
        simp only [if_true, Compile.run_pure, finishLoaded, finishCompile, hlegacy, List.append_nil]
        cases kept <;> rfl
      | false =>
        simp only [Bool.false_eq_true, if_false, Compile.run_bind, Compile.run_pure,
          finishCompile_behind compiler _ _ _ _ hlegacy, finishLoaded]
        -- what is emitted is the whole answer
        cases kept <;> simp only [Option.getD] <;>
          cases (finishCompile compiler _ _ filename options).1 <;> rfl

/-- A compile loads the resource and then finishes it. -/
theorem compile_load (compiler : Compiler) {source filename : String} {format : ResourceFormat}
    {options : Options} (hformat : ResourceFormat.ofFilename? filename = some format) :
    Compile.logged (compiler.compile source filename options) =
      finishLoaded compiler source filename options
        (Compile.logged (loadResource compiler.diagnostics source filename format options)) := by
  rw [compile_eq_compileIn compiler hformat, compileIn_load]

/-- The locale filter: what it leaves of a document is read again. -/
theorem refilter_run (diagnostics : Diagnostics) (document : Document) (format : ResourceFormat)
    (options : Options) (log : List Notice) :
    (refilter document format options diagnostics).run.run log =
      match LocaleFilter.filteredText document format options with
      | none => (.ok none, log)
      | some text =>
        let (read, warnings) := format.read text document.filename
        (read.map fun filtered => some (filtered, text), log ++ warnings.flatMap diagnostics.warn) := by
  unfold refilter
  cases LocaleFilter.filteredText document format options with
  | none => rfl
  | some text =>
    simp only [Compile.ofRead, Compile.run_bind, Compile.run_say]
    cases (format.read text document.filename).1 <;> rfl

/-! ## Data texts -/

section

variable {source filename : String} {options : Options} {document : Document}

/-- A data text is finished as it is read, or as what the filter leaves of it is read. -/
theorem compile_data (compiler : Compiler) (options : Options)
    (hformat : ResourceFormat.ofFilename? filename = some .json)
    (hread : Script.readData source filename = .ok document) :
    Compile.logged (compiler.compile source filename options) =
      match LocaleFilter.filteredText document .json options with
      | none => finishCompile compiler document source filename options
      | some text =>
        match Script.readData text filename with
        | .error e => (.error e, [])
        | .ok filtered => finishCompile compiler filtered text filename options := by
  have hfilename : document.filename = filename := (Script.readData_isData hread).2
  rw [compile_load compiler hformat]
  unfold Compile.logged loadResource
  simp only [ResourceFormat.read, hread, Compile.run_bind, Compile.run_say, refilter_run,
    List.flatMap_nil, List.append_nil, hfilename]
  cases LocaleFilter.filteredText document .json options with
  | none => rfl
  | some text =>
    simp only
    cases Script.readData text filename <;> rfl

/-- A data text that is not filtered is finished as it is read. -/
theorem compile_run_unfiltered (compiler : Compiler)
    (hformat : ResourceFormat.ofFilename? filename = some .json)
    (hread : Script.readData source filename = .ok document)
    (hfilter : LocaleFilter.applies options = false) :
    Compile.logged (compiler.compile source filename options) =
      finishCompile compiler document source filename options := by
  have htext : LocaleFilter.filteredText document .json options = none := by
    unfold LocaleFilter.filteredText
    rw [hfilter]
    rfl
  rw [compile_data compiler options hformat hread, htext]

end

/-! ## What emission does not ask -/

/-- The options with other locales requested, and with modules that are not static let through or not. -/
def Options.asking (options : Options) (locales : List String) (allowDynamic : Bool) : Options :=
  { options with onlyLocales := locales, allowDynamic }

/-- The options with another list of requested locales. -/
def Options.requesting (options : Options) (locales : List String) : Options :=
  { options with onlyLocales := locales }

section

variable {options : Options} {locales : List String} {allowDynamic : Bool}

namespace Emission

theorem visit_asking {μ : Type} (cx : Context μ)
    (hcompiler : ∀ literal path memory,
      cx.compiler literal (cx.options.asking locales allowDynamic) path memory =
        cx.compiler literal cx.options path memory) :
    visit { cx with options := cx.options.asking locales allowDynamic } = visit cx := by
  have hmessage : ∀ out path scalar literal,
      writeMessage { cx with options := cx.options.asking locales allowDynamic } out path scalar literal =
        writeMessage cx out path scalar literal := by
    intro out path scalar literal
    unfold writeMessage
    rw [hcompiler]
    rfl
  funext event st
  cases event with
  | scalar s =>
    unfold visit visitLiteral
    simp only [hmessage]
    rfl
  | _ => rfl

theorem emit_asking (document : Document) (source : String) (collaborators : Collaborators)
    (hcompiler : ∀ literal path,
      collaborators.compiler literal (options.asking locales allowDynamic) path =
        collaborators.compiler literal options path) :
    emit document source (options.asking locales allowDynamic) collaborators =
      emit document source options collaborators := by
  have hvisit := @visit_asking locales allowDynamic _ ⟨source.toList, document.filename, options,
    collaborators.compiler.forgetful, collaborators.diagnostics, collaborators.bridgePayload⟩
    (fun literal path memory => congrArg (·, memory) (hcompiler literal path))
  unfold emit emitRemembering
  simp only at hvisit
  simp only [hvisit]
  rfl

end Emission

/-- What is emitted does not depend on what is asked of the reading and of the filter. -/
theorem finishCompile_asking {compiler : Compiler} (document : Document) (source filename : String)
    (hcompiler : ∀ literal path,
      compiler.messages literal (options.asking locales allowDynamic) path =
        compiler.messages literal options path) :
    finishCompile compiler document source filename (options.asking locales allowDynamic) =
      finishCompile compiler document source filename options := by
  have hpayload : payloadOf compiler document (options.asking locales allowDynamic) =
      payloadOf compiler document options := rfl
  have hmodule : (emitModule compiler document source filename
      (options.asking locales allowDynamic)).run.run [] =
        (emitModule compiler document source filename options).run.run [] := by
    rw [emitModule_run, emitModule_run, hpayload, emit_asking _ _ _ hcompiler]
    rfl
  unfold finishCompile
  rw [hmodule]
  rfl

end

/-- What is emitted does not depend on which locales are asked for. -/
theorem finishCompile_requesting {compiler : Compiler} (hmessages : compiler.messages = Message.compile)
    (document : Document) (source filename : String) (options : Options) (locales : List String) :
    finishCompile compiler document source filename (options.requesting locales) =
      finishCompile compiler document source filename options :=
  @finishCompile_asking options locales options.allowDynamic compiler document source filename
    fun _ _ => by rw [hmessages]; rfl

end MessageCatalog
