/-
Modules that are not static. Letting them through changes nothing but the answer for a text whose shape
is refused when it is read: that text is left as it is. What is refused later, when a filtered text is
read again, a message is compiled or source maps are composed, is refused all the same, and never for a
shape, as long as the functions of a filtered module have codes that stand for themselves.
-/
import MessageCatalog.Proofs.Compile.Observer
import MessageCatalog.Proofs.Compile.Refilter

namespace MessageCatalog

open MessageCatalog.Emission MessageCatalog.LocaleFilter MessageCatalog.Text

/-- The options with modules that are not static let through, or not. -/
def Options.allowing (options : Options) (allowDynamic : Bool) : Options :=
  { options with allowDynamic }

/-- A compiler that answers the same whether or not modules may be let through. -/
def MessageCompiler.IgnoresDynamic (compiler : MessageCompiler) : Prop :=
  ∀ literal (options : Options) path allowDynamic,
    compiler literal (options.allowing allowDynamic) path = compiler literal options path

theorem Message.compile_ignoresDynamic : MessageCompiler.IgnoresDynamic compile :=
  fun _ _ _ _ => rfl

/-! ## Leaving a source as it is -/

/-- What is answered where code that is the source is no code. -/
def unlessUnchanged (source : String) (result : CompileResult) : Option CompileResult :=
  if result.code = source then none else some result

theorem unlessUnchanged_eq_none {source : String} {result : CompileResult} :
    unlessUnchanged source result = none ↔ result.code = source := by
  unfold unlessUnchanged
  split <;> simp [*]

/-- Transforming is compiling, and telling whether the code is the source. -/
theorem transform_compile (compiler : Compiler) (source filename : String) (options : Options) :
    let compiled := Compile.logged (compiler.compile source filename options)
    Compile.logged (compiler.transform source filename options) =
      (compiled.1.map (unlessUnchanged source), compiled.2) := by
  unfold Compile.logged Compiler.compile Compiler.transform formatOf
  cases ResourceFormat.ofFilename? filename with
  | none => rfl
  | some format =>
    simp only [pure_bind, Compile.run_bind]
    cases (runPipeline compiler source filename format options).run.run [] with
    | mk outcome log =>
    cases outcome with
    | error e => rfl
    | ok outcome =>
      cases outcome with
      | compiled result => rfl
      | unchanged =>
        simp only [Compile.run_pure, Except.map, unlessUnchanged, if_true]

section

variable {compiler : Compiler} {source filename text : String} {format : ResourceFormat}
  {options : Options} {document : Document} {e : CompileError}

/-! ## Loading -/

/-- A module whose shape is refused is let through or not; nothing else is read or said. -/
theorem loadResource_shape (h : (Script.readResourceModule source filename).1 = .error e)
    (hshape : e.isShape = true) (diagnostics : Diagnostics) (options : Options) (allowDynamic : Bool) :
    Compile.logged (loadResource diagnostics source filename .plainModule (options.allowing allowDynamic)) =
      (if allowDynamic then .ok none else .error e,
        (Script.readResourceModule source filename).2.flatMap diagnostics.warn) := by
  unfold Compile.logged loadResource
  simp only [ResourceFormat.read, h, Compile.run_bind, Compile.run_say, List.nil_append]
  cases e with
  | unsupportedShape => cases allowDynamic <;> rfl
  | _ => cases hshape

/-- Nothing else is loaded in another way when modules are let through. -/
theorem loadResource_allowing
    (h : ∀ e, (format.read source filename).1 = .error e → e.isShape = false)
    (diagnostics : Diagnostics) (options : Options) (allowDynamic : Bool) :
    Compile.logged (loadResource diagnostics source filename format (options.allowing allowDynamic)) =
      Compile.logged (loadResource diagnostics source filename format options) := by
  unfold Compile.logged loadResource
  simp only [Compile.run_bind]
  cases hread : (format.read source filename).1 with
  | ok document => rfl
  | error e =>
    cases e with
    | unsupportedShape => cases h _ hread
    | _ => rfl

/-! ## Finishing -/

theorem finishCompile_allowing (hmessages : compiler.messages.IgnoresDynamic) (document : Document)
    (text filename : String) (options : Options) (allowDynamic : Bool) :
    finishCompile compiler document text filename (options.allowing allowDynamic) =
      finishCompile compiler document text filename options :=
  @finishCompile_asking options options.onlyLocales allowDynamic compiler document text filename
    fun literal path => hmessages literal options path allowDynamic

theorem finishLoaded_allowing (hmessages : compiler.messages.IgnoresDynamic)
    (loaded : Except CompileError (Option (Document × String)) × List Notice) (allowDynamic : Bool) :
    finishLoaded compiler source filename (options.allowing allowDynamic) loaded =
      finishLoaded compiler source filename options loaded := by
  obtain ⟨answer, log⟩ := loaded
  cases answer with
  | error e => rfl
  | ok kept =>
    cases kept with
    | none => rfl
    | some kept => simp only [finishLoaded, finishCompile_allowing hmessages]

/-- A channel that makes no shape up. -/
def Diagnostics.ShapeFree (diagnostics : Diagnostics) : Prop :=
  ∀ filename message context, (diagnostics.reject filename message context).2.isShape = false

/-- What is loaded is not refused for a shape. -/
theorem finishCompile_shape (hchannel : compiler.diagnostics.ShapeFree)
    (h : (finishCompile compiler document text filename options).1 = .error e) : e.isShape = false := by
  cases hlegacy : options.legacy with
  | true =>
    rw [finishCompile, hlegacy] at h
    cases h
  | false =>
    rw [finishCompile_current compiler hlegacy, emitModule_run] at h
    cases hemit : emit document text options
        ⟨compiler.messages, compiler.diagnostics, payloadOf compiler document options⟩ with
    | error refusal =>
      rw [hemit] at h
      obtain ⟨leaf, -, rejected, -, herror⟩ := emit_refused hemit
      cases h
      rw [herror]
      exact hchannel _ _ _
    | ok emitted =>
      obtain ⟨generated, notices⟩ := emitted
      rw [hemit] at h
      cases hmap : generated.map with
      | none =>
        simp only [hmap] at h
        cases h
      | some structural =>
        simp only [hmap] at h
        obtain ⟨message, rfl⟩ := mergeSourceMaps_error (map_eq_error h)
        rfl

/-! ## Filtering -/

/-- The functions that the locale filter keeps have codes that stand for themselves. -/
def KeepsFunctionCodes (document : Document) (options : Options) : Prop :=
  applies options = true →
    (retain options.onlyLocales document).root.content.Every (fun _ => True)
      (Script.IsFunctionCode (Script.isTypedName document.filename))

/-- What is filtered is not refused for a shape when it is read again. -/
theorem filteredText_shape (hread : (format.read source filename).1 = .ok document)
    (hcodes : format = .plainModule → KeepsFunctionCodes document options)
    (htext : filteredText document format options = some text)
    (h : (format.read text document.filename).1 = .error e) : e.isShape = false := by
  cases hshape : e.isShape with
  | false => rfl
  | true =>
    obtain rfl : format = .plainModule := ResourceFormat.plainModule_of_shape h hshape
    have hsize : byteLength text.toList ≤ Script.sizeLimit :=
      Script.readResourceModule_size_of_shape h hshape
    obtain ⟨-, hroot⟩ := Script.root_of_readResourceModule (Prod.ext hread rfl)
    obtain ⟨root, hagain, -⟩ := readResourceModule_filteredText htext hsize hroot
      (hcodes rfl (applies_of_filteredText htext))
    rw [ResourceFormat.read, hagain] at h
    cases h

/-- Only the first reading of a resource is refused for a shape. -/
theorem shape_of_load {diagnostics : Diagnostics}
    (hcodes : format = .plainModule → ∀ document,
      (Script.readResourceModule source filename).1 = .ok document → KeepsFunctionCodes document options)
    (h : (Compile.logged (loadResource diagnostics source filename format options)).1 = .error e)
    (hshape : e.isShape = true) : (format.read source filename).1 = .error e := by
  unfold Compile.logged loadResource at h
  simp only [Compile.run_bind, Compile.run_say] at h
  cases hread : (format.read source filename).1 with
  | error fault =>
    rw [hread] at h
    cases fault with
    | unsupportedShape =>
      simp only at h
      split at h
      · cases h
      · cases h
        rfl
    | _ =>
      cases h
      rfl
  | ok document =>
    rw [hread] at h
    simp only [Compile.run_bind, refilter_run] at h
    cases htext : filteredText document format options with
    | none =>
      rw [htext] at h
      cases h
    | some text =>
      rw [htext] at h
      simp only at h
      cases hagain : (format.read text document.filename).1 with
      | ok filtered =>
        rw [hagain] at h
        cases h
      | error fault =>
        rw [hagain] at h
        cases h
        have hkept : format = .plainModule → KeepsFunctionCodes document options := by
          rintro rfl
          exact hcodes rfl document hread
        cases hshape.symm.trans (filteredText_shape hread hkept htext hagain)

/-! ## Compiling -/

/-- Only the first reading of a module is refused for a shape. -/
theorem shape_of_compile (hchannel : compiler.diagnostics.ShapeFree)
    (hcodes : ResourceFormat.ofFilename? filename = some .plainModule → ∀ document,
      (Script.readResourceModule source filename).1 = .ok document → KeepsFunctionCodes document options)
    (h : (Compile.logged (compiler.compile source filename options)).1 = .error e)
    (hshape : e.isShape = true) :
    ResourceFormat.ofFilename? filename = some .plainModule ∧
      (Script.readResourceModule source filename).1 = .error e := by
  cases hformat : ResourceFormat.ofFilename? filename with
  | none =>
    unfold Compile.logged Compiler.compile formatOf at h
    rw [hformat] at h
    cases h
    cases hshape
  | some format =>
    rw [compile_load compiler hformat] at h
    have hload := @shape_of_load source filename format options e compiler.diagnostics
    cases hloaded : Compile.logged (loadResource compiler.diagnostics source filename format options) with
    | mk answer log =>
    rw [hloaded] at h hload
    cases answer with
    | ok kept =>
      cases kept with
      | none => cases h
      | some kept => cases hshape.symm.trans (finishCompile_shape hchannel h)
    | error fault =>
      cases h
      have hread := hload (fun hmodule => hcodes (hformat.trans (congrArg some hmodule))) rfl hshape
      obtain rfl := ResourceFormat.plainModule_of_shape hread hshape
      exact ⟨rfl, hread⟩

end

/-- Letting modules pass changes the answer for a source just where its shape is refused. -/
structure Compiler.PassesShapes (compiler : Compiler) (source filename : String) (options : Options) :
    Prop where
  /-- A source whose shape is refused is its own code, with the empty map, and is not transformed. -/
  refused : ∀ e log,
    Compile.logged (compiler.compile source filename (options.allowing false)) = (.error e, log) →
      e.isShape = true →
      Compile.logged (compiler.compile source filename (options.allowing true)) =
        (.ok ⟨source, .empty⟩, log) ∧
      Compile.logged (compiler.transform source filename (options.allowing true)) = (.ok none, log)
  /-- Any other answer stays, and there is none to transform to where the code is the source. -/
  other : ∀ answer log,
    Compile.logged (compiler.compile source filename (options.allowing false)) = (answer, log) →
      (∀ e, answer = .error e → e.isShape = false) →
      Compile.logged (compiler.compile source filename (options.allowing true)) = (answer, log) ∧
      ((Compile.logged (compiler.transform source filename (options.allowing true))).1 = .ok none ↔
        ∃ result, answer = .ok result ∧ result.code = source)

/--
Letting modules pass changes the answer just where a shape is refused when the source is first read. So
nothing that is refused later is let through, and none of that is refused for a shape, if the channel
makes none up and the functions that a locale filter keeps have codes that stand for themselves.
-/
theorem allowDynamic_passes_shapes {compiler : Compiler} {source filename : String} {options : Options}
    (hmessages : compiler.messages.IgnoresDynamic) (hchannel : compiler.diagnostics.ShapeFree)
    (hcodes : ResourceFormat.ofFilename? filename = some .plainModule → ∀ document,
      (Script.readResourceModule source filename).1 = .ok document → KeepsFunctionCodes document options) :
    compiler.PassesShapes source filename options where
  refused e log hrun hshape := by
    obtain ⟨hformat, hread⟩ := @shape_of_compile compiler source filename (options.allowing false) e
      hchannel hcodes (congrArg (·.1) hrun) hshape
    have hload := fun allowDynamic =>
      loadResource_shape hread hshape compiler.diagnostics options allowDynamic
    rw [compile_load compiler hformat, hload] at hrun
    obtain ⟨-, rfl⟩ := Prod.mk.inj hrun
    have hpassed : Compile.logged (compiler.compile source filename (options.allowing true)) =
        (.ok ⟨source, .empty⟩, (Script.readResourceModule source filename).2.flatMap
          compiler.diagnostics.warn) := by
      rw [compile_load compiler hformat, hload]
      rfl
    refine ⟨hpassed, ?_⟩
    rw [transform_compile, hpassed]
    simp [Except.map, unlessUnchanged]
  other answer log hrun hother := by
    have hsame : Compile.logged (compiler.compile source filename (options.allowing true)) =
        Compile.logged (compiler.compile source filename (options.allowing false)) := by
      cases hformat : ResourceFormat.ofFilename? filename with
      | none =>
        simp only [Compile.logged, Compiler.compile, formatOf, hformat]
        rfl
      | some format =>
        have hread : ∀ e, (format.read source filename).1 = .error e → e.isShape = false := by
          intro e hread
          cases hshape : e.isShape with
          | false => rfl
          | true =>
            -- then the first reading would have been refused for its shape
            obtain rfl := ResourceFormat.plainModule_of_shape hread hshape
            rw [compile_load compiler hformat, loadResource_shape hread hshape] at hrun
            obtain ⟨hanswer, -⟩ := Prod.mk.inj hrun
            exact hshape.symm.trans (hother e hanswer.symm)
        simp only [compile_load compiler hformat, loadResource_allowing hread,
          finishLoaded_allowing hmessages]
    rw [hrun] at hsame
    refine ⟨hsame, ?_⟩
    rw [transform_compile, hsame]
    cases answer with
    | error e => simp [Except.map]
    | ok result => simp [Except.map, unlessUnchanged_eq_none]

/-- Without a locale filter that is so for all sources. -/
theorem allowDynamic_unfiltered (source filename : String) {options : Options}
    (h : applies options = false) : ({} : Compiler).PassesShapes source filename options :=
  allowDynamic_passes_shapes Message.compile_ignoresDynamic (fun _ _ _ => rfl)
    fun _ _ _ happlies => absurd happlies (Bool.eq_false_iff.1 h)

/--
Codes that stand for themselves are needed: without its parentheses the second function is read on from
the first, and what is left of it is not static.
-/
example :
    let source := "export default \x7b en: [x => a < b, ((c) => d > /re, x/g)] \x7d"
    let options : Options := { kind := .component, onlyLocales := ["en"], allowDynamic := true }
    (failure? (Compile.logged (({} : Compiler).compile source "b.ts" options)).1).any (·.isShape) ∧
      (Script.readResourceModule source "b.ts").1.toOption.isSome := by
  decide +kernel

end MessageCatalog
