/-
Compiling under another file name. Without a map the code does not show the name of the file, nor does
the code of an error, unless the channel tells it. The grammar of a module is chosen by the name that is
handed down and by nothing else, so an inline block is read by the grammar of its component's name,
whatever language it states.
-/
import MessageCatalog.Compile.Block
import MessageCatalog.Proofs.Compile.Run
import MessageCatalog.Proofs.Resource.Renamed

namespace MessageCatalog

open MessageCatalog.Emission

/-- A channel whose errors have codes that do not depend on the file. -/
def Diagnostics.NameFree (diagnostics : Diagnostics) : Prop :=
  ∀ filename name message context,
    (diagnostics.reject name message context).2.code =
      (diagnostics.reject filename message context).2.code

/-! ## Emission -/

/-- A module is emitted with the same code for another file. -/
theorem Emission.emit_rename {collaborators : Collaborators}
    (hchannel : collaborators.diagnostics.NameFree) (name : String) (document : Document)
    (source : String) (options : Options) :
    codeOrCause (·.code) (emit (document.rename name) source options collaborators) =
      codeOrCause (·.code) (emit document source options collaborators) := by
  have hchunks : List.Forall₂ (Chunk.Alike Eq)
      (moduleChunks options collaborators.bridgePayload document.root)
      (moduleChunks options collaborators.bridgePayload (document.rename name).root) :=
    List.forall₂_same.2 fun chunk _ => chunk.alike_self
  refine emit_alike hchunks ?_ source source
  rintro s _ rfl message literal path code
  exact hchannel document.filename name message _

/-! ## Loading -/

section

variable {diagnostics : Diagnostics} {format : ResourceFormat} {source name filename : String}
  {options : Options}

theorem filteredText_rename (document : Document) :
    LocaleFilter.filteredText (document.rename name) format options =
      LocaleFilter.filteredText document format options := by
  obtain ⟨root, filename⟩ := document
  unfold LocaleFilter.filteredText LocaleFilter.retain Document.rename
  cases root <;> rfl

/-- A document bears the name that its text was read under. -/
theorem ResourceFormat.filename_of_read {document : Document}
    (h : (format.read source filename).1 = .ok document) : document.filename = filename := by
  have hself := @format.read_rename source filename filename fun _ => rfl
  rw [h] at hself
  exact congrArg Document.filename (Except.ok.inj hself)

/-- A resource is loaded under another name as it is under its own. -/
theorem loadResource_rename
    (htyped : format = .plainModule → Script.isTypedName name = Script.isTypedName filename) :
    (Compile.logged (loadResource diagnostics source name format options)).1 =
      ((Compile.logged (loadResource diagnostics source filename format options)).1.mapError
        (·.rename name)).map (·.map fun (document, text) => (document.rename name, text)) := by
  unfold Compile.logged loadResource
  simp only [Compile.run_bind, Compile.run_say, format.read_rename source htyped]
  cases hread : (format.read source filename).1 with
  | error e =>
    cases e with
    | unsupportedShape =>
      simp only [renamed_error, CompileError.rename]
      split <;> rfl
    | _ => rfl
  | ok document =>
    have hfilename : document.filename = filename := ResourceFormat.filename_of_read hread
    simp only [renamed_ok, Compile.run_bind, refilter_run, filteredText_rename]
    cases LocaleFilter.filteredText document format options with
    | none => rfl
    | some text =>
      -- what is left is read again, under the name that the document bears
      have hagain := @format.read_rename text name document.filename (hfilename ▸ htyped)
      change (format.read text (document.rename name).filename).1 = _ at hagain
      simp only [hagain]
      cases (format.read text document.filename).1 <;> rfl

end

/-! ## Compiling -/

/-- What a compile hands over: a result, or the code of an error. -/
def Compile.outcome {α : Type} (c : Compile α) : Except String α :=
  (Compile.logged c).1.mapError (·.code)

section

variable {compiler : Compiler} {options : Options} (hmessages : compiler.messages = Message.compile)
  (hchannel : compiler.diagnostics.NameFree) (hmap : options.sourceMap = false)

include hmessages hchannel hmap

theorem finishCompile_rename (document : Document) (text name filename : String) :
    (finishCompile compiler (document.rename name) text name options).1.mapError (·.code) =
      (finishCompile compiler document text filename options).1.mapError (·.code) := by
  cases hlegacy : options.legacy with
  | true =>
    have hemit : Registration.emit (document.rename name) options =
        Registration.emit document options := rfl
    rw [finishCompile, finishCompile, hlegacy, if_pos rfl, if_pos rfl, hemit]
  | false =>
    have hpayload : payloadOf compiler (document.rename name) options =
        payloadOf compiler document options := rfl
    rw [finishCompile_verdict _ hmessages hmap hlegacy, finishCompile_verdict _ hmessages hmap hlegacy,
      hpayload, emit_rename hchannel]

/-- A text in a known format is compiled under another name as it is under its own. -/
theorem compileIn_rename {format : ResourceFormat} {name filename : String}
    (htyped : format = .plainModule → Script.isTypedName name = Script.isTypedName filename)
    (source : String) :
    (compileIn compiler source name format options).outcome =
      (compileIn compiler source filename format options).outcome := by
  have hloaded := @loadResource_rename compiler.diagnostics format source name filename options htyped
  unfold Compile.outcome
  rw [compileIn_load, compileIn_load]
  generalize Compile.logged (loadResource compiler.diagnostics source name format options) = other
    at hloaded ⊢
  generalize Compile.logged (loadResource compiler.diagnostics source filename format options) = loaded
    at hloaded ⊢
  obtain ⟨answer, log⟩ := loaded
  obtain ⟨_, said⟩ := other
  subst hloaded
  cases answer with
  | error e => exact congrArg Except.error (e.code_rename name)
  | ok kept =>
    cases kept with
    | none => rfl
    | some kept => exact finishCompile_rename hmessages hchannel hmap kept.1 kept.2 name filename

end

/-- A name of a module, in a typed script or not. -/
def moduleName (typed : Bool) : String := if typed then "x.ts" else "x.js"

theorem ofFilename?_moduleName (typed : Bool) :
    ResourceFormat.ofFilename? (moduleName typed) = some .plainModule := by
  cases typed <;> decide

theorem isTypedName_moduleName (typed : Bool) : Script.isTypedName (moduleName typed) = typed := by
  cases typed <;> decide

theorem lowerAscii_dot {text : String} (h : '.' ∈ text.toList) :
    '.' ∈ (ResourceFormat.lowerAscii text).toList := by
  unfold ResourceFormat.lowerAscii
  rw [String.toList_ofList]
  exact List.mem_map.2 ⟨'.', h, by decide⟩

/-- A language is one word. -/
theorem no_dot_of_ofLang? {lang : String} {format : ResourceFormat}
    (h : ResourceFormat.ofLang? lang = some format) : '.' ∉ lang.toList := by
  intro hdot
  have hlower := lowerAscii_dot hdot
  have hwords : ∀ words ∈ [["json", "json5"], ["yaml", "yml"], ["js", "mjs", "cjs", "ts", "mts", "cts"]],
      ∀ word ∈ words, '.' ∉ word.toList := by decide
  unfold ResourceFormat.ofLang? at h
  dsimp only at h
  split at h
  · rename_i hword
    exact hwords ["json", "json5"] (by simp) _ (List.contains_iff_mem.1 hword) hlower
  · split at h
    · rename_i hword
      exact hwords ["yaml", "yml"] (by simp) _ (List.contains_iff_mem.1 hword) hlower
    · split at h
      · rename_i hword
        exact hwords ["js", "mjs", "cjs", "ts", "mts", "cts"] (by simp) _
          (List.contains_iff_mem.1 hword) hlower
      · cases h

/-- A name with a language as its extension is of the format of the language. -/
theorem ofFilename?_extension {lang : String} {format : ResourceFormat}
    (h : ResourceFormat.ofLang? lang = some format) :
    ResourceFormat.ofFilename? ("x." ++ lang) = some format := by
  have hword : ∀ c ∈ lang.toList.reverse, (decide (c ≠ '.')) = true := by
    intro c hc
    refine decide_eq_true fun hdot => no_dot_of_ofLang? h ?_
    rw [← hdot]
    exact List.mem_reverse.1 hc
  unfold ResourceFormat.ofFilename?
  simp only [String.toList_append, List.reverse_append, List.takeWhile_append_of_pos hword]
  simpa using h

section

variable {compiler : Compiler} {options : Options} (hmessages : compiler.messages = Message.compile)
  (hchannel : compiler.diagnostics.NameFree) (hmap : options.sourceMap = false)

include hmessages hchannel hmap

/-- All of a module's name that matters is whether it is one of a typed script, in lower case. -/
theorem compile_moduleName {filename : String}
    (hformat : ResourceFormat.ofFilename? filename = some .plainModule) (source : String) :
    (compiler.compile source filename options).outcome =
      (compiler.compile source (moduleName (Script.isTypedName filename)) options).outcome := by
  rw [compile_eq_compileIn compiler hformat,
    compile_eq_compileIn compiler (ofFilename?_moduleName _)]
  exact compileIn_rename hmessages hchannel hmap (fun _ => (isTypedName_moduleName _).symm) source

/--
A module that stands in a component is read by the grammar of the component's name: the language that
the block states makes it a module, and has no part in how it is read.
-/
theorem compileBlock_inline {block : CustomBlock} (hsrc : block.src = none)
    (hformat : block.format = .plainModule) (component : String) (files : FileTree) (reason : String) :
    (compiler.compileBlock block component files reason options).outcome =
      (compiler.compile block.content (moduleName (Script.isTypedName component))
        (block.options options)).outcome := by
  have hblock : compiler.compileBlock block component files reason options =
      compileIn compiler block.content component .plainModule (block.options options) := by
    unfold Compiler.compileBlock CustomBlock.load
    rw [hsrc, hformat]
    rfl
  rw [hblock, compile_eq_compileIn compiler (ofFilename?_moduleName _)]
  exact @compileIn_rename _ (block.options options) hmessages hchannel hmap _ _ _
    (fun _ => (isTypedName_moduleName _).symm) block.content

/-- A block that states a typed language is refused where a file of that language compiles. -/
example :
    let block : CustomBlock := { content := "export default \x7b a: 'b' as const \x7d", lang := some "ts" }
    failure? (({} : Compiler).compileBlock block "App.vue" ⟨[]⟩ "" {}).outcome = some "E-PARSE" ∧
      failure? (({} : Compiler).compile block.content "x.ts" (block.options {})).outcome = none := by
  decide +kernel

/--
So the language of a block chooses the grammar as the extension of a file would, if the component's name
and that extension are both typed, or neither is.
-/
theorem compileBlock_language {block : CustomBlock} {lang : String} (hsrc : block.src = none)
    (hlang : block.lang = some lang) (hmodule : ResourceFormat.ofLang? lang = some .plainModule)
    {component : String} (htyped : Script.isTypedName component = Script.isTypedName ("x." ++ lang))
    (files : FileTree) (reason : String) :
    (compiler.compileBlock block component files reason options).outcome =
      (compiler.compile block.content ("x." ++ lang) (block.options options)).outcome := by
  have hformat : block.format = .plainModule := by
    unfold CustomBlock.format
    rw [hlang]
    simp [hmodule]
  have hmapped : (block.options options).sourceMap = false := hmap
  rw [compileBlock_inline hmessages hchannel hmap hsrc hformat, htyped,
    compile_moduleName hmessages hchannel hmapped (ofFilename?_extension hmodule)]

end

end MessageCatalog
