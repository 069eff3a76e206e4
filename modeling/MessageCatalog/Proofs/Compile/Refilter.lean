/-
The locale filter of a component block: what is written and read again is just what was asked for. A
data resource keeps its value; a module keeps its functions too, if their codes stand for themselves.
A filter that is asked for all of a data resource changes nothing, unless a number is not finite.
-/
import MessageCatalog.Proofs.Compile.Recompile
import MessageCatalog.Proofs.Resource.Data
import MessageCatalog.Proofs.Script.DataText
import MessageCatalog.Proofs.Script.Leaf
import MessageCatalog.Proofs.Script.WriteBack

namespace MessageCatalog

open MessageCatalog.Text

/-! ## Filtered resources -/

namespace LocaleFilter

variable {document : Document} {options : Options} {text : String}

theorem applies_of_filteredText {format : ResourceFormat}
    (h : filteredText document format options = some text) :
    applies options = true := by
  unfold filteredText at h
  split at h
  · assumption
  · cases h

theorem filteredText_json (h : filteredText document .json options = some text) :
    text = (filterValue options.onlyLocales document.materialize).pretty 0 := by
  have happlies := applies_of_filteredText h
  simp only [filteredText, happlies, if_true] at h
  exact (Option.some.inj h).symm

theorem filteredText_module (h : filteredText document .plainModule options = some text) :
    text = Script.writeModule (retain options.onlyLocales document) := by
  have happlies := applies_of_filteredText h
  simp only [filteredText, happlies, if_true] at h
  exact (Option.some.inj h).symm

theorem onlyLocales_ne_nil (h : applies options = true) : options.onlyLocales ≠ [] := by
  intro hnil
  simp [applies, hnil] at h

/-- The keys that stand at the top of a document. -/
def topKeys (document : Document) : List String :=
  match document.root with
  | .mapping pairs _ => pairs.map (·.1.text)
  | _ => []

theorem retain_all {locales : List String} (h : topKeys document ⊆ locales) :
    retain locales document = document := by
  obtain ⟨root, filename⟩ := document
  cases root with
  | mapping pairs span =>
    have hkept : ∀ pair ∈ pairs, locales.contains pair.1.text = true := fun pair hpair =>
      List.contains_iff_mem.2 (h (List.mem_map_of_mem hpair))
    simp only [retain, List.filter_eq_self.2 hkept]
  | _ => rfl

/-- A filter that is asked for all keys writes the value of the resource. -/
theorem filteredText_all (htext : filteredText document .json options = some text)
    (hall : topKeys document ⊆ options.onlyLocales) :
    text = ResourceFormat.json.write document.materialize := by
  have hsome := onlyLocales_ne_nil (applies_of_filteredText htext)
  rw [filteredText_json htext, ← materialize_retain hsome, retain_all hall]
  rfl

end LocaleFilter

section

open LocaleFilter

variable {document : Document} {options : Options} {text : String} (diagnostics : Diagnostics)

theorem refilter_eq {format : ResourceFormat} {filtered : Document}
    (htext : filteredText document format options = some text)
    (hread : format.read text document.filename = (.ok filtered, [])) :
    Compile.logged (refilter document format options diagnostics) = (.ok (some (filtered, text)), []) := by
  simp only [refilter, htext, hread]
  rfl

theorem readData_filteredText (htext : filteredText document .json options = some text)
    (hsize : byteLength text.toList ≤ Script.sizeLimit) :
    ∃ root, Script.readData text document.filename = .ok ⟨root, document.filename⟩ ∧
      root.content = (filterValue options.onlyLocales document.materialize).content := by
  have hplain : (filterValue options.onlyLocales document.materialize).Plain :=
    plain_filterValue options.onlyLocales document.root.plain_materialize
  rw [filteredText_json htext] at hsize
  obtain ⟨root, hread, hcontent⟩ := Script.readData_pretty hplain hsize
  rw [← filteredText_json htext] at hread
  exact ⟨root, hread, hcontent⟩

/-- A data resource that is filtered is read as the value that was asked for. -/
theorem refilter_data (htext : filteredText document .json options = some text)
    (hsize : byteLength text.toList ≤ Script.sizeLimit) :
    ∃ root, Compile.logged (refilter document .json options diagnostics) =
        (.ok (some (⟨root, document.filename⟩, text)), []) ∧
      root.content = (filterValue options.onlyLocales document.materialize).content ∧
      root.materialize = filterValue options.onlyLocales document.materialize := by
  have hplain : (filterValue options.onlyLocales document.materialize).Plain :=
    plain_filterValue options.onlyLocales document.root.plain_materialize
  obtain ⟨root, hread, hcontent⟩ := readData_filteredText htext hsize
  refine ⟨root, refilter_eq diagnostics htext (congrArg (·, []) hread), hcontent, ?_⟩
  rw [← materialize_content, hcontent, Json.materialize_content hplain]

theorem readResourceModule_filteredText (htext : filteredText document .plainModule options = some text)
    (hsize : byteLength text.toList ≤ Script.sizeLimit)
    (hroot : ∃ pairs span, document.root = .mapping pairs span)
    (hcodes : (retain options.onlyLocales document).root.content.Every (fun _ => True)
      (Script.IsFunctionCode (Script.isTypedName document.filename))) :
    ∃ root, Script.readResourceModule text document.filename = (.ok ⟨root, document.filename⟩, []) ∧
      root.content = (retain options.onlyLocales document).root.content := by
  have hmapping : ∃ pairs, (retain options.onlyLocales document).root.content = .mapping pairs := by
    obtain ⟨pairs, span, hroot⟩ := hroot
    rw [retain, hroot]
    exact ⟨_, rfl⟩
  rw [filteredText_module htext] at hsize ⊢
  exact Script.readResourceModule_writeModule hmapping hcodes hsize

/-- A module that is filtered is read as the pairs that were asked for. -/
theorem refilter_module (htext : filteredText document .plainModule options = some text)
    (hsize : byteLength text.toList ≤ Script.sizeLimit)
    (hroot : ∃ pairs span, document.root = .mapping pairs span)
    (hcodes : (retain options.onlyLocales document).root.content.Every (fun _ => True)
      (Script.IsFunctionCode (Script.isTypedName document.filename))) :
    ∃ root, Compile.logged (refilter document .plainModule options diagnostics) =
        (.ok (some (⟨root, document.filename⟩, text)), []) ∧
      root.content = (retain options.onlyLocales document).root.content ∧
      root.materialize = filterValue options.onlyLocales document.materialize := by
  obtain ⟨root, hread, hcontent⟩ := readResourceModule_filteredText htext hsize hroot hcodes
  refine ⟨root, refilter_eq diagnostics htext hread, hcontent, ?_⟩
  rw [← materialize_retain (onlyLocales_ne_nil (applies_of_filteredText htext)), Document.materialize,
    ← materialize_content, hcontent, materialize_content]

/--
The locale filter keeps just the data that was asked for, in its order: a data resource as a value, a
module as a tree. Repeated keys are no exception, and the second reading has nothing to warn about.
-/
theorem refilter_keeps_requested {source filename : String} {format : ResourceFormat} {warnings : List String}
    (hread : format.read source filename = (.ok document, warnings)) (hformat : format ≠ .yaml)
    (htext : filteredText document format options = some text)
    (hsize : byteLength text.toList ≤ Script.sizeLimit)
    (hcodes : format = .plainModule → (retain options.onlyLocales document).root.content.Every (fun _ => True)
      (Script.IsFunctionCode (Script.isTypedName filename))) :
    ∃ filtered, Compile.logged (refilter document format options diagnostics) =
        (.ok (some (filtered, text)), []) ∧
      filtered.materialize = filterValue options.onlyLocales document.materialize ∧
      (format = .plainModule →
        filtered.root.content = (retain options.onlyLocales document).root.content) := by
  cases format with
  | yaml => exact absurd rfl hformat
  | json =>
    obtain ⟨root, hlogged, -, hvalue⟩ := refilter_data diagnostics htext hsize
    exact ⟨_, hlogged, hvalue, nofun⟩
  | plainModule =>
    obtain ⟨hfilename, hroot⟩ := Script.root_of_readResourceModule hread
    obtain ⟨root, hlogged, hcontent, hvalue⟩ :=
      refilter_module diagnostics htext hsize hroot (hfilename ▸ hcodes rfl)
    exact ⟨_, hlogged, hvalue, fun _ => hcontent⟩

/--
A data text that is filtered compiles just as the text that the filter writes does without a filter:
every place that is reported, and every place that a map leads from, is one of that text.
-/
theorem compile_filtered {compiler : Compiler} {source filename : String}
    (hmessages : compiler.messages = Message.compile)
    (hformat : ResourceFormat.ofFilename? filename = some .json)
    (hread : Script.readData source filename = .ok document)
    (htext : filteredText document .json options = some text)
    (hsize : byteLength text.toList ≤ Script.sizeLimit) :
    Compile.logged (compiler.compile source filename options) =
      Compile.logged (compiler.compile text filename (options.requesting [])) := by
  have hfilename : document.filename = filename := (Script.readData_isData hread).2
  obtain ⟨root, hfiltered, -⟩ := readData_filteredText htext hsize
  rw [hfilename] at hfiltered
  -- nothing is asked of the second text, so it is compiled as it is read
  have hunfiltered : applies (options.requesting []) = false := by simp [applies, Options.requesting]
  rw [compile_data compiler options hformat hread, htext,
    compile_run_unfiltered compiler hformat hfiltered hunfiltered]
  simp only [hfiltered]
  exact (finishCompile_requesting hmessages _ _ _ _ _).symm

/--
A filter that is asked for all that a data text holds changes nothing: without a map the text compiles
as it does without a filter, to the same code or to an error of the same cause, if it repeats no key and
its numbers are finite. Its value must not be too long to be read.
-/
theorem compile_filtered_all {ε : Type} {cause : CompileError → ε} {compiler : Compiler}
    {source filename : String} (hmessages : compiler.messages = Message.compile)
    (hchannel : compiler.diagnostics.PlaceFree cause)
    (hformat : ResourceFormat.ofFilename? filename = some .json)
    (hread : Script.readData source filename = .ok document)
    (hlossless : document.root.isLossless = true) (hmap : options.sourceMap = false)
    (hall : topKeys document ⊆ options.onlyLocales)
    (hsize : byteLength (ResourceFormat.json.write document.materialize).toList ≤ Script.sizeLimit) :
    (Compile.logged (compiler.compile source filename options)).1.mapError cause =
      (Compile.logged (compiler.compile source filename (options.requesting []))).1.mapError cause := by
  cases htext : filteredText document .json options with
  | none =>
    have hunfiltered : applies (options.requesting []) = false := by simp [applies, Options.requesting]
    rw [compile_data compiler options hformat hread, htext,
      compile_run_unfiltered compiler hformat hread hunfiltered, finishCompile_requesting hmessages]
  | some text =>
    obtain rfl := filteredText_all htext hall
    obtain ⟨root, hagain, hcontent⟩ := readData_written hlossless filename hsize
    have hunmapped : (options.requesting []).sourceMap = false := hmap
    rw [compile_filtered hmessages hformat hread htext hsize]
    exact compile_congr hformat hread hagain hcontent.symm hmessages hchannel hunmapped

/-- A number that has no JSON form does not come through the filter. -/
example :
    let compile := fun locales => (Compile.logged (({} : Compiler).compile "\x7ben: NaN\x7d" "x.json"
      { kind := .component, onlyLocales := locales })).1.toOption
    compile ["en"] ≠ compile [] := by
  decide +kernel

end

end MessageCatalog
