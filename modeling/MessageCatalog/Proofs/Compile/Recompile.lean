/-
Compiling a resource again from its value. The text that the value of a data text is written as is read
into the same resource, and it compiles to the same code, in every form of output.
-/
import MessageCatalog.Proofs.Compile.Run
import MessageCatalog.Proofs.Emission.Content
import MessageCatalog.Proofs.Resource.Lossless
import MessageCatalog.Proofs.Script.DataText

namespace MessageCatalog

open MessageCatalog.Emission MessageCatalog.Text

/-! ## Equal contents -/

section

variable {document other : Document} (h : document.root.content = other.root.content)

include h

theorem materialize_congr : document.materialize = other.materialize := by
  unfold Document.materialize
  rw [← materialize_content, h, materialize_content]

theorem payloadOf_congr (compiler : Compiler) (options : Options) :
    payloadOf compiler document options = payloadOf compiler other options := by
  unfold payloadOf Registration.resourceJson
  rw [materialize_congr h]

theorem filteredText_congr (options : Options) :
    LocaleFilter.filteredText document .json options =
      LocaleFilter.filteredText other .json options := by
  unfold LocaleFilter.filteredText
  rw [materialize_congr h]

/-- Without a map, documents with the same content are finished with the same code. -/
theorem finishCompile_congr {ε : Type} {cause : CompileError → ε} {compiler : Compiler}
    (hfilename : other.filename = document.filename)
    (hmessages : compiler.messages = Message.compile)
    (hchannel : compiler.diagnostics.PlaceFree cause) {options : Options}
    (hmap : options.sourceMap = false) (text text' filename : String) :
    (finishCompile compiler other text' filename options).1.mapError cause =
      (finishCompile compiler document text filename options).1.mapError cause := by
  cases hlegacy : options.legacy with
  | true =>
    unfold finishCompile Registration.emit Registration.payload Registration.resourceJson
    rw [hlegacy, materialize_congr h]
    rfl
  | false =>
    rw [finishCompile_verdict cause hmessages hmap hlegacy,
      finishCompile_verdict cause hmessages hmap hlegacy, ← payloadOf_congr h,
      emit_congr h hfilename hchannel text text']

end

/-! ## Data texts -/

/--
Without a map, data texts that hold the same compile to the same code, or are refused for the same
cause, in every form of output and whatever locales are asked for.
-/
theorem compile_congr {ε : Type} {cause : CompileError → ε} {compiler : Compiler} {options : Options}
    {source text filename : String} {document other : Document}
    (hformat : ResourceFormat.ofFilename? filename = some .json)
    (hread : Script.readData source filename = .ok document)
    (hother : Script.readData text filename = .ok other)
    (h : document.root.content = other.root.content)
    (hmessages : compiler.messages = Message.compile)
    (hchannel : compiler.diagnostics.PlaceFree cause) (hmap : options.sourceMap = false) :
    (Compile.logged (compiler.compile text filename options)).1.mapError cause =
      (Compile.logged (compiler.compile source filename options)).1.mapError cause := by
  have hfilename : other.filename = document.filename :=
    (Script.readData_isData hother).2.trans (Script.readData_isData hread).2.symm
  rw [compile_data compiler options hformat hother, compile_data compiler options hformat hread,
    ← filteredText_congr h]
  cases LocaleFilter.filteredText document .json options with
  | none => exact finishCompile_congr h hfilename hmessages hchannel hmap source text filename
  | some filtered => rfl

/-- A lossless resource is read back from the text that its value is written as. -/
theorem readData_written {document : Document} (hlossless : document.root.isLossless = true)
    (filename : String)
    (hsize : byteLength (ResourceFormat.json.write document.materialize).toList ≤ Script.sizeLimit) :
    ∃ root, Script.readData (ResourceFormat.json.write document.materialize) filename =
      .ok ⟨root, filename⟩ ∧ root.content = document.root.content := by
  obtain ⟨root, hagain, hvalue⟩ :=
    @Script.readData_pretty document.materialize filename document.root.plain_materialize hsize
  exact ⟨root, hagain, hvalue.trans (Node.content_materialize hlossless)⟩

/--
A data text without repeated keys, whose numbers are finite, may be replaced by the text that its value
is written as: that is read into the same resource, except for its places and for the sign of a zero,
and without a map it compiles where the source does, and to the same code. The text must not be too
long to be read.
-/
theorem recompile_written {source filename : String} {document : Document}
    (hread : Script.readData source filename = .ok document)
    (hlossless : document.root.isLossless = true)
    (hsize : byteLength (ResourceFormat.json.write document.materialize).toList ≤ Script.sizeLimit) :
    let text := ResourceFormat.json.write document.materialize
    ∃ root, Script.readData text filename = .ok ⟨root, filename⟩ ∧
      root.content = document.root.content ∧
      ∀ (compiler : Compiler) (options : Options), compiler.messages = Message.compile →
        ResourceFormat.ofFilename? filename = some .json → options.sourceMap = false →
        (Compile.logged (compiler.compile text filename options)).1.toOption =
          (Compile.logged (compiler.compile source filename options)).1.toOption := by
  intro text
  obtain ⟨root, hagain, hcontent⟩ := readData_written hlossless filename hsize
  refine ⟨root, hagain, hcontent, fun compiler options hmessages hformat hmap => ?_⟩
  have hsame := congrArg Except.toOption (@compile_congr _ (fun _ => ()) _ _ _ _ _ _ _ hformat hread hagain
    hcontent.symm hmessages (fun _ _ _ _ _ _ _ => rfl) hmap)
  rwa [toOption_mapError, toOption_mapError] at hsame

/-- A block with comments, bare keys, an escape, other numerals and a zero with a sign. -/
theorem recompile_written_relaxed :
    let source := "// both\n\x7b en: \x7b '\\u0061': \"\x7bn\x7d!\", zero: -0, " ++
      "list: [0x10, 1e3, null,] \x7d, de: \x7b\x7d \x7d"
    let options : Options := { kind := .component, onlyLocales := ["en"] }
    let compile := fun text =>
      (Compile.logged (({} : Compiler).compile text "block.json5" options)).1
    ∃ document root result, Script.readData source "block.json5" = .ok document ∧
      let text := ResourceFormat.json.write document.materialize
      Script.readData text "block.json5" = .ok ⟨root, "block.json5"⟩ ∧
        root.content = document.root.content ∧ compile source = .ok result ∧
        compile text = .ok result := by
  intro source options compile
  have hfacts : (Script.readData source "block.json5").toOption.map (fun document =>
      (document.root.isLossless, decide (byteLength
        (ResourceFormat.json.write document.materialize).toList ≤ Script.sizeLimit))) =
          some (true, true) := by
    decide +kernel
  have hcompiles : (compile source).toOption.isSome := by decide +kernel
  obtain ⟨document, hread, hfacts⟩ := Option.map_eq_some_iff.1 hfacts
  obtain ⟨hlossless, hsize⟩ := Prod.mk.inj hfacts
  have hread := ok_of_toOption hread
  obtain ⟨result, hresult⟩ := Option.isSome_iff_exists.1 hcompiles
  obtain ⟨root, hagain, hcontent, hsame⟩ :=
    recompile_written hread hlossless (of_decide_eq_true hsize)
  have hsame := hsame {} options rfl (by decide +kernel) rfl
  exact ⟨document, root, result, hread, hagain, hcontent, ok_of_toOption hresult,
    ok_of_toOption (hsame.trans hresult)⟩

end MessageCatalog
