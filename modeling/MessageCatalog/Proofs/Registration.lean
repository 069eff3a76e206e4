/-
Registrations carry their values. The JSON text of a value is quoted twice over: the quotes of a script
around the text, and the quotes of the text around its strings. The token that a script has for a
quoted text is one string, and the value is read back from it.
-/
import MessageCatalog.Proofs.Compile.Run
import MessageCatalog.Proofs.Emission.Print
import MessageCatalog.Proofs.Json.Compact
import MessageCatalog.Proofs.Script.Lexeme

namespace MessageCatalog.Registration

open MessageCatalog.Code MessageCatalog.Emission MessageCatalog.Script MessageCatalog.Text

/-! ## Characters -/

/-- What a character of a JSON text is in the string of the script: line separators are escapes there. -/
def shownChar (c : Char) : List Char :=
  match c with
  | '\u2028' => "\\u2028".toList
  | '\u2029' => "\\u2029".toList
  | c => [c]

theorem quoteChar_eq_self {c : Char} (hc : c ∉ ['\'', '\\', '\u2028', '\u2029']) : quoteChar c = [c] := by
  unfold quoteChar
  split
  case h_5 => rfl
  all_goals exact absurd (by decide) hc

theorem shownChar_eq_self {c : Char} (hc : c ∉ ['\u2028', '\u2029']) : shownChar c = [c] := by
  unfold shownChar
  split
  case h_3 => rfl
  all_goals exact absurd (by decide) hc

/-- What is written for a character spells what is shown of it. -/
theorem spelled_quoteChar {c : Char} (hc : c ≠ '\n') : Spelled '\'' (quoteChar c) (shownChar c) := by
  have hescape : Spelled '\'' ['\\', '\\'] ['\\'] := .single (.simple (by decide))
  have hsingle : Spelled '\'' "\\u0027".toList ['\''] := by
    have hunit : Spells '\'' ('\\' :: 'u' :: "0027".toList) (Char.ofNat (digitsValue 16 "0027".toList)) :=
      .unit rfl (by decide) (by decide) (by decide)
    exact .single hunit
  have hcode : ∀ code ∈ ["u2028", "u2029"], Spelled '\'' code.toList code.toList := by
    intro code hmem
    have hall : ["u2028", "u2029"].all fun code =>
        code.toList.all fun d => d ≠ '\'' ∧ d ≠ '\\' ∧ d ≠ '\n' := by decide
    exact spelled_raw (List.all_iff_forall_prop.1 (List.all_eq_true.1 hall code hmem))
  by_cases hspecial : c ∈ ['\'', '\\', '\u2028', '\u2029']
  · simp only [List.mem_cons, List.not_mem_nil, or_false] at hspecial
    rcases hspecial with rfl | rfl | rfl | rfl
    · exact hsingle
    · exact hescape
    · exact hescape.append (hcode "u2028" (by decide))
    · exact hescape.append (hcode "u2029" (by decide))
  · have hshown : c ∉ ['\u2028', '\u2029'] := fun hmem =>
      hspecial (List.mem_cons_of_mem _ (List.mem_cons_of_mem _ hmem))
    rw [quoteChar_eq_self hspecial, shownChar_eq_self hshown]
    simp only [List.mem_cons, List.not_mem_nil, or_false, not_or] at hspecial
    exact spelled_raw (by simpa using ⟨hspecial.1, hspecial.2.1, hc⟩)

theorem spelled_quote {cs : List Char} (h : '\n' ∉ cs) :
    Spelled '\'' (cs.flatMap quoteChar) (cs.flatMap shownChar) := by
  induction cs with
  | nil => exact .nil
  | cons c cs ih =>
    rw [List.mem_cons, not_or] at h
    rw [List.flatMap_cons, List.flatMap_cons]
    exact (spelled_quoteChar (Ne.symm h.1)).append (ih h.2)

/-- No quote of the script, no end of a line and no line separator is written for a character of a text. -/
theorem mem_quoteChar {b c : Char} (hc : ¬ c.toNat < 0x20) (h : b ∈ quoteChar c) :
    b ∉ ['\'', '\n', '\r', '\u2028', '\u2029'] := by
  by_cases hspecial : c ∈ ['\'', '\\', '\u2028', '\u2029']
  · have hall : ['\'', '\\', '\u2028', '\u2029'].all fun c =>
        (quoteChar c).all (· ∉ ['\'', '\n', '\r', '\u2028', '\u2029']) := by decide
    exact List.all_iff_forall_prop.1 (List.all_eq_true.1 hall c hspecial) b h
  · rw [quoteChar_eq_self hspecial, List.mem_singleton] at h
    subst h
    simp only [List.mem_cons, List.not_mem_nil, or_false, not_or] at hspecial ⊢
    refine ⟨hspecial.1, ?_, ?_, hspecial.2.2.1, hspecial.2.2.2⟩
    · rintro rfl
      exact hc (by decide)
    · rintro rfl
      exact hc (by decide)

/-! ## Quoted texts -/

/-- The text of a value has no control characters. -/
theorem compact_visible (v : Json) : ∀ c ∈ v.compact.toList, ¬ c.toNat < 0x20 := by
  intro c hc
  have hframe : ∀ c ∈ Json.frameChars, ¬ c.toNat < 0x20 := List.all_iff_forall_prop.1 (by decide)
  rw [Json.toList_compact] at hc
  rcases Json.mem_textWith v hc with hc | ⟨d, hd⟩
  · exact hframe c hc
  · exact Json.escapeChar_visible hd

theorem mem_quote_compact {v : Json} {c : Char} (hc : c ∈ (quote v.compact).toList) :
    c ∉ ['\'', '\n', '\r', '\u2028', '\u2029'] := by
  rw [quote, String.toList_ofList] at hc
  obtain ⟨d, hd, hmem⟩ := List.mem_flatMap.1 hc
  exact mem_quoteChar (compact_visible v d hd) hmem

/-- What is shown of a value: its text, with escapes for line separators. -/
def shown (v : Json) : String := String.ofList (v.compact.toList.flatMap shownChar)

/-- The text of a value between the quotes of a script. -/
def literal (v : Json) : String := "'" ++ quote v.compact ++ "'"

theorem isLexeme_literal (v : Json) (rest : List Char) :
    IsLexeme (literal v).toList (.string (shown v)) rest := by
  have hnewline : '\n' ∉ v.compact.toList := fun h => compact_visible v _ h (by decide)
  have hreturn : '\r' ∉ v.compact.toList.flatMap quoteChar := fun h =>
    mem_quote_compact (v := v) (by rwa [quote, String.toList_ofList]) (by decide)
  have htext : (literal v).toList = '\'' :: (v.compact.toList.flatMap quoteChar ++ ['\'']) := by
    simp [literal, quote]
  rw [htext]
  exact isLexeme_spelled (by decide) (spelled_quote hnewline) hreturn

theorem shownChar_frame : ∀ c ∈ Json.frameChars, shownChar c = [c] := List.all_iff_forall_prop.1 (by decide)

/-- Each character of a string is read back from what is shown of its escape. -/
theorem readsBack_shown : Json.ReadsBack fun c => (Json.escapeChar c).flatMap shownChar := by
  intro c fuel rest
  by_cases hseparator : c ∈ ['\u2028', '\u2029']
  · simp only [List.mem_cons, List.not_mem_nil, or_false] at hseparator
    rcases hseparator with rfl | rfl
    · show (Json.readString? fuel rest >>= _) = _
      cases Json.readString? fuel rest <;> rfl
    · show (Json.readString? fuel rest >>= _) = _
      cases Json.readString? fuel rest <;> rfl
  · have hsame : (Json.escapeChar c).flatMap shownChar = Json.escapeChar c := by
      refine Json.flatMap_eq_self shownChar fun b hb => shownChar_eq_self ?_
      rcases Json.mem_escapeChar hb with hprintable | ⟨rfl, -⟩
      · intro hmem
        have hall : ∀ d ∈ ['\u2028', '\u2029'], Json.isPrintable d = false :=
          List.all_iff_forall_prop.1 (by decide)
        exact Bool.eq_false_iff.1 (hall b hmem) hprintable
      · exact hseparator
    show Json.readString? (fuel + 1) ((Json.escapeChar c).flatMap shownChar ++ rest) = _
    rw [hsame]
    exact Json.readString?_escapeChar c fuel rest

/-- A value is read back from what is shown of it. -/
theorem read?_shown (v : Json) : Json.read? (shown v) = some v.asRead := by
  rw [shown, Json.toList_compact, Json.flatMap_textWith Json.escapeChar shownChar_frame]
  exact Json.read?_textWith readsBack_shown v

/-- The code of one string whose text is that of a value. -/
def Carries (code : String) (v : Json) : Prop :=
  ∃ text, (∀ rest, IsLexeme code.toList (.string text) rest) ∧ Json.read? text = some v

theorem carries_literal {v : Json} (h : v.Proper) : Carries (literal v) v := by
  refine ⟨shown v, isLexeme_literal v, ?_⟩
  rw [read?_shown, Json.asRead_eq_self h]

/-! ## Payloads -/

/-- The resource, under its locale when there is one. -/
def payloadValue (document : Document) (options : Options) : Json :=
  if options.locale = "" then document.materialize
  else .object [(options.locale, document.materialize)]

theorem payload_eq (document : Document) (options : Options) :
    payload document options = (payloadValue document options).compact := by
  unfold payload payloadValue
  split <;> rfl

theorem proper_materialize (document : Document) : document.materialize.Proper :=
  document.root.plain_materialize.proper

theorem proper_payloadValue (document : Document) (options : Options) :
    (payloadValue document options).Proper := by
  have hproper := proper_materialize document
  unfold payloadValue
  split
  · exact hproper
  · refine .object (List.nodup_singleton _) fun m hm => ?_
    rw [List.mem_singleton.1 hm]
    exact hproper

theorem emit_eq (document : Document) (options : Options) :
    emit document options = options.exportPrefix ++ " function (Component) \x7b\n" ++
      "  Component.options.__i18n = Component.options.__i18n || []\n" ++
      "  Component.options.__i18n.push(" ++ literal (payloadValue document options) ++ ")\n\x7d" := by
  have hopening : "  Component.options.__i18n.push('" = "  Component.options.__i18n.push(" ++ "'" := by decide
  have hclosing : "')\n\x7d" = "'" ++ ")\n\x7d" := by decide
  rw [emit, payload_eq, literal, hopening, hclosing]
  simp only [String.append_assoc]

/-! ## Bridges -/

/-- What stands behind the resource in bridge output, with the argument of the registration. -/
def bridgeEpilogue (code : String) : String :=
  Writer.lineBreak 1 ++ "\x7d)" ++
  Writer.lineBreak 1 ++ "_Component.__i18nBridge = _Component.__i18nBridge || []" ++
  Writer.lineBreak 1 ++ "_Component.__i18nBridge.push(" ++ code ++ ")" ++
  Writer.lineBreak 1 ++ "delete _Component._Ctor" ++ Writer.lineBreak 0 ++ "\x7d"

theorem epilogueText_bridge {options : Options} (hbridge : options.bridge = true)
    (hcomponent : options.isComponent = true) (document : Document) :
    epilogueText options (some (resourceJson document)) = bridgeEpilogue (literal document.materialize) := by
  have hopening : "_Component.__i18nBridge.push('" = "_Component.__i18nBridge.push(" ++ "'" := by decide
  have hclosing : "')" = "'" ++ ")" := by decide
  rw [epilogueText, if_pos hcomponent, bridgeText, if_pos hbridge, bridgeEpilogue, literal, resourceJson,
    hopening, hclosing]
  simp only [String.append_assoc]

section

variable {compiler : Compiler} {options : Options}

theorem payloadOf_default (hdefault : compiler.bridgePayload = none) (hbridge : options.bridge = true)
    (hcomponent : options.isComponent = true) (document : Document) :
    payloadOf compiler document options = some (resourceJson document) := by
  simp [payloadOf, hdefault, hbridge, hcomponent]

/-- Bridge output of a resource without a payload of its own. -/
theorem emit_bridge (hdefault : compiler.bridgePayload = none) (hbridge : options.bridge = true)
    (hcomponent : options.isComponent = true) (document : Document) (source : String) :
    (Emission.emit document source options
        ⟨compiler.messages, compiler.diagnostics,
          payloadOf compiler document options⟩).toOption.map (·.1.code) =
      (printNode compiler.messages.forgetful options (baseLevel options) [] document.root ()).map
        fun (printed, _) =>
          preludeText options ++ printed ++ bridgeEpilogue (literal document.materialize) := by
  rw [emit_printed]
  simp only [payloadOf_default hdefault hbridge hcomponent, epilogueText_bridge hbridge hcomponent]

/-- The code of a module is that of its emission. -/
theorem emitModule_code {document : Document} {source filename : String} {log log' : List Notice}
    {result : CompileResult}
    (h : (emitModule compiler document source filename options).run.run log = (.ok result, log')) :
    (Emission.emit document source options
        ⟨compiler.messages, compiler.diagnostics,
          payloadOf compiler document options⟩).toOption.map (·.1.code) =
      some result.code := by
  rw [emitModule_run] at h
  cases hemitted : Emission.emit document source options
      ⟨compiler.messages, compiler.diagnostics, payloadOf compiler document options⟩ with
  | error refusal =>
    rw [hemitted] at h
    cases h
  | ok emitted =>
    obtain ⟨generated, notices⟩ := emitted
    rw [hemitted] at h
    have hresult := congrArg Prod.fst h
    dsimp only at hresult
    split at hresult
    · obtain ⟨map, -, rfl⟩ := map_eq_ok hresult
      rfl
    · cases hresult
      rfl

end

/-! ## What registrations carry -/

/--
The quoted text of a value holds nothing that ends a string of a script, and between single quotes it is
one string, whose text is read as the value is read from its own text. So the argument of the older
registration is one string that carries the resource, under its locale when there is one, and the
argument of the bridge registration is one that carries the resource.
-/
theorem registrations_carry_values :
    (∀ v : Json,
      (∀ c ∈ (quote v.compact).toList, c ∉ ['\'', '\n', '\r', '\u2028', '\u2029']) ∧
      ∃ text w, (∀ rest, IsLexeme ("'" ++ quote v.compact ++ "'").toList (.string text) rest) ∧
        Json.read? text = some w ∧ Json.read? v.compact = some w ∧ (v.Proper → w = v)) ∧
    (∀ (document : Document) (options : Options), ∃ code,
      emit document options = options.exportPrefix ++ " function (Component) \x7b\n" ++
        "  Component.options.__i18n = Component.options.__i18n || []\n" ++
        "  Component.options.__i18n.push(" ++ code ++ ")\n\x7d" ∧
      Carries code (if options.locale = "" then document.materialize
        else .object [(options.locale, document.materialize)])) ∧
    ∀ (compiler : Compiler) (document : Document) (source : String) (options : Options),
      options.bridge = true → options.isComponent = true → compiler.bridgePayload = none → ∃ code,
      Carries code document.materialize ∧
      (Emission.emit document source options
          ⟨compiler.messages, compiler.diagnostics,
            payloadOf compiler document options⟩).toOption.map (·.1.code) =
        (printNode compiler.messages.forgetful options (baseLevel options) [] document.root ()).map
          (fun (printed, _) => preludeText options ++ printed ++ bridgeEpilogue code) ∧
      ∀ filename log log' result,
        (emitModule compiler document source filename options).run.run log = (.ok result, log') →
        ∃ printed, printNode compiler.messages.forgetful options (baseLevel options) [] document.root () =
            some (printed, ()) ∧
          result.code = preludeText options ++ printed ++ bridgeEpilogue code := by
  refine ⟨fun v => ⟨fun c hc => mem_quote_compact hc, ?_⟩, fun document options => ?_, ?_⟩
  · exact ⟨shown v, v.asRead, isLexeme_literal v, read?_shown v, Json.read?_compact v, Json.asRead_eq_self⟩
  · exact ⟨literal (payloadValue document options), emit_eq document options,
      carries_literal (proper_payloadValue document options)⟩
  · intro compiler document source options hbridge hcomponent hdefault
    have hemit := emit_bridge hdefault hbridge hcomponent document source
    refine ⟨literal document.materialize, carries_literal (proper_materialize document), hemit, ?_⟩
    intro filename log log' result hrun
    have hcode := hemit.symm.trans (emitModule_code hrun)
    obtain ⟨⟨printed, _⟩, hprinted, hresult⟩ := Option.map_eq_some_iff.1 hcode
    exact ⟨printed, hprinted, hresult.symm⟩

/-- Quotes, a backslash, a line break and a line separator in keys, in values and in the locale. -/
theorem registrations_carry_separators :
    let span : Text.Span := .origin
    let document : Document :=
      ⟨.mapping [(⟨"it's\n", span⟩, .scalar (.bare (.string "\\\"\u2028'") span))] span, "m.json"⟩
    let options : Options := { kind := .component, bridge := true, locale := "l'\u2029" }
    let value : Json := .object [("it's\n", .string "\\\"\u2028'")]
    (∃ text, (∀ rest, IsLexeme ("'" ++ quote value.compact ++ "'").toList (.string text) rest) ∧
      Json.read? text = some value) ∧
    (∃ code, Carries code (.object [("l'\u2029", value)]) ∧
      emit document options = "module.exports = function (Component) \x7b\n" ++
        "  Component.options.__i18n = Component.options.__i18n || []\n" ++
        "  Component.options.__i18n.push(" ++ code ++ ")\n\x7d") ∧
    ∃ code result front log, Carries code value ∧
      (emitModule {} document "" "m.json" options).run.run [] = (.ok result, log) ∧
      result.code = front ++ bridgeEpilogue code := by
  intro span document options value
  obtain ⟨hvalues, hlegacy, hbridge⟩ := registrations_carry_values
  have hproper : value.Proper := proper_materialize document
  obtain ⟨-, text, w, htoken, hread, -, hsame⟩ := hvalues value
  obtain ⟨code, hcode, hcarries⟩ := hlegacy document options
  obtain ⟨code', hcarries', -, hmodule⟩ := hbridge {} document "" options rfl rfl rfl
  have hrun : (((emitModule {} document "" "m.json" options).run.run []).1.toOption.map
      (·.code)).isSome = true := by decide +kernel
  refine ⟨⟨text, htoken, hread.trans (congrArg some (hsame hproper))⟩, ⟨code, hcarries, hcode⟩, ?_⟩
  obtain ⟨answer, log, hanswer⟩ : ∃ answer log,
      (emitModule {} document "" "m.json" options).run.run [] = (answer, log) := ⟨_, _, rfl⟩
  rw [hanswer] at hrun
  cases answer with
  | error e => cases hrun
  | ok result =>
    obtain ⟨printed, -, hresult⟩ := hmodule _ _ _ _ hanswer
    exact ⟨code', result, _, log, hcarries', hanswer, hresult⟩

end MessageCatalog.Registration
