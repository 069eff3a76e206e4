/-
Messages that are deferred stand in a module as the strings they are, so an emission prints what the
module writer writes: the same text, two levels further in when the resource is registered on a
component. Only line breaks of the layout are moved, since no key, string or number holds one.
-/
import MessageCatalog.Proofs.Emission.Print
import MessageCatalog.Proofs.Message.Places
import MessageCatalog.Proofs.Script.WriteBack

namespace MessageCatalog

open MessageCatalog.Code MessageCatalog.Script

/-! ## Moving in -/

/-- A text with blanks put behind each of its line breaks. -/
def Code.movedIn (blanks : Nat) (cs : List Char) : List Char :=
  cs.flatMap fun c => if c = '\n' then '\n' :: List.replicate blanks ' ' else [c]

namespace Code

@[simp] theorem movedIn_nil (blanks : Nat) : movedIn blanks [] = [] := rfl

@[simp] theorem movedIn_append (blanks : Nat) (a b : List Char) :
    movedIn blanks (a ++ b) = movedIn blanks a ++ movedIn blanks b := List.flatMap_append

theorem movedIn_cons {c : Char} (h : c ≠ '\n') (blanks : Nat) (cs : List Char) :
    movedIn blanks (c :: cs) = c :: movedIn blanks cs := by
  rw [movedIn, List.flatMap_cons, if_neg h]
  rfl

/-- A text on one line stays as it is. -/
theorem movedIn_of_not_mem (blanks : Nat) {cs : List Char} (h : '\n' ∉ cs) :
    movedIn blanks cs = cs := by
  induction cs with
  | nil => rfl
  | cons c cs ih =>
    obtain ⟨hc, hcs⟩ := not_or.1 (mt List.mem_cons.2 h)
    rw [movedIn_cons (Ne.symm hc), ih hcs]

theorem movedIn_lineStart (levels level : Nat) :
    movedIn (2 * levels) (lineStart level) = lineStart (level + levels) := by
  have hblanks : '\n' ∉ List.replicate (2 * level) ' ' := by
    intro h
    cases List.eq_of_mem_replicate h
  rw [lineStart, movedIn, List.flatMap_cons, if_pos rfl]
  show '\n' :: (List.replicate (2 * levels) ' ' ++ movedIn _ (List.replicate (2 * level) ' ')) = _
  rw [movedIn_of_not_mem _ hblanks, List.replicate_append_replicate, lineStart, Nat.mul_add,
    Nat.add_comm (2 * levels)]

end Code

namespace Script

/-! ## Texts on one line -/

theorem IsNumeral.newline_not_mem {text : List Char} {d : Double} (h : IsNumeral text d) :
    '\n' ∉ text := by
  obtain ⟨n, hproper, rfl, -⟩ := h
  exact fun hmem => absurd (n.mem_numeralChars hproper hmem) (by decide)

theorem newline_not_mem_numberChars (d : Double) : '\n' ∉ numberChars d := by
  cases d with
  | nan => decide
  | infinite negative => cases negative <;> decide
  | finite negative x =>
    have hplain := (numberText_numeral x).newline_not_mem
    simp only [numberText, Bool.false_eq_true, false_and, if_false] at hplain
    simp only [numberChars, numberText]
    split
    · rw [String.toList_append]
      exact List.not_mem_cons_of_ne_of_not_mem (by decide) hplain
    · exact hplain

theorem newline_not_mem_scalarText (value : ScalarValue) : '\n' ∉ scalarText numberChars value := by
  cases value with
  | string s => exact Json.newline_not_mem_quoted s
  | number d => exact newline_not_mem_numberChars d
  | bool b => cases b <;> decide
  | null => decide

/-! ## Levels -/

section

variable (levels : Nat)

mutual

/-- A content without functions is written at a deeper level as its text moved in. -/
theorem contentText_movedIn : ∀ (c : Content) (level : Nat), c.codes = [] →
    contentText numberChars (level + levels) c = movedIn (2 * levels) (contentText numberChars level c)
  | .mapping [], _, _ => rfl
  | .mapping (pair :: rest), level, h => by
    have hpairs := pairTexts_movedIn (pair :: rest) (level + 1) h
    simp only [contentText, movedIn_cons (by decide : '\x7b' ≠ '\n'), movedIn_append, movedIn_lineStart,
      movedIn_cons (by decide : '\x7d' ≠ '\n'), movedIn_nil, hpairs, Nat.add_right_comm level levels 1]
  | .sequence [], _, _ => rfl
  | .sequence (item :: rest), level, h => by
    have hitems := itemTexts_movedIn (item :: rest) (level + 1) h
    simp only [contentText, movedIn_cons (by decide : '[' ≠ '\n'), movedIn_append, movedIn_lineStart,
      movedIn_cons (by decide : ']' ≠ '\n'), movedIn_nil, hitems, Nat.add_right_comm level levels 1]
  | .scalar value _, _, _ => (movedIn_of_not_mem _ (newline_not_mem_scalarText value)).symm
  | .verbatim code, _, h => by cases h

theorem pairTexts_movedIn : ∀ (pairs : List (String × Content)) (level : Nat), pairCodes pairs = [] →
    pairTexts numberChars (level + levels) pairs =
      movedIn (2 * levels) (pairTexts numberChars level pairs)
  | [], _, _ => rfl
  | (key, value) :: rest, level, h => by
    obtain ⟨hvalue, hrest⟩ := List.append_eq_nil_iff.1 h
    simp only [pairTexts, movedIn_append, movedIn_of_not_mem _ (Json.newline_not_mem_quoted key),
      movedIn_cons (by decide : ':' ≠ '\n'), movedIn_cons (by decide : ' ' ≠ '\n'),
      contentText_movedIn value level hvalue, morePairTexts_movedIn rest level hrest]

theorem morePairTexts_movedIn : ∀ (pairs : List (String × Content)) (level : Nat),
    pairCodes pairs = [] → morePairTexts numberChars (level + levels) pairs =
      movedIn (2 * levels) (morePairTexts numberChars level pairs)
  | [], _, _ => rfl
  | (key, value) :: rest, level, h => by
    obtain ⟨hvalue, hrest⟩ := List.append_eq_nil_iff.1 h
    simp only [morePairTexts, movedIn_append, movedIn_cons (by decide : ',' ≠ '\n'), movedIn_lineStart,
      movedIn_of_not_mem _ (Json.newline_not_mem_quoted key), movedIn_cons (by decide : ':' ≠ '\n'),
      movedIn_cons (by decide : ' ' ≠ '\n'), contentText_movedIn value level hvalue,
      morePairTexts_movedIn rest level hrest]

theorem itemTexts_movedIn : ∀ (items : List Content) (level : Nat), itemCodes items = [] →
    itemTexts numberChars (level + levels) items =
      movedIn (2 * levels) (itemTexts numberChars level items)
  | [], _, _ => rfl
  | item :: rest, level, h => by
    obtain ⟨hitem, hrest⟩ := List.append_eq_nil_iff.1 h
    simp only [itemTexts, movedIn_append, contentText_movedIn item level hitem,
      moreItemTexts_movedIn rest level hrest]

theorem moreItemTexts_movedIn : ∀ (items : List Content) (level : Nat), itemCodes items = [] →
    moreItemTexts numberChars (level + levels) items =
      movedIn (2 * levels) (moreItemTexts numberChars level items)
  | [], _, _ => rfl
  | item :: rest, level, h => by
    obtain ⟨hitem, hrest⟩ := List.append_eq_nil_iff.1 h
    simp only [moreItemTexts, movedIn_append, movedIn_cons (by decide : ',' ≠ '\n'), movedIn_lineStart,
      contentText_movedIn item level hitem, moreItemTexts_movedIn rest level hrest]

end

end

end Script

namespace Emission

/-! ## Printing deferred messages -/

/-- Options under which every string stands in the module as it is. -/
structure KeepsStrings (options : Options) : Prop where
  deferred : options.jit = true
  lenient : options.lenient = true
  plain : options.escapeHtml = false
  scalars : options.forceStringify = false

section

variable {options : Options}

theorem compile_deferred (hjit : options.jit = true) (hplain : options.escapeHtml = false)
    {literal : String} {path : List String} {compiled : CompiledMessage}
    (h : Message.compile literal options path = .ok compiled) : compiled.code = Json.quoted literal := by
  obtain ⟨cases, -, hform⟩ := Message.compile_eq_ok h
  have hstrategy : options.strategy = .deferred := if_pos hjit
  rw [Message.compiledText_of_plain hplain, Message.represent, hstrategy] at hform
  rw [← (Prod.mk.inj hform).1, Message.quotedChars, String.ofList_toList]

/-- A scalar is printed as its literal, whether or not its message is accepted. -/
theorem printScalar_deferred (h : KeepsStrings options) (path : List String) (s : Scalar) :
    printScalar (MessageCompiler.forgetful Message.compile) options path s () =
      some (s.value.literal, ()) := by
  unfold printScalar message?
  cases hvalue : s.value with
  | string literal =>
    simp only [printMessage, MessageCompiler.forgetful]
    cases hcompile : Message.compile literal options path with
    | ok compiled =>
      show some (compiled.code, ()) = _
      rw [compile_deferred h.deferred h.plain hcompile]
      rfl
    | error e => exact if_pos h.lenient
  | _ => simp only [h.scalars]; rfl

theorem printLines_toList (opening closing : String) (level : Nat) {lines : List String}
    (h : lines ≠ []) : (printLines opening closing level lines).toList =
      opening.toList ++ (lineStart (level + 1) ++ (((separator (level + 1)).intercalate lines).toList ++
        (lineStart level ++ closing.toList))) := by
  rw [printLines, if_neg h]
  simp only [String.toList_append, toList_lineBreak, List.append_assoc]

theorem printed_map_eq {α β : Type} {x : Printing Unit α} {a : α} (h : x () = some (a, ()))
    (f : α → β) : (f <$> x) () = some (f a, ()) := by
  rw [map_eq_pure_bind, printing_bind, h]
  rfl

/-- Lines between brackets are printed as their text between the starts of the lines. -/
theorem printLines_deferred {x : Printing Unit (List String)} {lines : List String} {inner : List Char}
    {opening closing : String} {level : Nat} (hlines : x () = some (lines, ())) (hne : lines ≠ [])
    (htext : ((separator (level + 1)).intercalate lines).toList = inner) :
    (printLines opening closing level <$> x) () = some (String.ofList (opening.toList ++
      (lineStart (level + 1) ++ (inner ++ (lineStart level ++ closing.toList)))), ()) := by
  rw [printed_map_eq hlines]
  refine congrArg (fun code => some (code, ())) (String.toList_inj.1 ?_)
  rw [printLines_toList _ _ _ hne, htext, String.toList_ofList]

theorem separator_intercalate_cons (level : Nat) (line : String) (lines : List String) :
    ((separator level).intercalate (line :: lines)).toList =
      line.toList ++ ((if lines.isEmpty then [] else ',' :: lineStart level) ++
        ((separator level).intercalate lines).toList) := by
  cases lines with
  | nil => simp
  | cons second lines =>
    rw [String.intercalate_cons_cons]
    simp [separator, toList_lineBreak]

mutual

/-- A node is printed as the text of its content. -/
theorem printNode_deferred (h : KeepsStrings options) : ∀ (node : Node) (level : Nat)
    (path : List String), printNode (MessageCompiler.forgetful Message.compile) options level path node () =
      some (String.ofList (contentText numberChars level node.content), ())
  | .scalar s, level, path => by
    rw [printNode, printScalar_deferred h, Node.content, contentText, scalarText_unsignedZero,
      String.ofList_toList]
  | .verbatim v, level, path => by
    rw [Node.content, contentText, String.ofList_toList]
    rfl
  | .mapping [] _, level, path => rfl
  | .mapping (pair :: rest) _, level, path => by
    obtain ⟨lines, hlines, hempty, htext⟩ := printPairs_deferred h (pair :: rest) (level + 1) path
    have hne : lines ≠ [] := fun he => by cases hempty.symm.trans (congrArg List.isEmpty he)
    exact printLines_deferred hlines hne htext
  | .sequence [] _, level, path => rfl
  | .sequence (item :: rest) _, level, path => by
    obtain ⟨lines, hlines, hempty, htext⟩ := printItems_deferred h (item :: rest) (level + 1) path 0
    have hne : lines ≠ [] := fun he => by cases hempty.symm.trans (congrArg List.isEmpty he)
    exact printLines_deferred hlines hne htext

theorem printPairs_deferred (h : KeepsStrings options) : ∀ (pairs : List (Key × Node)) (level : Nat)
    (path : List String), ∃ lines,
      printPairs (MessageCompiler.forgetful Message.compile) options level path pairs () =
        some (lines, ()) ∧ lines.isEmpty = pairs.isEmpty ∧
      ((separator level).intercalate lines).toList =
        pairTexts numberChars level (pairContents pairs)
  | [], level, path => ⟨[], rfl, rfl, rfl⟩
  | (key, value) :: rest, level, path => by
    obtain ⟨lines, hlines, hempty, htext⟩ := printPairs_deferred h rest level path
    let line := Json.quoted key.text ++ ": " ++ String.ofList (contentText numberChars level value.content)
    refine ⟨line :: lines, ?_, rfl, ?_⟩
    · rw [printPairs, printing_bind, printNode_deferred h value, Option.bind_some, printing_bind, hlines]
      rfl
    · rw [separator_intercalate_cons, htext, hempty, pairContents, pairTexts, morePairTexts_eq]
      simp [line]

theorem printItems_deferred (h : KeepsStrings options) : ∀ (items : List Node) (level : Nat)
    (path : List String) (index : Nat), ∃ lines,
      printItems (MessageCompiler.forgetful Message.compile) options level path index items () =
        some (lines, ()) ∧ lines.isEmpty = items.isEmpty ∧
      ((separator level).intercalate lines).toList =
        itemTexts numberChars level (itemContents items)
  | [], level, path, index => ⟨[], rfl, rfl, rfl⟩
  | item :: rest, level, path, index => by
    obtain ⟨lines, hlines, hempty, htext⟩ := printItems_deferred h rest level path (index + 1)
    refine ⟨String.ofList (contentText numberChars level item.content) :: lines, ?_, rfl, ?_⟩
    · rw [printItems, printing_bind, printNode_deferred h item, Option.bind_some, printing_bind, hlines]
      rfl
    · rw [separator_intercalate_cons, htext, hempty, itemContents, itemTexts, moreItemTexts_eq,
        String.toList_ofList]

end

/-! ## The module -/

/-- A deferred emission succeeds, and its code is the text of the content at the level it stands at. -/
theorem emit_deferred (h : KeepsStrings options) (document : Document) (source : String)
    (diagnostics : Diagnostics) (bridgePayload : Option String) : ∃ generated log,
      emit document source options ⟨Message.compile, diagnostics, bridgePayload⟩ =
        .ok (generated, log) ∧
      generated.code = preludeText options ++
        String.ofList (contentText numberChars (baseLevel options) document.root.content) ++
          epilogueText options bridgePayload := by
  have hprinted := @emit_printed options document source ⟨Message.compile, diagnostics, bridgePayload⟩
  rw [printNode_deferred h] at hprinted
  obtain ⟨⟨generated, log⟩, hemit, hcode⟩ := Option.map_eq_some_iff.1 hprinted
  exact ⟨generated, log, ok_of_toOption hemit, hcode⟩

/--
The emission of deferred messages and the module writer print one text, for every document: it stands
in the plain module between the two ends of that module and in the written module behind its export.
For a document without functions the text registered on a component is the same with four blanks
behind each line break, directly behind the key of the resource.
-/
theorem deferred_emission_prints_module (h : KeepsStrings options) (hkind : options.kind = .plain)
    (document : Document) (source : String) (diagnostics : Diagnostics)
    (bridgePayload : Option String) : ∃ body : String,
      writeModule document = "export default " ++ body ++ "\n" ∧
      (∃ generated log,
        emit document source options ⟨Message.compile, diagnostics, bridgePayload⟩ =
          .ok (generated, log) ∧
        generated.code = "const resource = " ++ body ++ "\n" ++ options.exportPrefix ++ " resource") ∧
      (document.root.content.codes = [] → ∃ generated log front,
        emit document source { options with kind := .component }
          ⟨Message.compile, diagnostics, bridgePayload⟩ = .ok (generated, log) ∧
        preludeText { options with kind := .component } = front ++ "\"resource\": " ∧
        generated.code = front ++ "\"resource\": " ++ String.ofList (movedIn 4 body.toList) ++
          epilogueText { options with kind := .component } bridgePayload) := by
  have hplain : options.isComponent = false := by
    rw [Options.isComponent, hkind]
    rfl
  refine ⟨String.ofList (contentText numberChars 0 document.root.content), ?_, ?_, fun hcodes => ?_⟩
  · refine String.toList_inj.1 ?_
    rw [writeModule_toList]
    simp
  · obtain ⟨generated, log, hemit, hcode⟩ := emit_deferred h document source diagnostics bridgePayload
    refine ⟨generated, log, hemit, ?_⟩
    simpa [preludeText, epilogueText, baseLevel, hplain, String.append_assoc] using hcode
  · have hcomponent : KeepsStrings { options with kind := .component } :=
      ⟨h.deferred, h.lenient, h.plain, h.scalars⟩
    obtain ⟨generated, log, hemit, hcode⟩ :=
      emit_deferred hcomponent document source diagnostics bridgePayload
    -- the resource stands at the second level, which is four blanks in
    have hmoved : contentText numberChars 2 document.root.content =
        movedIn 4 (contentText numberChars 0 document.root.content) := by
      have hlevels := contentText_movedIn 2 document.root.content 0 hcodes
      exact hlevels
    refine ⟨generated, log, _, hemit, rfl, ?_⟩
    rw [hcode, String.toList_ofList, ← hmoved]
    rfl

/-- A key with a line break, a rejected message and an empty container, at either level. -/
theorem deferred_emission_prints_module_nested :
    let span : Text.Span := .origin
    let string := fun text => Node.scalar (.bare (.string text) span)
    let document : Document := ⟨.mapping [(⟨"a\n", span⟩, .sequence [string "\x7b", .mapping [] span]
      span), (⟨"b", span⟩, .scalar (.bare .null span))] span, "m.json"⟩
    let options : Options := { jit := true, lenient := true }
    let collaborators : Collaborators := ⟨Message.compile, .full, none⟩
    (∃ generated log, emit document "" options collaborators = .ok (generated, log) ∧
      generated.code = "const resource = \x7b\n  \"a\\n\": [\n    \"\x7b\",\n    \x7b\x7d\n  ],\n" ++
        "  \"b\": null\n\x7d\nexport default resource") ∧
    ∃ generated log front,
      emit document "" { options with kind := .component } collaborators = .ok (generated, log) ∧
      generated.code = front ++ "\"resource\": \x7b\n      \"a\\n\": [\n        \"\x7b\",\n" ++
        "        \x7b\x7d\n      ],\n      \"b\": null\n    \x7d\n  \x7d)\n\x7d" := by
  intro span string document options collaborators
  obtain ⟨body, hmodule, ⟨generated, log, hemit, hcode⟩, hcomponent⟩ :=
    deferred_emission_prints_module ⟨rfl, rfl, rfl, rfl⟩ (rfl : options.kind = .plain) document "" .full
      none
  obtain ⟨registered, log', front, hemit', -, hcode'⟩ := hcomponent rfl
  have hwritten : writeModule document = "export default " ++ ("\x7b\n  \"a\\n\": [\n    \"\x7b\",\n" ++
      "    \x7b\x7d\n  ],\n  \"b\": null\n\x7d") ++ "\n" := by decide +kernel
  have hbody : body = "\x7b\n  \"a\\n\": [\n    \"\x7b\",\n" ++
      "    \x7b\x7d\n  ],\n  \"b\": null\n\x7d" := by
    have hsame := congrArg String.toList (hmodule.symm.trans hwritten)
    rw [String.toList_append, String.toList_append, String.toList_append, String.toList_append] at hsame
    exact String.toList_inj.1 (List.append_cancel_left (List.append_cancel_right hsame))
  rw [hbody] at hcode hcode'
  refine ⟨⟨generated, log, hemit, hcode.trans (by decide +kernel)⟩, registered, log', front, hemit', ?_⟩
  rw [hcode', String.append_assoc, String.append_assoc, String.append_assoc]
  exact congrArg (front ++ ·) (by decide +kernel)

end

end Emission

end MessageCatalog
