/-
A module that is written from a document is read as the document: its text is that of the content
of the document, whatever the places in it were.
-/
import MessageCatalog.Proofs.Code.Writer
import MessageCatalog.Proofs.Script.NumberText
import MessageCatalog.Proofs.Script.ReadBack
import MessageCatalog.Script.ModuleWriter

namespace MessageCatalog.Script

open MessageCatalog.Text MessageCatalog.Code

/-! ## Written texts -/

/-- The characters of a number in a module. -/
def numberChars (d : Double) : List Char := (numberText d).toList

theorem scalarText_unsignedZero (value : ScalarValue) :
    scalarText numberChars value.unsignedZero = value.literal.toList := by
  cases value with
  | number d => exact congrArg String.toList (numberText_unsignedZero d)
  | _ => rfl

theorem toList_lineBreak (level : Nat) : (Writer.lineBreak level).toList = lineStart level := by
  simp [Writer.lineBreak, Writer.indentation, lineStart]

/-- A bracket, a line break, the inner lines, a line break and a bracket. -/
theorem push_block {w v : Writer} {opening closing : Char} (inner : Nat → List Char)
    (hinner : v = ((w.push (String.ofList [opening])).indent).push
      (String.ofList (inner (w.push (String.ofList [opening])).indent.level))) :
    v.deindent.push (String.ofList [closing]) = w.push (String.ofList (opening :: (lineStart (w.level + 1) ++
      (inner (w.level + 1) ++ (lineStart w.level ++ [closing]))))) := by
  have hlevel : (w.push (String.ofList [opening])).indent.level = w.level + 1 := by rw [Writer.indent_eq]; rfl
  rw [hlevel] at hinner
  have hlevel : v.level = w.level + 1 := by rw [hinner, Writer.push_level, hlevel]
  rw [Writer.deindent_eq, hlevel, Nat.add_sub_cancel, hinner, Writer.indent_eq]
  simp only [Writer.push_atLevel, Writer.push_push, Writer.push_level, Writer.atLevel_atLevel]
  show w.push _ = _
  refine congrArg w.push ?_
  simp [← String.toList_inj, toList_lineBreak]

/-- A line of a list ends in a comma, unless it is the last one. -/
theorem push_separator {α : Type} (w : Writer) (rest : List α) :
    (if rest.isEmpty then w else w.pushLine ",") =
      w.push (String.ofList (if rest.isEmpty then [] else ',' :: lineStart w.level)) := by
  cases rest with
  | nil => exact w.push_empty.symm
  | cons x rest =>
    show w.pushLine "," = w.push (String.ofList (',' :: lineStart w.level))
    rw [Writer.pushLine_eq]
    refine congrArg w.push ?_
    simp [← String.toList_inj, toList_lineBreak]

theorem morePairTexts_eq (level : Nat) (pairs : List (Key × Node)) :
    morePairTexts numberChars level (pairContents pairs) =
      (if pairs.isEmpty then [] else ',' :: lineStart level) ++
        pairTexts numberChars level (pairContents pairs) := by
  cases pairs <;> rfl

theorem moreItemTexts_eq (level : Nat) (items : List Node) :
    moreItemTexts numberChars level (itemContents items) =
      (if items.isEmpty then [] else ',' :: lineStart level) ++
        itemTexts numberChars level (itemContents items) := by
  cases items <;> rfl

mutual

/-- A node is written as the text of its content. -/
theorem writeNode_eq : ∀ (node : Node) (w : Writer),
    writeNode w node = w.push (String.ofList (contentText numberChars w.level node.content))
  | .mapping [] _, _ => rfl
  | .mapping (pair :: rest) _, w => by
    have hpairs := writePairs_eq (pair :: rest) (w.push (String.ofList ['\x7b'])).indent
    exact push_block (fun level => pairTexts numberChars level (pairContents (pair :: rest))) hpairs
  | .sequence [] _, _ => rfl
  | .sequence (item :: rest) _, w => by
    have hitems := writeItems_eq (item :: rest) (w.push (String.ofList ['['])).indent
    exact push_block (fun level => itemTexts numberChars level (itemContents (item :: rest))) hitems
  | .scalar s, w => by
    rw [writeNode, Node.content, contentText, scalarText_unsignedZero, String.ofList_toList]
  | .verbatim v, w => by
    rw [writeNode, Node.content, contentText, String.ofList_toList]

theorem writePairs_eq : ∀ (pairs : List (Key × Node)) (w : Writer),
    writePairs w pairs = w.push (String.ofList (pairTexts numberChars w.level (pairContents pairs)))
  | [], w => w.push_empty.symm
  | (key, value) :: rest, w => by
    rw [writePairs, writePairs_eq rest, push_separator, writeNode_eq value]
    simp only [Writer.push_push, Writer.push_level, pairContents, pairTexts, morePairTexts_eq]
    refine congrArg w.push ?_
    simp [← String.toList_inj]

theorem writeItems_eq : ∀ (items : List Node) (w : Writer),
    writeItems w items = w.push (String.ofList (itemTexts numberChars w.level (itemContents items)))
  | [], w => w.push_empty.symm
  | item :: rest, w => by
    rw [writeItems, writeItems_eq rest, push_separator, writeNode_eq item]
    simp only [Writer.push_push, Writer.push_level, itemContents, itemTexts, moreItemTexts_eq]
    refine congrArg w.push ?_
    simp [← String.toList_inj]

end

/-! ## Modules -/

/-- The text of a module. -/
theorem writeModule_toList (document : Document) : (writeModule document).toList =
    "export default ".toList ++ (contentText numberChars 0 document.root.content ++ ['\n']) := by
  rw [writeModule, writeNode_eq]
  simp [Writer.finish, Writer.new]

/-- A code that stands for a function of its own wherever a value is written. -/
structure IsFunctionCode (typed : Bool) (code : String) : Prop where
  starts : StartsAsFunction code.toList
  reads : ReadsAsFunction typed code.toList

theorem cuttable_module {typed : Bool} {c : Content} (h : c.Every (fun _ => True) (IsFunctionCode typed)) :
    Cuttable numberChars c := by
  have hnumbers : c.Every (fun value => ∀ d, value = .number d → CutsNumber numberChars d)
      (IsFunctionCode typed) := by
    refine h.of_unsigned ?_
    rintro _ - hunsigned d rfl
    exact cutsNumber_numberText (ScalarValue.number.inj hunsigned)
  exact hnumbers.mono (fun _ hnumber => hnumber) fun _ hcode => hcode.starts

theorem endsWord_blank (rest : List Char) : EndsWord (' ' :: rest) := by
  rintro c ⟨⟩
  decide

theorem cuts_module {document : Document} (h : Cuttable numberChars document.root.content)
    (offset : OffsetOf) :
    Cuts offset (writeModule document).toList (modulePieces document.root.content) := by
  -- from the end of the text again: the line break, the value, the two words
  have hend : Cuts offset ['\n'] [] := cuts_nil.blank (.inr rfl)
  have hvalue := cuts_contentText document.root.content 0 h (by rintro c ⟨⟩; exact .inr rfl) hend
  rw [List.append_nil] at hvalue
  have hword : ∀ {word : String} (rest : List Char), word ∈ plainWords →
      IsLexeme word.toList (.name word) (' ' :: rest) :=
    fun rest hplain => isLexeme_word hplain (endsWord_blank rest)
  have hdefault := (hword _ (by decide : "default" ∈ plainWords)).cuts (hvalue.blank (.inl rfl))
  have hexport := (hword _ (by decide : "export" ∈ plainWords)).cuts (hdefault.blank (.inl rfl))
  rw [writeModule_toList]
  exact hexport

/-- A module that is written from a mapping is read as the same mapping, without a warning. -/
theorem readResourceModule_writeModule {document : Document} {filename : String}
    (hroot : ∃ pairs, document.root.content = .mapping pairs)
    (hcodes : document.root.content.Every (fun _ => True) (IsFunctionCode (isTypedName filename)))
    (hsize : byteLength (writeModule document).toList ≤ sizeLimit) :
    ∃ root, readResourceModule (writeModule document) filename = (.ok ⟨root, filename⟩, []) ∧
      root.content = document.root.content := by
  have hcuts := cuts_module (cuttable_module hcodes)
  obtain ⟨pairs, hroot⟩ := hroot
  rw [hroot] at hcodes hcuts ⊢
  exact readResourceModule_content hsize (hcodes.mono (fun _ h => h) fun _ hcode => hcode.reads) hcuts

end MessageCatalog.Script
