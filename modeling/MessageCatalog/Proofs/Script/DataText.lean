/-
A value that is written as an indented data text is read as the same value.
-/
import MessageCatalog.Proofs.Resource.Data
import MessageCatalog.Proofs.Script.NumberText
import MessageCatalog.Proofs.Script.ReadBack

namespace MessageCatalog.Script

open MessageCatalog.Text

/-! ## Written values -/

/-- The characters of a number in a data text. -/
def dataNumberChars (d : Double) : List Char := ((numberValue d).pretty 0).toList

theorem toList_indentation (depth : Nat) : '\n' :: (Json.indentation depth).toList = lineStart depth := by
  simp [Json.indentation, lineStart]

/-- Parts between two brackets, each on a line of its own. -/
theorem toList_bracketed (opening closing : String) (depth : Nat) (part : String) (rest : List String) :
    (Json.bracketed opening closing depth (part :: rest)).toList =
      opening.toList ++ (lineStart (depth + 1) ++
        ((',' :: lineStart (depth + 1)).intercalate ((part :: rest).map String.toList) ++
          (lineStart depth ++ closing.toList))) := by
  simp [Json.bracketed, String.toList_intercalate, ← toList_indentation]

theorem itemTexts_cons_cons (level : Nat) (item next : Content) (rest : List Content) :
    itemTexts dataNumberChars level (item :: next :: rest) = contentText dataNumberChars level item ++
      (',' :: lineStart level) ++ itemTexts dataNumberChars level (next :: rest) := by
  simp [itemTexts, moreItemTexts]

theorem pairTexts_cons_cons (level : Nat) (key : String) (value : Content) (next : String × Content)
    (rest : List (String × Content)) :
    pairTexts dataNumberChars level ((key, value) :: next :: rest) =
      ((Json.quoted key).toList ++ ':' :: ' ' :: contentText dataNumberChars level value) ++
        (',' :: lineStart level) ++ pairTexts dataNumberChars level (next :: rest) := by
  simp [pairTexts, morePairTexts]

theorem dataNumberChars_eq {n : JsonNumber} {d : Double} (h : numberValue d = .number n) :
    dataNumberChars n.toDouble.unsignedZero = (Json.numberText n).toList := by
  rw [dataNumberChars, numberValue_unsignedZero, numberValue_toDouble h, Json.pretty]

mutual

/-- A value is written as the text of its content. -/
theorem toList_pretty : ∀ {j : Json} (depth : Nat), j.Plain →
    (j.pretty depth).toList = contentText dataNumberChars depth j.content
  | .null, _, _ => rfl
  | .bool b, _, _ => by cases b <;> rfl
  | .string s, _, _ => by
    rw [Json.pretty]
    rfl
  | .number n, depth, h => by
    cases h with
    | number d value =>
      rw [Json.pretty, ← dataNumberChars_eq value]
      rfl
  | .array [], _, _ => by
    simp [Json.pretty, Json.prettyItems, Json.bracketed, Json.content, valueContents, contentText]
  | .array (item :: rest), depth, h => by
    cases h with
    | array values =>
      have hitems := toList_prettyItems (depth + 1) values
      rw [Json.pretty, Json.prettyItems, toList_bracketed, ← Json.prettyItems, hitems]
      rfl
  | .object [], _, _ => by
    simp [Json.pretty, Json.prettyMembers, Json.bracketed, Json.content, memberContents, contentText]
  | .object ((key, value) :: rest), depth, h => by
    cases h with
    | object distinct values =>
      have hmembers := toList_prettyMembers (depth + 1) values
      rw [Json.pretty, Json.prettyMembers, toList_bracketed, ← Json.prettyMembers, hmembers]
      rfl

theorem toList_prettyItems : ∀ {items : List Json} (depth : Nat), (∀ item ∈ items, item.Plain) →
    (',' :: lineStart depth).intercalate ((Json.prettyItems depth items).map String.toList) =
      itemTexts dataNumberChars depth (valueContents items)
  | [], _, _ => rfl
  | [item], depth, h => by
    have hitem := toList_pretty depth (h item List.mem_cons_self)
    simp [Json.prettyItems, hitem, valueContents, itemTexts, moreItemTexts]
  | item :: next :: rest, depth, h => by
    obtain ⟨hitem, hrest⟩ := List.forall_mem_cons.1 h
    rw [valueContents, valueContents, itemTexts_cons_cons, ← valueContents, ← toList_prettyItems depth hrest,
      ← toList_pretty depth hitem]
    exact List.intercalate_cons_cons

theorem toList_prettyMembers : ∀ {members : List (String × Json)} (depth : Nat), (∀ m ∈ members, m.2.Plain) →
    (',' :: lineStart depth).intercalate ((Json.prettyMembers depth members).map String.toList) =
      pairTexts dataNumberChars depth (memberContents members)
  | [], _, _ => rfl
  | [(key, value)], depth, h => by
    have hvalue := toList_pretty depth (h (key, value) List.mem_cons_self)
    simp [Json.prettyMembers, hvalue, memberContents, pairTexts, morePairTexts]
  | (key, value) :: (key', value') :: rest, depth, h => by
    obtain ⟨hvalue, hrest⟩ := List.forall_mem_cons.1 h
    have hmore := toList_prettyMembers depth hrest
    rw [memberContents, memberContents, pairTexts_cons_cons, ← memberContents, ← hmore,
      ← toList_pretty depth hvalue]
    simp [Json.prettyMembers]

end

/-! ## Read values -/

/-- A value that is written as a data text is read as its content. -/
theorem readData_pretty {j : Json} {filename : String} (h : j.Plain)
    (hsize : byteLength (j.pretty 0).toList ≤ sizeLimit) :
    ∃ root, readData (j.pretty 0) filename = .ok ⟨root, filename⟩ ∧ root.content = j.content := by
  have hevery := Json.every_content h
  have hnumbers : j.content.Every (fun value => ∀ d, value = .number d → CutsNumber dataNumberChars d)
      fun _ => False := by
    refine hevery.of_unsigned ?_
    rintro _ hnumber hunsigned d rfl
    obtain ⟨n, hn⟩ := hnumber d rfl
    exact cutsNumber_json (ScalarValue.number.inj hunsigned) hn
  have hcuttable : Cuttable dataNumberChars j.content := hnumbers.mono (fun _ h => h) fun _ h => h.elim
  refine readData_content hsize (hevery.mono (fun _ _ => trivial) fun _ h => h) fun offset => ?_
  have hnil : Cuts offset [] [] := cuts_nil
  have hstops : Stops [] := by rintro c ⟨⟩
  have hcuts := cuts_contentText j.content 0 hcuttable hstops hnil
  rw [List.append_nil, List.append_nil] at hcuts
  rw [toList_pretty 0 h]
  exact hcuts

end MessageCatalog.Script
