/-
The spans of data texts are exact. What stands between the ends of a node's span is read as that node
again, and the spans of the parts of a node lie apart from each other within its own.
-/
import MessageCatalog.Proofs.Script.ReadComplete

namespace MessageCatalog.Script

open MessageCatalog.Text

/-- The text of a value is a slice of the source, and is a value on its own. -/
theorem IsValue.alone {source text rest : List Char} {node : Node} (h : IsValue source text node rest)
    (htext : text <:+ source) (hleads : Leads text text) :
    ∃ own root, slice? source node.span.start.offset node.span.stop.offset = some own ∧
      byteLength own ≤ byteLength source ∧ Leads own own ∧ IsValue own own root [] ∧
      root.unplaced = node.unplaced := by
  obtain ⟨own, rfl⟩ := h.proper.suffix
  obtain ⟨before, rfl⟩ := htext
  have hstart : node.span.start.offset = byteLength before := by
    rw [h.span_eq, spanIn, placeIn_offset, offsetIn, byteLength_append, Nat.add_sub_cancel]
  have hstop : node.span.stop.offset = byteLength (before ++ own) := by
    rw [h.span_eq, spanIn, placeIn_offset, offsetIn, ← List.append_assoc, byteLength_append,
      Nat.add_sub_cancel]
  have hlocal : ∃ root, IsValue own own root [] ∧ root.unplaced = node.unplaced :=
    IsValue.local (u := []) h
  obtain ⟨root, hroot, hsame⟩ := hlocal
  refine ⟨own, root, ?_, ?_, Leads.local hleads, hroot, hsame⟩
  · rw [hstart, hstop, slice?_append]
  · rw [byteLength_append, byteLength_append]
    omega

/-- What a span says of a node and its parts is exact. -/
structure ExactSpans (source : String) (node : Node) : Prop where
  /-- The text of the node is read, under any name, as the node again. -/
  again : ∀ filename, ∃ text root,
    slice? source.toList node.span.start.offset node.span.stop.offset = some text ∧
      readData (String.ofList text) filename = .ok ⟨root, filename⟩ ∧ root.unplaced = node.unplaced
  /-- Keys, values and items lie within the node, and none of them is empty. -/
  inside : ∀ x ∈ node.innerSpans, node.span.start.offset < x.start.offset ∧
    x.start.offset < x.stop.offset ∧ x.stop.offset < node.span.stop.offset
  /-- They stand in order, each of them in front of the next. -/
  ordered : node.innerSpans.Pairwise fun a b => a.stop.offset < b.start.offset
  /-- Every end of a span has the line and the column of its offset. -/
  placed : ∀ x ∈ node.span :: node.innerSpans, IsSpanOf source.toList x
  /-- The content of a string begins behind its quote. -/
  content : ∀ s value, node = .scalar s → s.value = .string value →
    s.contentStart.offset = s.span.start.offset + 1 ∧
      (LineIndex.ofString source).position s.contentStart.offset = s.contentStart

/-- The spans of everything in a data text that is read are exact. -/
theorem exactSpans_of_readData {source filename : String} {document : Document}
    (h : readData source filename = .ok document) {node : Node} (hnode : node.Within document.root) :
    ExactSpans source node := by
  obtain ⟨hsize, text, rest, hleads, hroot⟩ := readData_sound h
  obtain ⟨text', rest', htext, hself, hvalue⟩ := hroot.within hnode hleads.self
  have hsource := htext.trans hleads.suffix
  have hspaced := hvalue.spaced hsource
  refine ⟨fun filename => ?_, fun x hx => hspaced.within hx, hspaced.pairwise, ?_, ?_⟩
  · obtain ⟨own, root, hslice, hlength, hown, hagain, hsame⟩ := hvalue.alone hsource hself
    refine ⟨own, root, hslice, ?_, hsame⟩
    rw [← String.toList_ofList (l := own)] at hown hagain
    refine readData_value ?_ hown hagain filename
    rw [String.toList_ofList]
    exact Nat.le_trans hlength hsize
  · exact List.forall_mem_cons.2 ⟨hvalue.isSpanOf, hvalue.innerSpans_isSpanOf⟩
  · rintro s value rfl hstring
    exact hvalue.contentStart hstring hsource

/-- The ends of the items of a list that is all there is in a mapping. -/
def itemEnds : Node → List (Nat × Nat)
  | .mapping [(_, .sequence items _)] _ =>
    items.map fun item => (item.span.start.offset, item.span.stop.offset)
  | _ => []

/-- The items of a list under a bare key: a number with a sign behind a comment, and text with an escape. -/
theorem exactSpans_of_readData_items :
    let source := "\x7b low: [/* least */ - 0.5, 'a\\n',], \x7d"
    ∃ (document : Document) (items : List Node), readData source "items.json5" = .ok document ∧
      items.map (fun item => (item.span.start.offset, item.span.stop.offset)) = [(20, 25), (27, 32)] ∧
      ∀ item ∈ items, item.Within document.root ∧ ExactSpans source item := by
  intro source
  have hspans : (readData source "items.json5").toOption.map (fun document => itemEnds document.root) =
      some [(20, 25), (27, 32)] := by
    decide +kernel
  obtain ⟨⟨root, filename⟩, hread, hspans⟩ := Option.map_eq_some_iff.1 hspans
  have hread := ok_of_toOption hread
  unfold itemEnds at hspans
  split at hspans
  · rename_i key items listSpan span hroot
    obtain rfl : root = .mapping [(key, .sequence items listSpan)] span := hroot
    refine ⟨_, items, hread, hspans, fun item hitem => ?_⟩
    have hwithin : item.Within (.mapping [(key, .sequence items listSpan)] span) :=
      .value List.mem_cons_self (.item hitem .root)
    exact ⟨hwithin, exactSpans_of_readData hread hwithin⟩
  · cases hspans

end MessageCatalog.Script
