/-
Where the parts of a resource are. Whatever the notation, the content of every scalar and every
stretch of code that is kept has a position that the line index of the source text gives.
-/
import MessageCatalog.Format
import MessageCatalog.Proofs.Script.Leaf
import MessageCatalog.Proofs.Yaml.Building

namespace MessageCatalog

open MessageCatalog.Text

/-! ## Positions of a text -/

/-- A position that a line index gives for some offset. -/
def Text.LineIndex.Gives (index : LineIndex) (position : Position) : Prop :=
  ∃ offset, index.position offset = position

/-- A node whose scalars and code are found at positions of an index. -/
inductive Node.PlacedIn (index : LineIndex) : Node → Prop where
  | mapping {pairs : List (Key × Node)} {span : Span}
    (values : ∀ pair ∈ pairs, PlacedIn index pair.2) : PlacedIn index (.mapping pairs span)
  | sequence {items : List Node} {span : Span} (values : ∀ item ∈ items, PlacedIn index item) :
    PlacedIn index (.sequence items span)
  | scalar {s : Scalar} (content : index.Gives s.contentStart) : PlacedIn index (.scalar s)
  | verbatim {v : Verbatim} (start : index.Gives v.span.start) : PlacedIn index (.verbatim v)

/-! ## Script texts -/

namespace Script

variable {l : Lowering}

theorem bare_placed (value : ScalarValue) (x : Extent) : (l.bare value x).PlacedIn l.index :=
  .scalar ⟨x.start, rfl⟩

theorem leaf_placed {e : Expr l.source} {node : Node} (h : l.leaf e = .ok node) :
    node.PlacedIn l.index := by
  unfold Lowering.leaf at h
  split at h
  · cases h
    exact .scalar ⟨_, rfl⟩
  · cases h
    exact bare_placed _ _
  · cases h
    exact bare_placed _ _
  · split at h
    · cases h
      exact bare_placed _ _
    · cases h
  · split at h
    · cases h
      exact .scalar ⟨_, rfl⟩
    · cases h
  · split at h
    · cases h
      exact .verbatim ⟨_, rfl⟩
    · cases h
  · split at h
    · cases h
      exact bare_placed _ _
    · cases h

mutual

theorem node_placed : ∀ (e : Expr l.source) {node : Node}, l.node e = .ok node →
    node.PlacedIn l.index
  | .object properties x, node, h => by
    obtain ⟨pairs, hpairs, h⟩ := bind_eq_ok.1 h
    cases h
    exact .mapping (pairs_placed properties hpairs)
  | .array elements x, node, h => by
    obtain ⟨items, hitems, h⟩ := bind_eq_ok.1 h
    cases h
    exact .sequence (items_placed elements hitems)
  | .parenthesized inner x, node, h => by
    rw [Lowering.node] at h
    split at h
    · exact node_placed inner h
    · cases h
  | .ascribed inner x, node, h => by
    rw [Lowering.node] at h
    split at h
    · exact node_placed inner h
    · cases h
  | .string _, _, h | .number _ _, _, h | .bool _ _, _, h | .null _, _, h | .identifier _ _, _, h
  | .template _ _, _, h | .signed _ _ _, _, h | .member _, _, h | .assignment _ _, _, h
  | .logical _, _, h | .function _, _, h | .other _, _, h => leaf_placed h

theorem pairs_placed : ∀ (properties : List (Property l.source)) {pairs : List (Key × Node)},
    l.pairs properties = .ok pairs → ∀ pair ∈ pairs, pair.2.PlacedIn l.index
  | [], pairs, h => by
    cases h
    exact List.forall_mem_nil _
  | .pair key keyExtent value x :: rest, pairs, h => by
    obtain ⟨text, node, others, -, hnode, hothers, rfl⟩ := pairs_cons_eq_ok h
    exact List.forall_mem_cons.2 ⟨node_placed value hnode, pairs_placed rest hothers⟩

theorem items_placed : ∀ (elements : List (Element l.source)) {x : Extent} {items : List Node},
    l.items x elements = .ok items → ∀ item ∈ items, item.PlacedIn l.index
  | [], x, items, h => by
    cases h
    exact List.forall_mem_nil _
  | .item e :: rest, x, items, h => by
    obtain ⟨node, hnode, h⟩ := bind_eq_ok.1 h
    obtain ⟨others, hothers, h⟩ := bind_eq_ok.1 h
    cases h
    exact List.forall_mem_cons.2 ⟨node_placed e hnode, items_placed rest hothers⟩

end

theorem readData_placed {source filename : String} {document : Document}
    (h : readData source filename = .ok document) :
    document.root.PlacedIn (.ofText source.toList) := by
  unfold readData at h
  simp only at h
  split at h
  · cases h
  · split at h
    · cases h
    · obtain ⟨root, hroot, h⟩ := bind_eq_ok.1 h
      cases h
      exact node_placed _ hroot

theorem readResourceModule_placed {source filename : String} {document : Document}
    (h : (readResourceModule source filename).1 = .ok document) :
    document.root.PlacedIn (.ofText source.toList) := by
  unfold readResourceModule at h
  simp only at h
  split at h
  · cases h
  · simp only at h
    split at h
    · cases h
    · cases h
    · split at h
      · obtain ⟨root, hroot, rfl⟩ := map_eq_ok h
        exact node_placed _ hroot
      · cases h

end Script

/-! ## YAML texts -/

namespace Yaml

theorem buildTree_placed {source : Source} {events : List Event} {root : Node}
    (h : buildTree source events = .ok (some root)) : root.PlacedIn source.index := by
  have hinherited : Inherited (Node.PlacedIn source.index) fun _ => True :=
    ⟨fun _ _ h => .mapping fun pair hpair => (h pair hpair).2, fun _ _ h => .sequence h,
      fun _ _ _ _ => trivial⟩
  exact buildTree_forall hinherited (fun _ _ _ _ _ _ => .scalar ⟨_, rfl⟩) h

theorem readResource_placed {text filename : String} {document : Document}
    (h : readResource text filename = .ok document) :
    document.root.PlacedIn (.ofText text.toList) := by
  unfold readResource at h
  simp only at h
  split at h
  · cases h
  · split at h
    · cases h
    · rename_i root hroot
      cases h
      cases root with
      | none => exact .mapping (List.forall_mem_nil _)
      | some root => exact buildTree_placed hroot

end Yaml

/-- Every notation places the parts of a resource in the text that it is read from. -/
theorem ResourceFormat.read_placed {format : ResourceFormat} {source filename : String}
    {document : Document} (h : (format.read source filename).1 = .ok document) :
    document.root.PlacedIn (.ofText source.toList) := by
  cases format with
  | json => exact Script.readData_placed h
  | yaml => exact Yaml.readResource_placed h
  | plainModule => exact Script.readResourceModule_placed h

end MessageCatalog
