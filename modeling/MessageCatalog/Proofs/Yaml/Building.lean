/-
Building a YAML tree keeps what its scalars have. The nodes on the stack, behind the anchors and at the
root are made of the scalars of the events that were taken, so what holds for these and goes on to
collections and keys holds for the whole tree.
-/
import MessageCatalog.Proofs.Error
import MessageCatalog.Yaml.Resource

namespace MessageCatalog.Yaml

/-- What collections have if their values have it, and keys if the nodes that they are have it. -/
structure Inherited (p : Node → Prop) (k : Key → Prop) : Prop where
  mapping : ∀ pairs span, (∀ pair ∈ pairs, k pair.1 ∧ p pair.2) → p (.mapping pairs span)
  sequence : ∀ items span, (∀ item ∈ items, p item) → p (.sequence items span)
  key : ∀ node key, p node → keyOf? node = some key → k key

variable {p : Node → Prop} {k : Key → Prop} {source : Source} {b : Building}

def Frame.All (p : Node → Prop) (k : Key → Prop) : Frame → Prop
  | .mapping _ _ pairs pending => (∀ pair ∈ pairs.toList, k pair.1 ∧ p pair.2) ∧ ∀ key ∈ pending, k key
  | .sequence _ _ items => ∀ item ∈ items.toList, p item

/-- All nodes and keys that are kept while a tree is built have a property. -/
structure Building.All (p : Node → Prop) (k : Key → Prop) (b : Building) : Prop where
  stack : ∀ frame ∈ b.stack, frame.All p k
  anchors : ∀ anchored ∈ b.anchors, p anchored.2
  root : ∀ node ∈ b.root, p node

theorem forall_mem_anchored {anchor : AnchorId} {node : Node} {anchors : List (AnchorId × Node)}
    (hnode : p node) (h : ∀ known ∈ anchors, p known.2) :
    ∀ known ∈ anchored anchor node anchors, p known.2 := by
  unfold anchored
  split
  · exact h
  · exact List.forall_mem_cons.2 ⟨hnode, h⟩

theorem mem_of_lookup {anchor : AnchorId} {node : Node} : ∀ {anchors : List (AnchorId × Node)},
    anchors.lookup anchor = some node → ∃ known, (known, node) ∈ anchors
  | [], h => by cases h
  | (known, value) :: rest, h => by
    rw [List.lookup_cons] at h
    split at h
    · cases h
      exact ⟨known, List.mem_cons_self⟩
    · obtain ⟨other, hmem⟩ := mem_of_lookup h
      exact ⟨other, List.mem_cons_of_mem _ hmem⟩

theorem Building.All.add (h : b.All p k) (hinherited : Inherited p k) {node : Node} (hnode : p node)
    (anchor : AnchorId) : (b.add node anchor).All p k := by
  have hanchors := @forall_mem_anchored p anchor node b.anchors hnode h.anchors
  have hframes := h.stack
  unfold Building.add
  simp only
  split
  · refine ⟨h.stack, hanchors, ?_⟩
    intro root hroot
    rcases Option.or_eq_some_iff.1 hroot with hroot | ⟨-, hroot⟩
    · exact h.root root hroot
    · cases hroot
      exact hnode
  · rename_i start id items rest hframe
    rw [hframe] at hframes
    obtain ⟨hitems, hrest⟩ := List.forall_mem_cons.1 hframes
    refine ⟨List.forall_mem_cons.2 ⟨?_, hrest⟩, hanchors, h.root⟩
    show ∀ item ∈ (items.push node).toList, p item
    rw [Array.toList_push]
    exact List.forall_mem_append.2 ⟨hitems, List.forall_mem_singleton.2 hnode⟩
  · rename_i start id pairs key rest hframe
    rw [hframe] at hframes
    obtain ⟨⟨hpairs, hpending⟩, hrest⟩ := List.forall_mem_cons.1 hframes
    refine ⟨List.forall_mem_cons.2 ⟨⟨?_, nofun⟩, hrest⟩, hanchors, h.root⟩
    rw [Array.toList_push]
    exact List.forall_mem_append.2
      ⟨hpairs, List.forall_mem_singleton.2 ⟨hpending key rfl, hnode⟩⟩
  · rename_i start id pairs rest hframe
    rw [hframe] at hframes
    split
    · -- the node becomes a key, and the pairs stay as they are
      rename_i key hkey
      obtain ⟨⟨hpairs, -⟩, hrest⟩ := List.forall_mem_cons.1 hframes
      refine ⟨List.forall_mem_cons.2 ⟨⟨hpairs, ?_⟩, hrest⟩, hanchors, h.root⟩
      rintro _ ⟨⟩
      exact hinherited.key node key hnode hkey
    · exact ⟨h.stack, hanchors, h.root⟩

theorem Building.All.close (h : b.All p k) (hinherited : Inherited p k) (stop : Text.Position) :
    (b.close stop).All p k := by
  unfold Building.close
  have hframes := h.stack
  split
  · exact h
  · rename_i start anchor items rest hframe
    rw [hframe] at hframes
    obtain ⟨hitems, hrest⟩ := List.forall_mem_cons.1 hframes
    have hpopped : Building.All p k { b with stack := rest } := ⟨hrest, h.anchors, h.root⟩
    exact hpopped.add hinherited (hinherited.sequence _ _ hitems) anchor
  · rename_i start anchor pairs pending rest hframe
    rw [hframe] at hframes
    obtain ⟨⟨hpairs, -⟩, hrest⟩ := List.forall_mem_cons.1 hframes
    have hpopped : Building.All p k { b with stack := rest } := ⟨hrest, h.anchors, h.root⟩
    exact hpopped.add hinherited (hinherited.mapping _ _ hpairs) anchor

/-- An event keeps the property if its scalar, where it is one, has it. -/
theorem Building.All.step (h : b.All p k) (hinherited : Inherited p k) {e : Event}
    (hscalar : ∀ style text anchor, e.kind = .scalar style text anchor →
      p (source.scalar e.index style text)) : (b.step source e).All p k := by
  unfold Building.step
  split
  · exact h
  · exact ⟨List.forall_mem_cons.2 ⟨⟨List.forall_mem_nil _, nofun⟩, h.stack⟩, h.anchors, h.root⟩
  · exact ⟨List.forall_mem_cons.2 ⟨List.forall_mem_nil _, h.stack⟩, h.anchors, h.root⟩
  · exact h.close hinherited _
  · exact h.close hinherited _
  · rename_i style text anchor hkind
    exact h.add hinherited (hscalar style text anchor hkind) anchor
  · split
    · rename_i hfound
      obtain ⟨known, hmem⟩ := mem_of_lookup hfound
      exact h.add hinherited (h.anchors _ hmem) 0
    · exact ⟨h.stack, h.anchors, h.root⟩

/-- A tree has what all scalars of its events have and hand on. -/
theorem buildTree_forall (hinherited : Inherited p k) {events : List Event}
    (hscalars : ∀ e ∈ events, ∀ style text anchor, e.kind = .scalar style text anchor →
      p (source.scalar e.index style text))
    {root : Node} (h : buildTree source events = .ok (some root)) : p root := by
  have hrun : ∀ (rest : List Event) {b : Building}, rest ⊆ events → b.All p k →
      (rest.foldl (Building.take source) b).All p k := by
    intro rest
    induction rest with
    | nil => exact fun _ hb => hb
    | cons e rest ih =>
      intro b hsubset hb
      obtain ⟨he, hrest⟩ := List.cons_subset.1 hsubset
      refine ih hrest ?_
      unfold Building.take
      split
      · exact hb
      · exact hb.step hinherited (hscalars e he)
  have hempty : Building.All p k {} := ⟨List.forall_mem_nil _, List.forall_mem_nil _, nofun⟩
  unfold buildTree at h
  simp only at h
  split at h
  · cases h
  · exact (hrun events (List.Subset.refl _) hempty).root root (Except.ok.inj h)

end MessageCatalog.Yaml
