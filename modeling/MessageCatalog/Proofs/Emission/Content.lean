/-
The code of a module depends on what its resource holds, and not on where in a text it was found, nor on
how it was written there.
-/
import MessageCatalog.Proofs.Emission.Print
import MessageCatalog.Proofs.Emission.Verdict
import MessageCatalog.Proofs.Resource.Data

namespace MessageCatalog

/-- A channel whose errors have a cause that does not depend on where the rejected scalar stands. -/
def Diagnostics.PlaceFree {ε : Type} (cause : CompileError → ε) (diagnostics : Diagnostics) : Prop :=
  ∀ filename message literal path code span span',
    cause (diagnostics.reject filename message ⟨literal, path, code, some span'⟩).2 =
      cause (diagnostics.reject filename message ⟨literal, path, code, some span⟩).2

/-- Such a cause is the code of an error, together with the path of a rejected message. -/
example : Diagnostics.full.PlaceFree fun
    | .message _ _ context => (context.code, some context.path)
    | e => (e.code, none) :=
  fun _ _ _ _ _ _ _ => rfl

namespace Emission

section

variable {options : Options}

/-! ## Scalars -/

/-- What is compiled for a scalar does not show where it is, nor the sign of a zero. -/
theorem message?_unsignedZero (s : Scalar) :
    message? options s = message? options (.bare s.value.unsignedZero .origin) := by
  unfold message?
  cases s.value with
  | number d =>
    show (if options.forceStringify then some (numberText d) else none) =
      if options.forceStringify then some (numberText d.unsignedZero) else none
    rw [numberText_unsignedZero]
  | _ => rfl

theorem scalarChunk_alike {s s' : Scalar} (h : s.value.unsignedZero = s'.value.unsignedZero)
    (path : List String) :
    (scalarChunk options path s).Alike (fun _ _ => True) (scalarChunk options path s') := by
  have hmessage : message? options s = message? options s' := by
    rw [message?_unsignedZero s, message?_unsignedZero s', h]
  have hliteral : s.value.literal = s'.value.literal := by
    rw [← s.value.literal_unsignedZero, h, s'.value.literal_unsignedZero]
  rw [scalarChunk_eq, scalarChunk_eq, hmessage, hliteral]
  cases message? options s' with
  | some literal => exact .message trivial literal path
  | none => exact .text s'.value.literal

/-! ## Containers -/

section

variable {same : Scalar → Scalar → Prop} {children children' : List (List Chunk)}
  (h : List.Forall₂ (List.Forall₂ (Chunk.Alike same)) children children')

include h

theorem intercalate_alike (code : String) :
    List.Forall₂ (Chunk.Alike same) ([.text code].intercalate children)
      ([.text code].intercalate children') := by
  induction h with
  | nil => exact .nil
  | cons hfirst hrest ih =>
    rw [intercalate_cons, intercalate_cons]
    refine List.rel_append hfirst ?_
    cases hrest with
    | nil => exact .nil
    | cons => exact .cons (.text code) ih

theorem bracketed_alike (opening closing : String) (level : Nat) :
    List.Forall₂ (Chunk.Alike same) (bracketed opening closing level children)
      (bracketed opening closing level children') := by
  have hinside := intercalate_alike h (separator (level + 1))
  cases h with
  | nil => exact .cons (.text _) .nil
  | cons => exact .cons (.text _) (List.rel_append hinside (.cons (.text _) .nil))

end

/-! ## Nodes -/

mutual

/-- Nodes with the same content have layouts that write the same code. -/
theorem nodeChunks_alike : ∀ {node other : Node}, node.content = other.content → ∀ level path,
    List.Forall₂ (Chunk.Alike fun _ _ => True) (nodeChunks options level path node)
      (nodeChunks options level path other)
  | .mapping pairs _, .mapping others _, h, level, path => by
    rw [nodeChunks, nodeChunks]
    exact bracketed_alike (pairChunks_alike (Content.mapping.inj h) _ _) _ _ _
  | .sequence items _, .sequence others _, h, level, path => by
    rw [nodeChunks, nodeChunks]
    exact bracketed_alike (itemChunks_alike (Content.sequence.inj h) _ _ _) _ _ _
  | .scalar s, .scalar other, h, level, path => by
    rw [nodeChunks, nodeChunks]
    exact .cons (scalarChunk_alike (Content.scalar.inj h) path) .nil
  | .verbatim v, .verbatim other, h, level, path => by
    rw [nodeChunks, nodeChunks]
    exact .cons (.verbatim (Content.verbatim.inj h)) .nil
  | .mapping _ _, .sequence _ _, h, _, _ | .mapping _ _, .scalar _, h, _, _
  | .mapping _ _, .verbatim _, h, _, _ | .sequence _ _, .mapping _ _, h, _, _
  | .sequence _ _, .scalar _, h, _, _ | .sequence _ _, .verbatim _, h, _, _
  | .scalar _, .mapping _ _, h, _, _ | .scalar _, .sequence _ _, h, _, _
  | .scalar _, .verbatim _, h, _, _ | .verbatim _, .mapping _ _, h, _, _
  | .verbatim _, .sequence _ _, h, _, _ | .verbatim _, .scalar _, h, _, _ => by cases h

theorem pairChunks_alike : ∀ {pairs others : List (Key × Node)},
    pairContents pairs = pairContents others → ∀ level path,
    List.Forall₂ (List.Forall₂ (Chunk.Alike fun _ _ => True)) (pairChunks options level path pairs)
      (pairChunks options level path others)
  | [], [], _, _, _ => .nil
  | (key, value) :: rest, (key', value') :: rest', h, level, path => by
    obtain ⟨hpair, hrest⟩ := List.cons.inj h
    obtain ⟨hkey, hvalue⟩ := Prod.mk.inj hpair
    rw [pairChunks, pairChunks, hkey]
    exact .cons (.cons (.text _) (nodeChunks_alike hvalue _ _)) (pairChunks_alike hrest _ _)
  | [], _ :: _, h, _, _ | _ :: _, [], h, _, _ => by cases h

theorem itemChunks_alike : ∀ {items others : List Node},
    itemContents items = itemContents others → ∀ level path index,
    List.Forall₂ (List.Forall₂ (Chunk.Alike fun _ _ => True))
      (itemChunks options level path index items) (itemChunks options level path index others)
  | [], [], _, _, _, _ => .nil
  | item :: rest, item' :: rest', h, level, path, index => by
    obtain ⟨hitem, hrest⟩ := List.cons.inj h
    rw [itemChunks, itemChunks]
    exact .cons (nodeChunks_alike hitem _ _) (itemChunks_alike hrest _ _ _)
  | [], _ :: _, h, _, _, _ | _ :: _, [], h, _, _, _ => by cases h

end

/-! ## The module -/

/--
Documents with the same content are emitted with the same code, or are refused for the same cause, from
whatever texts they are.
-/
theorem emit_congr {ε : Type} {cause : CompileError → ε} {document other : Document}
    {collaborators : Collaborators} (h : document.root.content = other.root.content)
    (hfilename : other.filename = document.filename)
    (hchannel : collaborators.diagnostics.PlaceFree cause) (source source' : String) :
    codeOrCause cause (emit other source' options collaborators) =
      codeOrCause cause (emit document source options collaborators) := by
  refine emit_alike (.cons (.text _)
    (List.rel_append (nodeChunks_alike h _ _) (.cons (.text _) .nil))) ?_ source source'
  rintro s s' - message literal path code
  rw [hfilename]
  exact hchannel document.filename message literal path code s.span s'.span

end

end Emission

end MessageCatalog
