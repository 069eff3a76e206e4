/-
The tree of a resource: the nodes within it, the spans that stand directly inside a node, and what is
left of a tree without its positions.
-/
import MessageCatalog.Resource.Node

namespace MessageCatalog

open MessageCatalog.Text

/-! ## Nodes of a tree -/

/-- What holds of a node as soon as it holds of all its values and items holds of every node. -/
@[elab_as_elim]
theorem Node.by_parts {motive : Node → Prop}
    (mapping : ∀ (pairs : List (Key × Node)) (span : Span), (∀ pair ∈ pairs, motive pair.2) →
      motive (.mapping pairs span))
    (sequence : ∀ (items : List Node) (span : Span), (∀ item ∈ items, motive item) →
      motive (.sequence items span))
    (scalar : ∀ s, motive (.scalar s)) (verbatim : ∀ v, motive (.verbatim v)) : ∀ node, motive node
  | .mapping pairs span => mapping pairs span fun pair _ => by_parts mapping sequence scalar verbatim pair.2
  | .sequence items span => sequence items span fun item _ => by_parts mapping sequence scalar verbatim item
  | .scalar s => scalar s
  | .verbatim v => verbatim v
decreasing_by
  · have hsize := List.sizeOf_lt_of_mem ‹pair ∈ pairs›
    obtain ⟨key, value⟩ := pair
    simp only [Prod.mk.sizeOf_spec, Node.mapping.sizeOf_spec] at hsize ⊢
    omega
  · decreasing_tactic

/-- A node is the root of a tree, or stands within one of its values or items. -/
inductive Node.Within (node : Node) : Node → Prop where
  | root : Within node node
  | value {pairs : List (Key × Node)} {span : Span} {pair : Key × Node} (mem : pair ∈ pairs)
    (within : Within node pair.2) : Within node (.mapping pairs span)
  | item {items : List Node} {span : Span} {item : Node} (mem : item ∈ items)
    (within : Within node item) : Within node (.sequence items span)

/-! ## Spans -/

/-- The spans of a pair: its key's, and its value's behind it. -/
def pairSpans (pair : Key × Node) : List Span := [pair.1.span, pair.2.span]

/-- The spans of the keys, values and items of a node, in order. -/
def Node.innerSpans : Node → List Span
  | .mapping pairs _ => pairs.flatMap pairSpans
  | .sequence items _ => items.map Node.span
  | .scalar _ | .verbatim _ => []

/--
Spans between two offsets that follow one another. None is empty, and there is text in front of each
and behind the last one.
-/
def Spaced (start stop : Nat) : List Span → Prop
  | [] => start < stop
  | x :: xs => start < x.start.offset ∧ x.start.offset < x.stop.offset ∧ Spaced x.stop.offset stop xs

section

variable {start stop : Nat} {x : Span} {xs : List Span}

theorem Spaced.start_lt_stop (h : Spaced start stop xs) : start < stop := by
  induction xs generalizing start with
  | nil => exact h
  | cons x xs ih => exact Nat.lt_trans (Nat.lt_trans h.1 h.2.1) (ih h.2.2)

theorem Spaced.within (h : Spaced start stop xs) (hx : x ∈ xs) :
    start < x.start.offset ∧ x.start.offset < x.stop.offset ∧ x.stop.offset < stop := by
  induction xs generalizing start with
  | nil => cases hx
  | cons y xs ih =>
    obtain ⟨hbefore, hinside, hbehind⟩ := h
    rcases List.mem_cons.1 hx with rfl | hx
    · exact ⟨hbefore, hinside, hbehind.start_lt_stop⟩
    · obtain ⟨hstart, hrest⟩ := ih hbehind hx
      exact ⟨by omega, hrest⟩

/-- Each of the spans ends in front of those behind it. -/
theorem Spaced.pairwise (h : Spaced start stop xs) :
    xs.Pairwise fun a b => a.stop.offset < b.start.offset := by
  induction xs generalizing start with
  | nil => exact .nil
  | cons x xs ih => exact .cons (fun y hy => (h.2.2.within hy).1) (ih h.2.2)

end

/-! ## Without positions -/

mutual

/-- A tree with every position at the origin. -/
def Node.unplaced : Node → Node
  | .mapping pairs _ => .mapping (unplacedPairs pairs) .origin
  | .sequence items _ => .sequence (unplacedItems items) .origin
  | .scalar s => .scalar ⟨s.value, .origin, .origin⟩
  | .verbatim v => .verbatim ⟨v.code, .origin⟩

def unplacedPairs : List (Key × Node) → List (Key × Node)
  | [] => []
  | (key, value) :: rest => (⟨key.text, .origin⟩, value.unplaced) :: unplacedPairs rest

def unplacedItems : List Node → List Node
  | [] => []
  | item :: rest => item.unplaced :: unplacedItems rest

end

/-- A pair with every position at the origin. -/
def unplacedPair (pair : Key × Node) : Key × Node := (⟨pair.1.text, .origin⟩, pair.2.unplaced)

theorem unplacedPairs_eq (pairs : List (Key × Node)) : unplacedPairs pairs = pairs.map unplacedPair := by
  induction pairs with
  | nil => rfl
  | cons pair pairs ih => rw [unplacedPairs, ih]; rfl

theorem unplacedItems_eq (items : List Node) : unplacedItems items = items.map Node.unplaced := by
  induction items with
  | nil => rfl
  | cons item items ih => rw [unplacedItems, ih]; rfl

end MessageCatalog
