/-
The messages of a layout: the scalars that are compiled, in document order, each with its literal and
its own path. Which they are, and what is written around them, is decided by the tree and by whether
every scalar is to be a string; no other option has a say in it.
-/
import MessageCatalog.Proofs.Emission.Print
import MessageCatalog.Proofs.Script.Leaf

namespace MessageCatalog.Emission

/-! ## What is found in a layout -/

def Chunk.leaf? : Chunk → Option Leaf
  | .message scalar literal path => some ⟨scalar, literal, path⟩
  | _ => none

def Chunk.verbatim? : Chunk → Option Verbatim
  | .verbatim v => some v
  | _ => none

section

variable {β : Type} {f : Chunk → Option β}

theorem filterMap_intercalate {sep : Chunk} (hsep : f sep = none) : ∀ children : List (List Chunk),
    ([sep].intercalate children).filterMap f = children.flatMap (·.filterMap f)
  | [] => rfl
  | first :: rest => by
    rw [intercalate_cons, List.filterMap_append, List.flatMap_cons]
    congr 1
    split
    · rename_i h
      rw [h]
      rfl
    · rw [List.singleton_append, List.filterMap_cons_none hsep, filterMap_intercalate hsep rest]

/-- Brackets and separators add nothing to what is found in the children. -/
theorem filterMap_bracketed (hf : ∀ code, f (.text code) = none) (opening closing : String)
    (level : Nat) (children : List (List Chunk)) :
    (bracketed opening closing level children).filterMap f = children.flatMap (·.filterMap f) := by
  unfold bracketed
  split
  · rename_i h
    rw [h, List.filterMap_cons_none (hf _)]
    rfl
  · rw [List.filterMap_cons_none (hf _), List.filterMap_append, filterMap_intercalate (hf _),
      List.filterMap_cons_none (hf _), List.filterMap_nil, List.append_nil]

theorem filterMap_moduleChunks (hf : ∀ code, f (.text code) = none) (options : Options)
    (bridgePayload : Option String) (root : Node) :
    (moduleChunks options bridgePayload root).filterMap f =
      (nodeChunks options (baseLevel options) [] root).filterMap f := by
  rw [moduleChunks, List.filterMap_cons_none (hf _), List.filterMap_append,
    List.filterMap_cons_none (hf _), List.filterMap_nil, List.append_nil]

end

/-! ## Compiled leaves -/

section

variable (options : Options)

mutual

/-- The scalars of a node that are compiled, in document order, each with the path it is found at. -/
def compiledLeaves (path : List String) : Node → List Leaf
  | .mapping pairs _ => compiledPairLeaves path pairs
  | .sequence items _ => compiledItemLeaves path 0 items
  | .scalar s => (message? options s).toList.map (⟨s, ·, path⟩)
  | .verbatim _ => []

def compiledPairLeaves (path : List String) : List (Key × Node) → List Leaf
  | [] => []
  | (key, value) :: rest =>
    compiledLeaves (path ++ [key.text]) value ++ compiledPairLeaves path rest

def compiledItemLeaves (path : List String) (index : Nat) : List Node → List Leaf
  | [] => []
  | item :: rest =>
    compiledLeaves (path ++ [toString index]) item ++ compiledItemLeaves path (index + 1) rest

end

theorem scalarChunk_leaf (path : List String) (s : Scalar) :
    [scalarChunk options path s].filterMap Chunk.leaf? =
      (message? options s).toList.map (⟨s, ·, path⟩) := by
  rw [scalarChunk_eq]
  cases message? options s <;> rfl

mutual

/-- The messages of a node's layout are its compiled leaves. -/
theorem nodeChunks_compiled : ∀ (node : Node) (level : Nat) (path : List String),
    (nodeChunks options level path node).filterMap Chunk.leaf? = compiledLeaves options path node
  | .mapping pairs _, level, path => by
    rw [nodeChunks, filterMap_bracketed (fun _ => rfl), pairChunks_compiled pairs, compiledLeaves]
  | .sequence items _, level, path => by
    rw [nodeChunks, filterMap_bracketed (fun _ => rfl), itemChunks_compiled items, compiledLeaves]
  | .verbatim v, level, path => rfl
  | .scalar s, level, path => by
    rw [nodeChunks, scalarChunk_leaf, compiledLeaves]

theorem pairChunks_compiled : ∀ (pairs : List (Key × Node)) (level : Nat) (path : List String),
    (pairChunks options level path pairs).flatMap (·.filterMap Chunk.leaf?) =
      compiledPairLeaves options path pairs
  | [], level, path => rfl
  | (key, value) :: rest, level, path => by
    rw [pairChunks, List.flatMap_cons, List.filterMap_cons_none rfl, nodeChunks_compiled value,
      pairChunks_compiled rest, compiledPairLeaves]

theorem itemChunks_compiled : ∀ (items : List Node) (level : Nat) (path : List String) (index : Nat),
    (itemChunks options level path index items).flatMap (·.filterMap Chunk.leaf?) =
      compiledItemLeaves options path index items
  | [], level, path, index => rfl
  | item :: rest, level, path, index => by
    rw [itemChunks, List.flatMap_cons, nodeChunks_compiled item, itemChunks_compiled rest,
      compiledItemLeaves]

end

theorem moduleChunks_compiled (bridgePayload : Option String) (root : Node) :
    (moduleChunks options bridgePayload root).filterMap Chunk.leaf? =
      compiledLeaves options [] root := by
  rw [filterMap_moduleChunks (fun _ => rfl), nodeChunks_compiled]

variable {options}

mutual

/-- The strings of a node are compiled, and nothing else unless every scalar is made a string. -/
theorem compiledLeaves_eq (hforce : options.forceStringify = false) :
    ∀ (node : Node) (path : List String), compiledLeaves options path node = node.leaves path
  | .mapping pairs _, path => by
    rw [compiledLeaves, Node.leaves, compiledPairLeaves_eq hforce pairs]
  | .sequence items _, path => by
    rw [compiledLeaves, Node.leaves, compiledItemLeaves_eq hforce items]
  | .verbatim v, path => rfl
  | .scalar s, path => by
    rw [compiledLeaves, Node.leaves, message?, hforce]
    cases s.value <;> rfl

theorem compiledPairLeaves_eq (hforce : options.forceStringify = false) :
    ∀ (pairs : List (Key × Node)) (path : List String),
      compiledPairLeaves options path pairs = pairLeaves path pairs
  | [], path => rfl
  | (key, value) :: rest, path => by
    rw [compiledPairLeaves, compiledLeaves_eq hforce value, compiledPairLeaves_eq hforce rest,
      pairLeaves]

theorem compiledItemLeaves_eq (hforce : options.forceStringify = false) :
    ∀ (items : List Node) (path : List String) (index : Nat),
      compiledItemLeaves options path index items = itemLeaves path index items
  | [], path, index => rfl
  | item :: rest, path, index => by
    rw [compiledItemLeaves, compiledLeaves_eq hforce item, compiledItemLeaves_eq hforce rest,
      itemLeaves]

end

theorem moduleChunks_leaves {bridgePayload : Option String} (hforce : options.forceStringify = false)
    (root : Node) :
    (moduleChunks options bridgePayload root).filterMap Chunk.leaf? = root.leaves [] :=
  (moduleChunks_compiled options bridgePayload root).trans (compiledLeaves_eq hforce root [])

end

/-! ## What a layout depends on -/

section

variable {options other : Options}

theorem scalarChunk_congr (h : options.forceStringify = other.forceStringify) (path : List String)
    (s : Scalar) : scalarChunk options path s = scalarChunk other path s := by
  unfold scalarChunk
  rw [h]

mutual

theorem nodeChunks_congr (h : options.forceStringify = other.forceStringify) :
    ∀ (node : Node) (level : Nat) (path : List String),
      nodeChunks options level path node = nodeChunks other level path node
  | .mapping pairs _, level, path => by
    rw [nodeChunks, nodeChunks, pairChunks_congr h pairs]
  | .sequence items _, level, path => by
    rw [nodeChunks, nodeChunks, itemChunks_congr h items]
  | .verbatim v, level, path => rfl
  | .scalar s, level, path => by
    rw [nodeChunks, nodeChunks, scalarChunk_congr h]

theorem pairChunks_congr (h : options.forceStringify = other.forceStringify) :
    ∀ (pairs : List (Key × Node)) (level : Nat) (path : List String),
      pairChunks options level path pairs = pairChunks other level path pairs
  | [], level, path => rfl
  | (key, value) :: rest, level, path => by
    rw [pairChunks, pairChunks, nodeChunks_congr h value, pairChunks_congr h rest]

theorem itemChunks_congr (h : options.forceStringify = other.forceStringify) :
    ∀ (items : List Node) (level : Nat) (path : List String) (index : Nat),
      itemChunks options level path index items = itemChunks other level path index items
  | [], level, path, index => rfl
  | item :: rest, level, path, index => by
    rw [itemChunks, itemChunks, nodeChunks_congr h item, itemChunks_congr h rest]

end

theorem compiledLeaves_congr (h : options.forceStringify = other.forceStringify) (path : List String)
    (node : Node) : compiledLeaves options path node = compiledLeaves other path node := by
  rw [← nodeChunks_compiled options node 0 path, nodeChunks_congr h, nodeChunks_compiled]

/-- Options that agree about scalars and about what stands around the resource have one layout. -/
theorem moduleChunks_congr (h : options.forceStringify = other.forceStringify)
    (hlevel : baseLevel options = baseLevel other) (hprelude : preludeText options = preludeText other)
    (hepilogue : epilogueText options = epilogueText other) (bridgePayload : Option String)
    (root : Node) : moduleChunks options bridgePayload root = moduleChunks other bridgePayload root := by
  rw [moduleChunks, moduleChunks, hlevel, hprelude, hepilogue, nodeChunks_congr h]

end

end MessageCatalog.Emission
