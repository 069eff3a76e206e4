/-
Composing a YAML document. A document is a serial tree, whose events come in the order in which it is
written down; composing it puts a copy of the node of its anchor in the place of each alias. Taking the
events one by one, with the open collections on a stack, builds just the composed tree, or is refused
just where the document cannot be composed.
-/
import MessageCatalog.Proofs.Error
import MessageCatalog.Yaml.Resource

namespace MessageCatalog.Yaml

/-! ## Serial trees -/

/-- A node as a document writes it down, with the places of its events. -/
inductive SerialNode where
  | scalar (index : Nat) (style : ScalarStyle) (text : String) (anchor : AnchorId)
  | alias (index : Nat) (anchor : AnchorId)
  | sequence (start : Nat) (anchor : AnchorId) (items : List SerialNode) (stop : Nat)
  | mapping (start : Nat) (anchor : AnchorId) (pairs : List (SerialNode × SerialNode)) (stop : Nat)

mutual

def SerialNode.events : SerialNode → List Event
  | .scalar index style text anchor => [⟨index, .scalar style text anchor⟩]
  | .alias index anchor => [⟨index, .alias anchor⟩]
  | .sequence start anchor items stop =>
    ⟨start, .sequenceStart anchor⟩ :: (itemEvents items ++ [⟨stop, .sequenceEnd⟩])
  | .mapping start anchor pairs stop =>
    ⟨start, .mappingStart anchor⟩ :: (pairEvents pairs ++ [⟨stop, .mappingEnd⟩])

def itemEvents : List SerialNode → List Event
  | [] => []
  | item :: rest => item.events ++ itemEvents rest

/-- Keys and values alternate. -/
def pairEvents : List (SerialNode × SerialNode) → List Event
  | [] => []
  | (key, value) :: rest => key.events ++ (value.events ++ pairEvents rest)

end

/-! ## Composing -/

/-- The nodes of the anchors that are complete, the latest first. -/
abbrev Known := List (AnchorId × Node)

/-- The key that a node is, where it can be one. -/
def asKey (node : Node) : Except Refusal Key :=
  match keyOf? node with
  | some key => .ok key
  | none => .error (notAKey node)

mutual

/--
The node that is written down behind known anchors, and the anchors that are known behind it. The
parts of a document are met in the order of their events, so a refusal is about the first fault.
-/
def SerialNode.compose (source : Source) (known : Known) :
    SerialNode → Except Refusal (Node × Known)
  | .scalar index style text anchor =>
    let node := source.scalar index style text
    .ok (node, anchored anchor node known)
  | .alias index anchor =>
    match known.lookup anchor with
    | some node => .ok (node, known)
    | none => .error (source.unknownAlias index)
  | .sequence start anchor items stop => do
    let (nodes, known) ← composeItems source known items
    let node : Node := .sequence nodes ⟨source.position start, source.position stop⟩
    return (node, anchored anchor node known)
  | .mapping start anchor pairs stop => do
    let (nodes, known) ← composePairs source known pairs
    let node : Node := .mapping nodes ⟨source.position start, source.position stop⟩
    return (node, anchored anchor node known)

def composeItems (source : Source) (known : Known) :
    List SerialNode → Except Refusal (List Node × Known)
  | [] => .ok ([], known)
  | item :: rest => do
    let (node, known) ← item.compose source known
    let (nodes, known) ← composeItems source known rest
    return (node :: nodes, known)

def composePairs (source : Source) (known : Known) :
    List (SerialNode × SerialNode) → Except Refusal (List (Key × Node) × Known)
  | [] => .ok ([], known)
  | (key, value) :: rest => do
    let (node, known) ← key.compose source known
    let key ← asKey node
    let (value, known) ← value.compose source known
    let (nodes, known) ← composePairs source known rest
    return ((key, value) :: nodes, known)

end

/-! ## Documents that can be composed -/

/-- The anchors that are complete, the latest first, and whether each stands for a scalar. -/
abbrev Kinds := List (AnchorId × Bool)

mutual

/-- The anchors that are complete behind a node. -/
def SerialNode.kinds (before : Kinds) : SerialNode → Kinds
  | .scalar _ _ _ anchor => anchored anchor true before
  | .alias _ _ => before
  | .sequence _ anchor items _ => anchored anchor false (itemKinds before items)
  | .mapping _ anchor pairs _ => anchored anchor false (pairKinds before pairs)

def itemKinds (before : Kinds) : List SerialNode → Kinds
  | [] => before
  | item :: rest => itemKinds (item.kinds before) rest

def pairKinds (before : Kinds) : List (SerialNode × SerialNode) → Kinds
  | [] => before
  | (key, value) :: rest => pairKinds (value.kinds (key.kinds before)) rest

end

/-- A scalar, or an alias of one. -/
def SerialNode.IsKey (before : Kinds) : SerialNode → Prop
  | .scalar _ _ _ _ => True
  | .alias _ anchor => before.lookup anchor = some true
  | _ => False

mutual

/-- All keys are scalars or aliases of scalars, and all aliases name anchors that are complete. -/
def SerialNode.Composable (before : Kinds) : SerialNode → Prop
  | .scalar _ _ _ _ => True
  | .alias _ anchor => ∃ isScalar, before.lookup anchor = some isScalar
  | .sequence _ _ items _ => ItemsComposable before items
  | .mapping _ _ pairs _ => PairsComposable before pairs

def ItemsComposable (before : Kinds) : List SerialNode → Prop
  | [] => True
  | item :: rest => item.Composable before ∧ ItemsComposable (item.kinds before) rest

def PairsComposable (before : Kinds) : List (SerialNode × SerialNode) → Prop
  | [] => True
  | (key, value) :: rest =>
    (key.Composable before ∧ key.IsKey before) ∧ value.Composable (key.kinds before) ∧
      PairsComposable (value.kinds (key.kinds before)) rest

end

/-- What is known of anchors when their nodes are forgotten. -/
def Known.kinds (known : Known) : Kinds := known.map fun a => (a.1, (keyOf? a.2).isSome)

theorem Known.lookup_kinds (anchor : AnchorId) : ∀ known : Known,
    known.kinds.lookup anchor = (known.lookup anchor).map fun node => (keyOf? node).isSome
  | [] => rfl
  | (id, node) :: rest => by
    show List.lookup anchor ((id, (keyOf? node).isSome) :: Known.kinds rest) = _
    rw [List.lookup_cons, List.lookup_cons]
    cases anchor == id with
    | true => rfl
    | false => exact lookup_kinds anchor rest

theorem Known.kinds_anchored (anchor : AnchorId) (node : Node) (known : Known) :
    Known.kinds (anchored anchor node known) = anchored anchor (keyOf? node).isSome known.kinds := by
  unfold anchored
  split <;> rfl

section

variable {source : Source}

mutual

/-- A node can be composed, or it is refused. -/
theorem SerialNode.compose_cases : ∀ (t : SerialNode) (known : Known),
    (∃ node behind, t.compose source known = .ok (node, behind) ∧ t.Composable known.kinds ∧
      behind.kinds = t.kinds known.kinds ∧ (t.IsKey known.kinds ↔ (keyOf? node).isSome = true)) ∨
    (∃ r, t.compose source known = .error r) ∧ ¬ t.Composable known.kinds
  | .scalar index style text anchor, known =>
    .inl ⟨_, _, rfl, trivial, Known.kinds_anchored _ _ _, ⟨fun _ => rfl, fun _ => trivial⟩⟩
  | .alias index anchor, known => by
    have hlookup := Known.lookup_kinds anchor known
    cases hknown : known.lookup anchor with
    | none =>
      rw [hknown] at hlookup
      refine .inr ⟨⟨_, by rw [SerialNode.compose, hknown]⟩, ?_⟩
      rintro ⟨isScalar, h⟩
      cases hlookup.symm.trans h
    | some node =>
      rw [hknown] at hlookup
      refine .inl ⟨node, known, by rw [SerialNode.compose, hknown], ⟨_, hlookup⟩, rfl, ?_⟩
      rw [SerialNode.IsKey, hlookup, Option.map_some, Option.some_inj]
  | .sequence start anchor items stop, known => by
    rcases composeItems_cases items known with ⟨nodes, behind, hnodes, hitems, hkinds⟩ | ⟨⟨r, hr⟩, hitems⟩
    · refine .inl ⟨_, _, by rw [SerialNode.compose, hnodes]; rfl, hitems, ?_,
        iff_of_false id ?_⟩
      · rw [Known.kinds_anchored, hkinds]
        rfl
      · exact Bool.false_ne_true
    · exact .inr ⟨⟨r, by rw [SerialNode.compose, hr]; rfl⟩, hitems⟩
  | .mapping start anchor pairs stop, known => by
    rcases composePairs_cases pairs known with ⟨nodes, behind, hnodes, hpairs, hkinds⟩ | ⟨⟨r, hr⟩, hpairs⟩
    · refine .inl ⟨_, _, by rw [SerialNode.compose, hnodes]; rfl, hpairs, ?_,
        iff_of_false id ?_⟩
      · rw [Known.kinds_anchored, hkinds]
        rfl
      · exact Bool.false_ne_true
    · exact .inr ⟨⟨r, by rw [SerialNode.compose, hr]; rfl⟩, hpairs⟩

theorem composeItems_cases : ∀ (items : List SerialNode) (known : Known),
    (∃ nodes behind, composeItems source known items = .ok (nodes, behind) ∧
      ItemsComposable known.kinds items ∧ behind.kinds = itemKinds known.kinds items) ∨
    (∃ r, composeItems source known items = .error r) ∧ ¬ ItemsComposable known.kinds items
  | [], known => .inl ⟨[], known, rfl, trivial, rfl⟩
  | item :: rest, known => by
    rcases item.compose_cases known with ⟨node, between, hnode, hitem, hbetween, -⟩ | ⟨⟨r, hr⟩, hitem⟩
    · have hcons : composeItems source known (item :: rest) =
          composeItems source between rest >>= fun (nodes, behind) => .ok (node :: nodes, behind) := by
        rw [composeItems, hnode]
        rfl
      rcases composeItems_cases rest between with
        ⟨nodes, behind, hnodes, hrest, hbehind⟩ | ⟨⟨r, hr⟩, hrest⟩
      · rw [hbetween] at hrest hbehind
        exact .inl ⟨_, _, by rw [hcons, hnodes]; rfl, ⟨hitem, hrest⟩, hbehind⟩
      · rw [hbetween] at hrest
        exact .inr ⟨⟨r, by rw [hcons, hr]; rfl⟩, fun h => hrest h.2⟩
    · exact .inr ⟨⟨r, by rw [composeItems, hr]; rfl⟩, fun h => hitem h.1⟩

theorem composePairs_cases : ∀ (pairs : List (SerialNode × SerialNode)) (known : Known),
    (∃ nodes behind, composePairs source known pairs = .ok (nodes, behind) ∧
      PairsComposable known.kinds pairs ∧ behind.kinds = pairKinds known.kinds pairs) ∨
    (∃ r, composePairs source known pairs = .error r) ∧ ¬ PairsComposable known.kinds pairs
  | [], known => .inl ⟨[], known, rfl, trivial, rfl⟩
  | (key, value) :: rest, known => by
    rcases key.compose_cases known with ⟨node, between, hnode, hkey, hbetween, hiskey⟩ | ⟨⟨r, hr⟩, hkey⟩
    · have hcons : composePairs source known ((key, value) :: rest) =
          asKey node >>= fun key => value.compose source between >>= fun (value, after) =>
            composePairs source after rest >>= fun (nodes, behind) =>
              .ok ((key, value) :: nodes, behind) := by
        rw [composePairs, hnode]
        rfl
      cases hname : keyOf? node with
      | none =>
        have hasKey : asKey node = .error (notAKey node) := by rw [asKey, hname]
        rw [hname] at hiskey
        exact .inr ⟨⟨_, by rw [hcons, hasKey]; rfl⟩, fun h => Bool.false_ne_true (hiskey.1 h.1.2)⟩
      | some name =>
        have hasKey : asKey node = .ok name := by rw [asKey, hname]
        have hkey : key.Composable known.kinds ∧ key.IsKey known.kinds :=
          ⟨hkey, hiskey.2 (by rw [hname]; rfl)⟩
        rw [hasKey] at hcons
        rcases value.compose_cases between with
          ⟨written, after, hwritten, hvalue, hafter, -⟩ | ⟨⟨r, hr⟩, hvalue⟩
        · rw [hbetween] at hvalue hafter
          have hcons : composePairs source known ((key, value) :: rest) =
              composePairs source after rest >>= fun (nodes, behind) =>
                .ok ((name, written) :: nodes, behind) := by
            rw [hcons]
            show value.compose source between >>= _ = _
            rw [hwritten]
            rfl
          rcases composePairs_cases rest after with
            ⟨nodes, behind, hnodes, hrest, hbehind⟩ | ⟨⟨r, hr⟩, hrest⟩
          · rw [hafter] at hrest hbehind
            exact .inl ⟨_, _, by rw [hcons, hnodes]; rfl, ⟨hkey, hvalue, hrest⟩, hbehind⟩
          · rw [hafter] at hrest
            exact .inr ⟨⟨r, by rw [hcons, hr]; rfl⟩, fun h => hrest h.2.2⟩
        · rw [hbetween] at hvalue
          refine .inr ⟨⟨r, ?_⟩, fun h => hvalue h.2.1⟩
          rw [hcons]
          show value.compose source between >>= _ = _
          rw [hr]
          rfl
    · exact .inr ⟨⟨r, by rw [composePairs, hr]; rfl⟩, fun h => hkey h.1.1⟩

end

end

/-! ## Taking events -/

section

variable {source : Source} {b : Building}

/-- Nothing is taken behind the first document, or behind what is refused. -/
theorem Building.foldl_done (h : b.isDone = true) (events : List Event) :
    events.foldl (Building.take source) b = b := by
  induction events with
  | nil => rfl
  | cons e rest ih => rw [List.foldl_cons, Building.take, if_pos h, ih]

theorem Building.take_open (h : b.isDone = false) (e : Event) : b.take source e = b.step source e := by
  rw [Building.take, if_neg (Bool.eq_false_iff.1 h)]

theorem Building.refusal_open (h : b.isDone = false) : b.refusal = none := by
  unfold isDone at h
  cases hrefusal : b.refusal with
  | none => rfl
  | some r =>
    rw [hrefusal] at h
    cases h

/-- A node is added behind its anchor. -/
theorem Building.add_anchored (b : Building) (node : Node) (anchor : AnchorId) :
    b.add node anchor = { b with anchors := anchored anchor node b.anchors }.add node 0 := rfl

section

variable {rest : List Frame} {known : Known} {root : Option Node} {refusal : Option Refusal}
  {start : Text.Position} {anchor : AnchorId}

theorem Building.close_sequence (nodes : List Node) (stop : Text.Position) :
    Building.close ⟨.sequence start anchor (#[] ++ nodes.toArray) :: rest, known, root, refusal⟩ stop =
      Building.add ⟨rest, known, root, refusal⟩ (.sequence nodes ⟨start, stop⟩) anchor := by
  simp [Building.close]

theorem Building.close_mapping (nodes : List (Key × Node)) (stop : Text.Position) :
    Building.close ⟨.mapping start anchor (#[] ++ nodes.toArray) none :: rest, known, root, refusal⟩ stop =
      Building.add ⟨rest, known, root, refusal⟩ (.mapping nodes ⟨start, stop⟩) anchor := by
  simp [Building.close]

end

/-! ## Building what is composed -/

/-- What is built is what an answer leads to; a refusal stays, and leaves the root as it was. -/
def Reaches {α : Type} (root : Option Node) (answer : Except Refusal α) (next : α → Building)
    (last : Building) : Prop :=
  match answer with
  | .ok a => last = next a
  | .error r => last.refusal = some r ∧ last.root = root

section

variable {α β : Type} {root : Option Node} {answer : Except Refusal α} {next : α → Building}
  {last : Building}

theorem Reaches.bind {f : α → Except Refusal β} {next' : β → Building} {events : List Event}
    (h : Reaches root answer next last)
    (hf : ∀ a, Reaches root (f a) next' (events.foldl (Building.take source) (next a))) :
    Reaches root (answer >>= f) next' (events.foldl (Building.take source) last) := by
  cases answer with
  | ok a =>
    obtain rfl : last = next a := h
    exact hf a
  | error r =>
    obtain ⟨hrefusal, hroot⟩ := h
    have hdone : last.isDone = true := by rw [Building.isDone, hrefusal]; rfl
    rw [Building.foldl_done hdone]
    exact ⟨hrefusal, hroot⟩

theorem Reaches.map {next' : β → Building} (g : α → β) (h : Reaches root answer next last)
    (hnext : ∀ a, next a = next' (g a)) : Reaches root (answer >>= fun a => .ok (g a)) next' last := by
  cases answer with
  | ok a => exact Eq.trans h (hnext a)
  | error r => exact h

end

/-- A node that is not a key is refused where a key is awaited. -/
theorem asKey_reaches {start : Text.Position} {anchor : AnchorId} {pairs : Array (Key × Node)}
    {rest : List Frame} {known : Known} {root : Option Node} (node : Node) :
    Reaches root (asKey node) (fun key => ⟨.mapping start anchor pairs (some key) :: rest, known, root, none⟩)
      (Building.add ⟨.mapping start anchor pairs none :: rest, known, root, none⟩ node 0) := by
  unfold asKey
  cases hkey : keyOf? node with
  | some key =>
    simp only [Reaches, Building.add, hkey]
    rfl
  | none => simp [Reaches, Building.add, hkey]

mutual

/-- The events of a node add the node that is composed, or they are refused as it is. -/
theorem SerialNode.reaches : ∀ (t : SerialNode) {b : Building}, b.isDone = false →
    Reaches b.root (t.compose source b.anchors)
      (fun (node, known) => { b with anchors := known }.add node 0)
      (t.events.foldl (Building.take source) b)
  | .scalar index style text anchor, b, h => by
    show b.take source _ = _
    rw [Building.take_open h]
    exact b.add_anchored _ _
  | .alias index anchor, b, h => by
    show Reaches _ _ _ (b.take source _)
    rw [Building.take_open h, Building.step, SerialNode.compose]
    simp only
    cases b.anchors.lookup anchor with
    | some node => rfl
    | none => exact ⟨rfl, rfl⟩
  | .sequence start anchor items stop, b, h => by
    have hitems := @itemEvents_reaches items (source.position start) anchor #[] b.stack b.anchors b.root
    rw [SerialNode.events, List.foldl_cons, Building.take_open h, List.foldl_append, Building.step,
      Building.refusal_open h, SerialNode.compose]
    refine hitems.bind fun (nodes, known) => ?_
    -- the end of the sequence adds it below what was open around it
    rw [List.foldl_cons, Building.take_open (by simp [Building.isDone])]
    exact (Building.close_sequence _ _).trans (Building.add_anchored _ _ _)
  | .mapping start anchor pairs stop, b, h => by
    have hpairs := @pairEvents_reaches pairs (source.position start) anchor #[] b.stack b.anchors b.root
    rw [SerialNode.events, List.foldl_cons, Building.take_open h, List.foldl_append, Building.step,
      Building.refusal_open h, SerialNode.compose]
    refine hpairs.bind fun (nodes, known) => ?_
    rw [List.foldl_cons, Building.take_open (by simp [Building.isDone])]
    exact (Building.close_mapping _ _).trans (Building.add_anchored _ _ _)

theorem itemEvents_reaches : ∀ (items : List SerialNode) {start : Text.Position} {anchor : AnchorId}
    {before : Array Node} {rest : List Frame} {known : Known} {root : Option Node},
    Reaches root (composeItems source known items)
      (fun (nodes, behind) => ⟨.sequence start anchor (before ++ nodes.toArray) :: rest, behind, root, none⟩)
      ((itemEvents items).foldl (Building.take source)
        ⟨.sequence start anchor before :: rest, known, root, none⟩)
  | [], _, _, _, _, _, _ => by
    show _ = _
    simp
    rfl
  | item :: others, start, anchor, before, rest, known, root => by
    have hitem := @SerialNode.reaches item ⟨.sequence start anchor before :: rest, known, root, none⟩
      (by simp [Building.isDone])
    rw [itemEvents, List.foldl_append, composeItems]
    refine hitem.bind fun (node, between) => ?_
    refine (@itemEvents_reaches others start anchor (before.push node) rest between root).map _ ?_
    simp

theorem pairEvents_reaches : ∀ (pairs : List (SerialNode × SerialNode)) {start : Text.Position}
    {anchor : AnchorId} {before : Array (Key × Node)} {rest : List Frame} {known : Known}
    {root : Option Node},
    Reaches root (composePairs source known pairs)
      (fun (nodes, behind) =>
        ⟨.mapping start anchor (before ++ nodes.toArray) none :: rest, behind, root, none⟩)
      ((pairEvents pairs).foldl (Building.take source)
        ⟨.mapping start anchor before none :: rest, known, root, none⟩)
  | [], _, _, _, _, _, _ => by
    show _ = _
    simp
    rfl
  | (key, value) :: others, start, anchor, before, rest, known, root => by
    have hkey := @SerialNode.reaches key ⟨.mapping start anchor before none :: rest, known, root, none⟩
      (by simp [Building.isDone])
    rw [pairEvents, List.foldl_append, composePairs]
    refine hkey.bind fun (node, between) => ?_
    refine (asKey_reaches node).bind fun name => ?_
    have hvalue := @SerialNode.reaches value
      ⟨.mapping start anchor before (some name) :: rest, between, root, none⟩
      (by simp [Building.isDone])
    rw [List.foldl_append]
    refine hvalue.bind fun (written, after) => ?_
    refine (@pairEvents_reaches others start anchor (before.push (name, written)) rest after root).map _ ?_
    simp

end

/-! ## Documents -/

end

end MessageCatalog.Yaml
