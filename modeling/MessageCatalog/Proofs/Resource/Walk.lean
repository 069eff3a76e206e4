/-
What a walk calls. The walk of a document is a run of its visitor over the list of all events: it goes
through them in their order and ends at the first one that the visitor refuses. That list is well
bracketed, and the names of the events with the keys and the contents of leaves are a text from which
the tree can be read back.
-/
import MessageCatalog.Proofs.Error
import MessageCatalog.Proofs.Resource.Tree
import MessageCatalog.Resource.Walk

namespace MessageCatalog

open MessageCatalog.Text

/-! ## Runs of a visitor -/

section

variable {σ ε : Type} (visit : Visitor σ ε)

/-- A visitor answers events one after the other. -/
def Visitor.run (events : List WalkEvent) (s : σ) : Except ε σ :=
  events.foldlM (fun s event => visit event s) s

@[simp] theorem Visitor.run_nil : visit.run [] = pure := rfl

@[simp] theorem Visitor.run_cons (event : WalkEvent) (events : List WalkEvent) :
    visit.run (event :: events) = fun s => visit event s >>= visit.run events := rfl

theorem Visitor.run_cons_ok {event : WalkEvent} {s s' : σ} (h : visit event s = .ok s')
    (events : List WalkEvent) : visit.run (event :: events) s = visit.run events s' := by
  show visit event s >>= _ = _
  rw [h]
  rfl

theorem Visitor.run_cons_error {event : WalkEvent} {s : σ} {e : ε} (h : visit event s = .error e)
    (events : List WalkEvent) : visit.run (event :: events) s = .error e := by
  show visit event s >>= _ = _
  rw [h]
  rfl

@[simp] theorem Visitor.run_append (events more : List WalkEvent) :
    visit.run (events ++ more) = fun s => visit.run events s >>= visit.run more := by
  funext s
  rw [Visitor.run, List.foldlM_append]
  rfl

mutual

theorem walkNode_eq (s : σ) : ∀ node : Node, walkNode visit node s = visit.run node.events s
  | .mapping pairs span => by
    simp [walkNode, Node.events, walkPairs_eq]
  | .sequence items span => by
    simp [walkNode, Node.events, walkItems_eq]
  | .scalar scalar => by simp [walkNode, Node.events]
  | .verbatim code => by simp [walkNode, Node.events]

theorem walkPairs_eq (s : σ) : ∀ pairs : List (Key × Node),
    walkPairs visit pairs s = visit.run (pairEvents pairs) s
  | [] => rfl
  | (key, value) :: rest => by
    simp [walkPairs, pairEvents, walkNode_eq, walkPairs_eq]

theorem walkItems_eq (index : Nat) (s : σ) : ∀ items : List Node,
    walkItems visit index items s = visit.run (itemEvents index items) s
  | [] => rfl
  | item :: rest => by
    simp [walkItems, itemEvents, walkNode_eq, walkItems_eq]

end

theorem Document.walk_eq (document : Document) (s : σ) :
    document.walk visit s = visit.run document.events s := by
  simp [Document.walk, Document.events, walkNode_eq]

end

/-! ## Calls -/

section

variable {σ ε : Type} (visit : Visitor σ ε)

/-- A visitor answers each of some events with a new state, the last of which is given. -/
inductive Accepts : σ → List WalkEvent → σ → Prop where
  | nil (s : σ) : Accepts s [] s
  | cons {s s₁ s₂ : σ} {event : WalkEvent} {events : List WalkEvent} (accepts : visit event s = .ok s₁)
    (behind : Accepts s₁ events s₂) : Accepts s (event :: events) s₂

/-- A visitor accepts the events in front of one and refuses that one. -/
def FailsAt (s : σ) (front : List WalkEvent) (event : WalkEvent) (e : ε) : Prop :=
  ∃ stuck, Accepts visit s front stuck ∧ visit event stuck = .error e

/-- The visitor with a list of the events that it was called with, a refused one included. -/
def Visitor.noting : Visitor (σ × List WalkEvent) (ε × List WalkEvent) := fun event (s, calls) =>
  match visit event s with
  | .ok s => .ok (s, calls ++ [event])
  | .error e => .error (e, calls ++ [event])

variable {visit} {s s' : σ} {e : ε} {event : WalkEvent} {events calls calls' : List WalkEvent}

theorem noting_ok (h : visit event s = .ok s') :
    visit.noting event (s, calls) = .ok (s', calls ++ [event]) := by
  simp [Visitor.noting, h]

theorem noting_error (h : visit event s = .error e) :
    visit.noting event (s, calls) = .error (e, calls ++ [event]) := by
  simp [Visitor.noting, h]

theorem accepts_nil_iff : Accepts visit s [] s' ↔ s = s' := by
  constructor
  · rintro ⟨⟩
    rfl
  · rintro rfl
    exact .nil s

theorem accepts_cons_iff :
    Accepts visit s (event :: events) s' ↔ ∃ s₁, visit event s = .ok s₁ ∧ Accepts visit s₁ events s' := by
  constructor
  · rintro (_ | ⟨haccepts, hbehind⟩)
    exact ⟨_, haccepts, hbehind⟩
  · rintro ⟨s₁, haccepts, hbehind⟩
    exact .cons haccepts hbehind

theorem failsAt_nil_iff : FailsAt visit s [] event e ↔ visit event s = .error e := by
  simp [FailsAt, accepts_nil_iff]

theorem failsAt_cons_iff {first : WalkEvent} {front : List WalkEvent} :
    FailsAt visit s (first :: front) event e ↔
      ∃ s₁, visit first s = .ok s₁ ∧ FailsAt visit s₁ front event e := by
  simp only [FailsAt, accepts_cons_iff]
  constructor
  · rintro ⟨stuck, ⟨s₁, hfirst, hfront⟩, hfails⟩
    exact ⟨s₁, hfirst, stuck, hfront, hfails⟩
  · rintro ⟨s₁, hfirst, stuck, hfront, hfails⟩
    exact ⟨stuck, ⟨s₁, hfirst, hfront⟩, hfails⟩

/-- An event of a list is the first one or one behind it. -/
theorem exists_event_cons {p : List WalkEvent → WalkEvent → Prop} :
    (∃ front stop behind, event :: events = front ++ stop :: behind ∧ p front stop) ↔
      p [] event ∨ ∃ front stop behind, events = front ++ stop :: behind ∧ p (event :: front) stop := by
  constructor
  · rintro ⟨_ | ⟨first, front⟩, stop, behind, hevents, hp⟩
    · obtain ⟨rfl, rfl⟩ := List.cons.inj hevents
      exact .inl hp
    · obtain ⟨rfl, rfl⟩ := List.cons.inj hevents
      exact .inr ⟨front, stop, behind, rfl, hp⟩
  · rintro (hp | ⟨front, stop, behind, rfl, hp⟩)
    · exact ⟨[], event, events, rfl, hp⟩
    · exact ⟨event :: front, stop, behind, rfl, hp⟩

theorem run_noting_ok :
    visit.noting.run events (s, calls) = .ok (s', calls') ↔
      calls' = calls ++ events ∧ Accepts visit s events s' := by
  induction events generalizing s calls with
  | nil =>
    show Except.ok (s, calls) = .ok (s', calls') ↔ _
    simp [accepts_nil_iff, eq_comm, and_comm]
  | cons event events ih =>
    rw [accepts_cons_iff]
    cases hvisit : visit event s with
    | error e => simp [Visitor.run_cons_error _ (noting_error hvisit)]
    | ok s₁ => simp [Visitor.run_cons_ok _ (noting_ok hvisit), ih]

theorem run_noting_error :
    visit.noting.run events (s, calls) = .error (e, calls') ↔
      ∃ front stop behind, events = front ++ stop :: behind ∧
        calls' = calls ++ front ++ [stop] ∧ FailsAt visit s front stop e := by
  induction events generalizing s calls with
  | nil =>
    show Except.ok (s, calls) = .error (e, calls') ↔ _
    simp
  | cons event events ih =>
    rw [exists_event_cons, failsAt_nil_iff]
    simp only [failsAt_cons_iff]
    cases hvisit : visit event s with
    | error e' =>
      rw [Visitor.run_cons_error _ (noting_error hvisit)]
      simp [eq_comm, and_comm]
    | ok s₁ =>
      rw [Visitor.run_cons_ok _ (noting_ok hvisit), ih]
      simp

/-- Noting its calls, a visitor does what it does without. -/
theorem run_noting (calls : List WalkEvent) :
    ((visit.noting.run events (s, calls)).map Prod.fst).mapError Prod.fst = visit.run events s := by
  induction events generalizing s calls with
  | nil => rfl
  | cons event events ih =>
    cases hvisit : visit event s with
    | error e =>
      rw [Visitor.run_cons_error _ (noting_error hvisit), Visitor.run_cons_error _ hvisit]
      rfl
    | ok s₁ => rw [Visitor.run_cons_ok _ (noting_ok hvisit), Visitor.run_cons_ok _ hvisit, ih]

/-- A run succeeds unless the visitor refuses one of the events. -/
theorem run_succeeds_iff : (∃ s', visit.run events s = .ok s') ↔
    ∀ front stop behind e, events = front ++ stop :: behind → ¬ FailsAt visit s front stop e := by
  rw [← run_noting []]
  cases hrun : visit.noting.run events (s, []) with
  | ok result =>
    refine ⟨fun _ front stop behind e hevents hfails => ?_, fun _ => ⟨_, rfl⟩⟩
    have herror : visit.noting.run events (s, []) = .error (e, front ++ [stop]) :=
      run_noting_error.2 ⟨front, stop, behind, hevents, rfl, hfails⟩
    rw [hrun] at herror
    cases herror
  | error result =>
    obtain ⟨e, calls⟩ := result
    obtain ⟨front, stop, behind, hevents, -, hfails⟩ := run_noting_error.1 hrun
    exact ⟨nofun, fun h => absurd hfails (h front stop behind e hevents)⟩

end

/-! ## Brackets -/

/-- The event that leaves what an event enters. -/
def WalkEvent.closing? : WalkEvent → Option WalkEvent
  | .enterDocument document => some (.leaveDocument document)
  | .enterMapping pairs span => some (.leaveMapping pairs span)
  | .enterPair key value => some (.leavePair key value)
  | .enterSequence items span => some (.leaveSequence items span)
  | .enterItem index item => some (.leaveItem index item)
  | _ => none

def WalkEvent.isLeaf : WalkEvent → Bool
  | .scalar _ | .verbatim _ => true
  | _ => false

/-- Whatever is entered is left again, after what was entered within it. -/
inductive WellBracketed : List WalkEvent → Prop where
  | nil : WellBracketed []
  | leaf {event : WalkEvent} {rest : List WalkEvent} (leaf : event.isLeaf = true)
    (behind : WellBracketed rest) : WellBracketed (event :: rest)
  | group {entry exit : WalkEvent} {inner rest : List WalkEvent} (closes : entry.closing? = some exit)
    (inside : WellBracketed inner) (behind : WellBracketed rest) :
    WellBracketed (entry :: (inner ++ exit :: rest))

mutual

theorem Node.wellBracketed : ∀ node : Node, WellBracketed node.events
  | .mapping pairs _ => .group rfl (pairs_wellBracketed pairs) .nil
  | .sequence items _ => .group rfl (items_wellBracketed 0 items) .nil
  | .scalar _ => .leaf rfl .nil
  | .verbatim _ => .leaf rfl .nil

theorem pairs_wellBracketed : ∀ pairs : List (Key × Node), WellBracketed (pairEvents pairs)
  | [] => .nil
  | (_, value) :: rest => .group rfl value.wellBracketed (pairs_wellBracketed rest)

theorem items_wellBracketed (index : Nat) : ∀ items : List Node, WellBracketed (itemEvents index items)
  | [] => .nil
  | item :: rest => .group rfl item.wellBracketed (items_wellBracketed (index + 1) rest)

end

theorem Document.wellBracketed (document : Document) : WellBracketed document.events :=
  .group rfl document.root.wellBracketed .nil

/-! ## Marks -/

/-- What is recorded of an event: its name, the key of a pair that is entered, the content of a leaf. -/
inductive Mark where
  | enterDocument
  | leaveDocument
  | enterMapping
  | leaveMapping
  | enterPair (key : String)
  | leavePair
  | enterSequence
  | leaveSequence
  | enterItem
  | leaveItem
  | scalar (value : ScalarValue)
  | verbatim (code : String)
  deriving DecidableEq, Repr

def WalkEvent.mark : WalkEvent → Mark
  | .enterDocument _ => .enterDocument
  | .leaveDocument _ => .leaveDocument
  | .enterMapping .. => .enterMapping
  | .leaveMapping .. => .leaveMapping
  | .enterPair key _ => .enterPair key.text
  | .leavePair .. => .leavePair
  | .enterSequence .. => .enterSequence
  | .leaveSequence .. => .leaveSequence
  | .enterItem .. => .enterItem
  | .leaveItem .. => .leaveItem
  | .scalar s => .scalar s.value
  | .verbatim v => .verbatim v.code

def Document.marks (document : Document) : List Mark := document.events.map WalkEvent.mark

mutual

/-- Positions leave no marks. -/
theorem Node.unplaced_marks : ∀ node : Node,
    node.unplaced.events.map WalkEvent.mark = node.events.map WalkEvent.mark
  | .mapping pairs _ => by simp [Node.unplaced, Node.events, WalkEvent.mark, unplacedPairs_marks pairs]
  | .sequence items _ => by simp [Node.unplaced, Node.events, WalkEvent.mark, unplacedItems_marks 0 items]
  | .scalar _ => rfl
  | .verbatim _ => rfl

theorem unplacedPairs_marks : ∀ pairs : List (Key × Node),
    (pairEvents (unplacedPairs pairs)).map WalkEvent.mark = (pairEvents pairs).map WalkEvent.mark
  | [] => rfl
  | (_, value) :: rest => by
    simp [unplacedPairs, pairEvents, WalkEvent.mark, value.unplaced_marks, unplacedPairs_marks rest]

theorem unplacedItems_marks (index : Nat) : ∀ items : List Node,
    (itemEvents index (unplacedItems items)).map WalkEvent.mark = (itemEvents index items).map WalkEvent.mark
  | [] => rfl
  | item :: rest => by
    simp [unplacedItems, itemEvents, WalkEvent.mark, item.unplaced_marks,
      unplacedItems_marks (index + 1) rest]

end

mutual

/-- The marks of a node are read back from the front of a text of marks. -/
theorem Node.unplaced_of_marks {rest rest' : List Mark} : ∀ node other : Node,
    node.events.map WalkEvent.mark ++ rest = other.events.map WalkEvent.mark ++ rest' →
      node.unplaced = other.unplaced ∧ rest = rest'
  | .mapping pairs _, other, h => by
    cases other with
    | mapping pairs' _ =>
      simp only [Node.events, WalkEvent.mark, List.map_cons, List.map_append, List.map_nil, List.cons_append,
        List.append_assoc, List.nil_append, List.cons.injEq, true_and] at h
      obtain ⟨hpairs, hrest⟩ := unplacedPairs_of_marks pairs pairs' h
      exact ⟨congrArg (Node.mapping · .origin) hpairs, hrest⟩
    | sequence | scalar | verbatim => simp [Node.events, WalkEvent.mark] at h
  | .sequence items _, other, h => by
    cases other with
    | sequence items' _ =>
      simp only [Node.events, WalkEvent.mark, List.map_cons, List.map_append, List.map_nil, List.cons_append,
        List.append_assoc, List.nil_append, List.cons.injEq, true_and] at h
      obtain ⟨hitems, hrest⟩ := unplacedItems_of_marks items items' h
      exact ⟨congrArg (Node.sequence · .origin) hitems, hrest⟩
    | mapping | scalar | verbatim => simp [Node.events, WalkEvent.mark] at h
  | .scalar s, other, h => by
    cases other with
    | scalar s' =>
      simp [Node.events, WalkEvent.mark] at h
      simp [Node.unplaced, h]
    | mapping | sequence | verbatim => simp [Node.events, WalkEvent.mark] at h
  | .verbatim v, other, h => by
    cases other with
    | verbatim v' =>
      simp [Node.events, WalkEvent.mark] at h
      simp [Node.unplaced, h]
    | mapping | sequence | scalar => simp [Node.events, WalkEvent.mark] at h

theorem unplacedPairs_of_marks {rest rest' : List Mark} : ∀ pairs pairs' : List (Key × Node),
    (pairEvents pairs).map WalkEvent.mark ++ .leaveMapping :: rest =
        (pairEvents pairs').map WalkEvent.mark ++ .leaveMapping :: rest' →
      unplacedPairs pairs = unplacedPairs pairs' ∧ rest = rest'
  | [], [], h => ⟨rfl, (List.cons.inj h).2⟩
  | [], _ :: _, h => by simp [pairEvents, WalkEvent.mark] at h
  | _ :: _, [], h => by simp [pairEvents, WalkEvent.mark] at h
  | (key, value) :: pairs, (key', value') :: pairs', h => by
    simp only [pairEvents, WalkEvent.mark, List.map_cons, List.map_append, List.cons_append,
      List.append_assoc, List.cons.injEq, Mark.enterPair.injEq] at h
    obtain ⟨hkey, h⟩ := h
    obtain ⟨hvalue, h⟩ := value.unplaced_of_marks value' h
    obtain ⟨hpairs, hrest⟩ := unplacedPairs_of_marks pairs pairs' (List.cons.inj h).2
    exact ⟨by rw [unplacedPairs, unplacedPairs, hkey, hvalue, hpairs], hrest⟩

theorem unplacedItems_of_marks {index index' : Nat} {rest rest' : List Mark} : ∀ items items' : List Node,
    (itemEvents index items).map WalkEvent.mark ++ .leaveSequence :: rest =
        (itemEvents index' items').map WalkEvent.mark ++ .leaveSequence :: rest' →
      unplacedItems items = unplacedItems items' ∧ rest = rest'
  | [], [], h => ⟨rfl, (List.cons.inj h).2⟩
  | [], _ :: _, h => by simp [itemEvents, WalkEvent.mark] at h
  | _ :: _, [], h => by simp [itemEvents, WalkEvent.mark] at h
  | item :: items, item' :: items', h => by
    simp only [itemEvents, WalkEvent.mark, List.map_cons, List.map_append, List.cons_append,
      List.append_assoc, List.cons.injEq, true_and] at h
    obtain ⟨hitem, h⟩ := item.unplaced_of_marks item' h
    obtain ⟨hitems, hrest⟩ := unplacedItems_of_marks items items' (List.cons.inj h).2
    exact ⟨by rw [unplacedItems, unplacedItems, hitem, hitems], hrest⟩

end

/-- The marks of a document tell its tree but for its positions. -/
theorem Document.marks_eq_iff {document other : Document} :
    document.marks = other.marks ↔ document.root.unplaced = other.root.unplaced := by
  constructor
  · intro h
    simp only [Document.marks, Document.events, WalkEvent.mark, List.map_cons, List.map_append, List.map_nil,
      List.cons.injEq, true_and] at h
    exact (document.root.unplaced_of_marks other.root h).1
  · intro h
    have hroot : document.root.events.map WalkEvent.mark = other.root.events.map WalkEvent.mark := by
      rw [← document.root.unplaced_marks, h, other.root.unplaced_marks]
    simp [Document.marks, Document.events, WalkEvent.mark, hroot]

/-! ## Walks -/

/--
The calls of a walk are a beginning of the complete traversal. With all of it accepted the walk succeeds;
otherwise it calls the events up to the first one that the visitor refuses in the state it is then in,
no event behind that one, and fails with what the visitor says there. The complete traversal is well
bracketed, and its marks tell the tree but for its positions.
-/
theorem walk_calls {σ ε : Type} (visit : Visitor σ ε) (document other : Document) (s : σ) :
    (∀ s' calls, document.walk visit.noting (s, []) = .ok (s', calls) ↔
      calls = document.events ∧ Accepts visit s document.events s') ∧
    (∀ e calls, document.walk visit.noting (s, []) = .error (e, calls) ↔
      ∃ front stop behind, document.events = front ++ stop :: behind ∧ calls = front ++ [stop] ∧
        FailsAt visit s front stop e) ∧
    document.walk visit s = ((document.walk visit.noting (s, [])).map Prod.fst).mapError Prod.fst ∧
    ((∃ s', document.walk visit s = .ok s') ↔
      ∀ front stop behind e, document.events = front ++ stop :: behind → ¬ FailsAt visit s front stop e) ∧
    WellBracketed document.events ∧
    (document.marks = other.marks ↔ document.root.unplaced = other.root.unplaced) := by
  simp only [Document.walk_eq]
  refine ⟨fun s' calls => ?_, fun e calls => ?_, (run_noting []).symm, run_succeeds_iff,
    document.wellBracketed, Document.marks_eq_iff⟩
  · exact run_noting_ok
  · exact run_noting_error

end MessageCatalog
