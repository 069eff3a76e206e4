/-
Walking a document. A visitor answers each event of the walk with a new state or an error, and the
first error ends the walk. Events come in document order: every container is entered and left, pairs
and items around their values. The list of all events is the walk that nothing stops.
-/
import MessageCatalog.Resource.Node

namespace MessageCatalog

open MessageCatalog.Text

/-! ## Events -/

/-- A place of the walk, with the part of the document that is entered, left or visited there. -/
inductive WalkEvent where
  | enterDocument (document : Document)
  | leaveDocument (document : Document)
  | enterMapping (pairs : List (Key × Node)) (span : Span)
  | leaveMapping (pairs : List (Key × Node)) (span : Span)
  | enterPair (key : Key) (value : Node)
  | leavePair (key : Key) (value : Node)
  | enterSequence (items : List Node) (span : Span)
  | leaveSequence (items : List Node) (span : Span)
  | enterItem (index : Nat) (item : Node)
  | leaveItem (index : Nat) (item : Node)
  | scalar (s : Scalar)
  | verbatim (v : Verbatim)
  deriving Repr

/-- A visitor over states `σ`: what it does at an event, or why it stops. -/
abbrev Visitor (σ ε : Type) := WalkEvent → σ → Except ε σ

/-! ## The walk -/

section

variable {σ ε : Type} (visit : Visitor σ ε)

mutual

def walkNode : Node → σ → Except ε σ
  | .mapping pairs span, s => do
    let s ← visit (.enterMapping pairs span) s
    let s ← walkPairs pairs s
    visit (.leaveMapping pairs span) s
  | .sequence items span, s => do
    let s ← visit (.enterSequence items span) s
    let s ← walkItems 0 items s
    visit (.leaveSequence items span) s
  | .scalar scalar, s => visit (.scalar scalar) s
  | .verbatim code, s => visit (.verbatim code) s

def walkPairs : List (Key × Node) → σ → Except ε σ
  | [], s => .ok s
  | (key, value) :: rest, s => do
    let s ← visit (.enterPair key value) s
    let s ← walkNode value s
    let s ← visit (.leavePair key value) s
    walkPairs rest s

def walkItems (index : Nat) : List Node → σ → Except ε σ
  | [], s => .ok s
  | item :: rest, s => do
    let s ← visit (.enterItem index item) s
    let s ← walkNode item s
    let s ← visit (.leaveItem index item) s
    walkItems (index + 1) rest s

end

/-- Visits a document in document order until the visitor refuses an event. -/
def Document.walk (document : Document) (s : σ) : Except ε σ := do
  let s ← visit (.enterDocument document) s
  let s ← walkNode visit document.root s
  visit (.leaveDocument document) s

end

/-! ## The complete traversal -/

mutual

def Node.events : Node → List WalkEvent
  | .mapping pairs span =>
    .enterMapping pairs span :: (pairEvents pairs ++ [.leaveMapping pairs span])
  | .sequence items span =>
    .enterSequence items span :: (itemEvents 0 items ++ [.leaveSequence items span])
  | .scalar s => [.scalar s]
  | .verbatim v => [.verbatim v]

def pairEvents : List (Key × Node) → List WalkEvent
  | [] => []
  | (key, value) :: rest =>
    .enterPair key value :: (value.events ++ .leavePair key value :: pairEvents rest)

def itemEvents (index : Nat) : List Node → List WalkEvent
  | [] => []
  | item :: rest =>
    .enterItem index item :: (item.events ++ .leaveItem index item :: itemEvents (index + 1) rest)

end

def Document.events (document : Document) : List WalkEvent :=
  .enterDocument document :: (document.root.events ++ [.leaveDocument document])

/-! ## Recording -/

/-- Collects events and stops right after the event number `stop`; zero never stops. -/
def recordUntil (stop : Nat) : Visitor (Array WalkEvent) (Array WalkEvent) := fun event seen =>
  let seen := seen.push event
  if stop ≠ 0 ∧ seen.size = stop then .error seen else .ok seen

end MessageCatalog
