/-
Reading the tokens of YAML as events: the nodes of the first document in order, each collection with
its start and its end, between the boundaries of the document. Anchors are numbered, and an alias is
the number of its anchor.
-/
import MessageCatalog.Yaml.Token

namespace MessageCatalog.Yaml

/-! ## Events -/

/-- The number of an anchor; zero is none. -/
abbrev AnchorId := Nat

inductive EventKind where
  | scalar (style : ScalarStyle) (text : String) (anchor : AnchorId)
  | alias (anchor : AnchorId)
  | sequenceStart (anchor : AnchorId)
  | sequenceEnd
  | mappingStart (anchor : AnchorId)
  | mappingEnd
  /-- A start or an end of the stream or of a document. -/
  | boundary
  deriving DecidableEq, Repr, Inhabited

/-- An event at the index of a character. -/
structure Event where
  index : Nat
  kind : EventKind
  deriving DecidableEq, Repr, Inhabited

/-- A node that is left out. -/
def emptyScalar (anchor : AnchorId) : EventKind := .scalar .plain "" anchor

/-! ## State -/

/-- What is expected. -/
inductive Expectation where
  /-- A node; whether it may be a block, and a sequence that is not indented. -/
  | node (block indentless : Bool)
  | blockMappingKey
  | blockMappingValue
  | blockSequenceEntry
  | indentlessEntry
  | flowSequenceEntry (first : Bool)
  | flowMappingKey (first : Bool)
  | flowMappingValue
  /-- The value of a key without a colon. -/
  | flowMappingNoValue
  /-- The key, the value and the end of a pair in a flow sequence. -/
  | pairKey
  | pairValue
  | pairEnd
  deriving DecidableEq, Repr, Inhabited

structure ParseState where
  tokens : List Tokenizer.TakenToken
  /-- Where the text has been read to. -/
  reached : Nat
  /-- Where tokens end, or the fault that ended them. -/
  stop : Nat
  expected : List Expectation
  anchors : List (String × AnchorId)
  handles : List String
  deriving Inhabited

abbrev Parser (α : Type) := StateT ParseState (Except Nat) α

namespace Parser

def faultAt {α : Type} (mark : Mark) : Parser α := throw mark.index

/-- The next token. -/
def peek : Parser Token := do
  let s ← get
  match s.tokens with
  | [] => throw s.stop
  | t :: _ =>
    set { s with reached := t.reached }
    return t.token

def skip : Parser Unit := modify fun s => { s with tokens := s.tokens.drop 1 }

/-- Whether the next token is of one of some kinds. -/
def isNext (kinds : List TokenKind) : Parser Bool := return kinds.contains (← peek).kind

/-- Takes the next token if it is of a kind. -/
def eat (kind : TokenKind) : Parser Bool := do
  if ← isNext [kind] then
    skip
    return true
  else return false

def expect (expectations : List Expectation) : Parser Unit :=
  modify fun s => { s with expected := expectations ++ s.expected }

def event (mark : Mark) (kind : EventKind) : Parser (Option Event) :=
  return some ⟨mark.index, kind⟩

/-! ## Documents -/

/--
The directives in front of a document. Only the handle of the last one stays declared, and a version
is stated once.
-/
def directives : Nat → Bool → Parser Unit
  | 0, _ => return
  | fuel + 1, versioned => do
    let t ← peek
    match t.kind with
    | .directive .version =>
      if versioned then faultAt t.mark
      modify fun s => { s with handles := [] }
      skip
      directives fuel true
    | .directive (.tag handle) =>
      modify fun s => { s with handles := [handle] }
      skip
      directives fuel versioned
    | _ => return

/-- Skips the ends of documents without a start. -/
def documentEnds : Nat → Parser Unit
  | 0 => return
  | fuel + 1 => do
    if ← eat .documentEnd then documentEnds fuel

/-- The start of the first document; false if there is none. The content of it may be missing. -/
def documentStart : Parser (Bool × Option Event) := do
  let _ ← eat .streamStart
  let fuel := (← get).tokens.length
  documentEnds fuel
  let t ← peek
  match t.kind with
  | .streamEnd => return (false, none)
  | .directive _ | .documentStart =>
    directives fuel false
    let t ← peek
    if !(← eat .documentStart) then faultAt t.mark
    let content ← peek
    match content.kind with
    | .directive _ | .documentStart | .documentEnd | .streamEnd =>
      return (true, ← event content.mark (emptyScalar 0))
    | _ =>
      expect [.node true false]
      return (true, none)
  | _ =>
    expect [.node true false]
    return (true, none)

/-- The end of the document: no directive may follow before it is marked. -/
def documentEnd : Parser Unit := do
  if ← eat .documentEnd then return
  let t ← peek
  match t.kind with
  | .directive _ => faultAt t.mark
  | _ => return

/-! ## Nodes -/

def anchor (name : String) : Parser AnchorId := do
  let id := (← get).anchors.length + 1
  modify fun s => { s with anchors := (name, id) :: s.anchors }
  return id

/-- A named handle must be declared. -/
def checkTag (mark : Mark) (handle : String) : Parser Unit := do
  let named := handle ≠ "!!" && 2 ≤ handle.length && handle.endsWith "!"
  if named && !(← get).handles.contains handle then faultAt mark

/--
An anchor and a tag in either order: the anchor's number, and whether there is one of the two.
-/
def properties : Parser (AnchorId × Bool) := do
  let t ← peek
  match t.kind with
  | .anchor name =>
    skip
    let id ← anchor name
    match (← peek).kind with
    | .tag handle _ =>
      skip
      checkTag t.mark handle
    | _ => pure ()
    return (id, true)
  | .tag handle _ =>
    skip
    checkTag t.mark handle
    match (← peek).kind with
    | .anchor name =>
      skip
      return (← anchor name, true)
    | _ => return (0, true)
  | _ => return (0, false)

def content (block indentless : Bool) : Parser (Option Event) := do
  let (id, marked) ← properties
  let t ← peek
  match t.kind with
  | .scalar style text =>
    skip
    event t.mark (.scalar style text id)
  | .flowSequenceStart =>
    expect [.flowSequenceEntry true]
    skip
    event t.mark (.sequenceStart id)
  | .flowMappingStart =>
    expect [.flowMappingKey true]
    skip
    event t.mark (.mappingStart id)
  | kind =>
    if kind = .blockEntry && indentless then
      expect [.indentlessEntry]
      event t.mark (.sequenceStart id)
    else if kind = .blockSequenceStart && block then
      expect [.blockSequenceEntry]
      skip
      event t.mark (.sequenceStart id)
    else if kind = .blockMappingStart && block then
      expect [.blockMappingKey]
      skip
      event t.mark (.mappingStart id)
    else if marked then event t.mark (emptyScalar id)
    else faultAt t.mark

def node (block indentless : Bool) : Parser (Option Event) := do
  let t ← peek
  match t.kind with
  | .alias name =>
    skip
    match (← get).anchors.lookup name with
    | some id => event t.mark (.alias id)
    | none => faultAt t.mark
  | _ => content block indentless

/-! ## Collections -/

/-- A node, or none if what follows it comes at once; `next` is expected after it. -/
def nodeUnless (ends : List TokenKind) (block indentless : Bool) (next : Expectation) :
    Parser (Option Event) := do
  let t ← peek
  if ends.contains t.kind then
    expect [next]
    event t.mark (emptyScalar 0)
  else
    expect [.node block indentless, next]
    return none

def blockMappingKey : Parser (Option Event) := do
  let t ← peek
  match t.kind with
  | .key =>
    skip
    nodeUnless [.key, .value, .blockEnd] true true .blockMappingValue
  | .value =>
    expect [.blockMappingValue]
    event t.mark (emptyScalar 0)
  | .blockEnd =>
    skip
    event t.mark .mappingEnd
  | _ => faultAt t.mark

def blockMappingValue : Parser (Option Event) := do
  let t ← peek
  if ← eat .value then nodeUnless [.key, .value, .blockEnd] true true .blockMappingKey
  else
    expect [.blockMappingKey]
    event t.mark (emptyScalar 0)

def blockSequenceEntry : Parser (Option Event) := do
  let t ← peek
  match t.kind with
  | .blockEnd =>
    skip
    event t.mark .sequenceEnd
  | .blockEntry =>
    skip
    nodeUnless [.blockEntry, .blockEnd] true false .blockSequenceEntry
  | _ => faultAt t.mark

def indentlessEntry : Parser (Option Event) := do
  let t ← peek
  if ← eat .blockEntry then
    nodeUnless [.blockEntry, .key, .value, .blockEnd] true false .indentlessEntry
  else event t.mark .sequenceEnd

def flowSequenceEntry (first : Bool) : Parser (Option Event) := do
  let t ← peek
  if ← eat .flowSequenceEnd then event t.mark .sequenceEnd
  else
    if !first then
      if !(← eat .flowEntry) then faultAt t.mark
    let t ← peek
    if ← eat .flowSequenceEnd then event t.mark .sequenceEnd
    else if ← eat .key then
      expect [.pairKey]
      event t.mark (.mappingStart 0)
    else
      expect [.node false false, .flowSequenceEntry false]
      return none

def flowMappingKey (first : Bool) : Parser (Option Event) := do
  let t ← peek
  if ← eat .flowMappingEnd then event t.mark .mappingEnd
  else
    if !first then
      if !(← eat .flowEntry) then faultAt t.mark
    let t ← peek
    match t.kind with
    | .key =>
      skip
      nodeUnless [.value, .flowEntry, .flowMappingEnd] false false .flowMappingValue
    | .value =>
      expect [.flowMappingValue]
      event t.mark (emptyScalar 0)
    | .flowMappingEnd =>
      skip
      event t.mark .mappingEnd
    | _ =>
      expect [.node false false, .flowMappingNoValue]
      return none

def flowMappingValue : Parser (Option Event) := do
  let t ← peek
  if ← eat .value then
    if ← isNext [.flowEntry, .flowMappingEnd] then
      expect [.flowMappingKey false]
      event t.mark (emptyScalar 0)
    else
      expect [.node false false, .flowMappingKey false]
      return none
  else
    expect [.flowMappingKey false]
    event t.mark (emptyScalar 0)

def flowMappingNoValue : Parser (Option Event) := do
  let t ← peek
  expect [.flowMappingKey false]
  event t.mark (emptyScalar 0)

def pairKey : Parser (Option Event) := do
  let t ← peek
  if ← isNext [.value, .flowEntry, .flowSequenceEnd] then
    skip
    expect [.pairValue]
    event t.mark (emptyScalar 0)
  else
    expect [.node false false, .pairValue]
    return none

def pairValue : Parser (Option Event) := do
  let t ← peek
  if ← eat .value then nodeUnless [.flowEntry, .flowSequenceEnd] false false .pairEnd
  else
    expect [.pairEnd]
    event t.mark (emptyScalar 0)

/-- A pair in a flow sequence ends where the text has been read to. -/
def pairEnd : Parser (Option Event) := do
  expect [.flowSequenceEntry false]
  return some ⟨(← get).reached, .mappingEnd⟩

/-! ## Running -/

/-- Meets an expectation. -/
def meet : Expectation → Parser (Option Event)
  | .node block indentless => node block indentless
  | .blockMappingKey => blockMappingKey
  | .blockMappingValue => blockMappingValue
  | .blockSequenceEntry => blockSequenceEntry
  | .indentlessEntry => indentlessEntry
  | .flowSequenceEntry first => flowSequenceEntry first
  | .flowMappingKey first => flowMappingKey first
  | .flowMappingValue => flowMappingValue
  | .flowMappingNoValue => flowMappingNoValue
  | .pairKey => pairKey
  | .pairValue => pairValue
  | .pairEnd => pairEnd

/-- Meets expectations until none is left. -/
def meetAll : Nat → Array Event → Parser (Array Event)
  | 0, events => return events
  | fuel + 1, events => do
    match (← get).expected with
    | [] => return events
    | e :: rest =>
      modify fun s => { s with expected := rest }
      match ← meet e with
      | some found => meetAll fuel (events.push found)
      | none => meetAll fuel events

def boundary : Parser Event := return ⟨(← peek).mark.index, .boundary⟩

/-- The events up to the end of the first document, or of a stream without one. -/
def document : Parser (List Event) := do
  let fuel := 6 * ((← get).tokens.length + 4)
  let start ← boundary
  let (isPresent, content) ← documentStart
  if isPresent then
    let events ← meetAll fuel content.toList.toArray
    let stop ← boundary
    documentEnd
    return start :: events.toList ++ [stop]
  else return [start]

end Parser

/-- The events of the first document of a text, or the index of the first fault. -/
def readEvents (text : List Char) : Except Nat (List Event) :=
  let stream := tokenize text
  (Parser.document.run ⟨stream.tokens, 0, stream.stop, [], [], []⟩).map (·.1)

end MessageCatalog.Yaml
