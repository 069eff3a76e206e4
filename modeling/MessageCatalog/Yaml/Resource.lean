/-
Resources in YAML. The events of the first document of a text become the tree: an alias stands for
the node of its anchor, and the keys of a mapping are scalars. A text without a document is an empty
mapping.
-/
import MessageCatalog.Error
import MessageCatalog.Yaml.Event
import MessageCatalog.Yaml.Schema

namespace MessageCatalog.Yaml

open MessageCatalog.Text

/-! ## Places -/

/-- A text with the byte offset of each of its characters. -/
structure Source where
  index : LineIndex
  offsets : Array Nat

def offsetsFrom (offset : Nat) : List Char → List Nat
  | [] => []
  | c :: cs => offset :: offsetsFrom (offset + c.utf8Size) cs

def Source.ofString (text : String) : Source :=
  let cs := text.toList
  ⟨.ofText cs, (offsetsFrom 0 cs).toArray⟩

/-- The byte offset of a character; one past the end is at the end. -/
def Source.offset (source : Source) (index : Nat) : Nat :=
  source.offsets.getD index source.index.size

def Source.position (source : Source) (index : Nat) : Position :=
  source.index.position (source.offset index)

/-- The empty span at a character. -/
def Source.spot (source : Source) (index : Nat) : Span :=
  ⟨source.position index, source.position index⟩

/--
The bytes of a quoted scalar, on its first line: up to the next character that equals the first,
else the rest of the line.
-/
def quotedWidth (text : List Char) : Nat :=
  let line := text.takeWhile (· ≠ '\n')
  match line with
  | [] => 0
  | quote :: tail =>
    if quote.utf8Size = 1 && tail.contains quote then
      byteLength (tail.takeWhile (· ≠ quote)) + 2
    else byteLength line

/-- The place of a scalar and of its content. -/
def Source.scalarPlace (source : Source) (index : Nat) (style : ScalarStyle) (text : String) :
    Span × Position :=
  let start := source.offset index
  let (content, width) :=
    match style with
    | .quoted => (start + 1, quotedWidth (source.index.source.drop index))
    | .plain => (start, byteLength text.toList)
    | .block => (start, 1)
  (source.index.span start (start + width), source.index.position content)

/-! ## The tree -/

/-- A collection that is not closed yet. -/
inductive Frame where
  /-- A mapping with its pairs so far and, if its value is awaited, a key. -/
  | mapping (start : Position) (anchor : AnchorId) (pairs : Array (Key × Node))
      (pending : Option Key)
  | sequence (start : Position) (anchor : AnchorId) (items : Array Node)
  deriving Inhabited

/-- Why a tree cannot be built, and where. -/
structure Refusal where
  message : String
  span : Span
  deriving Repr

structure Building where
  stack : List Frame := []
  /-- The nodes of the anchors that are complete, the latest first. -/
  anchors : List (AnchorId × Node) := []
  root : Option Node := none
  /-- What was refused first. -/
  refusal : Option Refusal := none
  deriving Inhabited

/-- Only the first document counts, and nothing behind what is refused. -/
def Building.isDone (b : Building) : Bool :=
  b.refusal.isSome || (b.root.isSome && b.stack.isEmpty)

/-- The key that a node is. -/
def keyOf? : Node → Option Key
  | .scalar s => some ⟨s.value.text, s.span⟩
  | _ => none

def notAKey (node : Node) : Refusal := ⟨"mapping keys must be scalars", node.span⟩

/-- Makes known what an anchor stands for. -/
def anchored {α : Type} (anchor : AnchorId) (a : α) (known : List (AnchorId × α)) :
    List (AnchorId × α) :=
  if anchor = 0 then known else (anchor, a) :: known

/-- Adds a node to the innermost open collection; without one it is the root. -/
def Building.add (b : Building) (node : Node) (anchor : AnchorId) : Building :=
  let b := { b with anchors := anchored anchor node b.anchors }
  match b.stack with
  | [] => { b with root := b.root.or (some node) }
  | .sequence start id items :: rest =>
    { b with stack := .sequence start id (items.push node) :: rest }
  | .mapping start id pairs (some key) :: rest =>
    { b with stack := .mapping start id (pairs.push (key, node)) none :: rest }
  | .mapping start id pairs none :: rest =>
    match keyOf? node with
    | some key => { b with stack := .mapping start id pairs (some key) :: rest }
    | none => { b with refusal := b.refusal.or (some (notAKey node)) }

/-- Closes the innermost open collection. -/
def Building.close (b : Building) (stop : Position) : Building :=
  match b.stack with
  | [] => b
  | .sequence start anchor items :: rest =>
    { b with stack := rest }.add (.sequence items.toList ⟨start, stop⟩) anchor
  | .mapping start anchor pairs _ :: rest =>
    { b with stack := rest }.add (.mapping pairs.toList ⟨start, stop⟩) anchor

/-- The node of a scalar: a plain one is resolved, any other is text. -/
def Source.scalar (source : Source) (index : Nat) (style : ScalarStyle) (text : String) : Node :=
  let (span, content) := source.scalarPlace index style text
  .scalar ⟨if style = .plain then resolvePlain text else .string text, span, content⟩

/-- An alias of an anchor without a complete node. -/
def Source.unknownAlias (source : Source) (index : Nat) : Refusal :=
  ⟨"unknown alias", source.spot index⟩

/-- What an event does. -/
def Building.step (source : Source) (b : Building) (e : Event) : Building :=
  match e.kind with
  | .boundary => b
  | .mappingStart anchor =>
    { b with stack := .mapping (source.position e.index) anchor #[] none :: b.stack }
  | .sequenceStart anchor =>
    { b with stack := .sequence (source.position e.index) anchor #[] :: b.stack }
  | .mappingEnd | .sequenceEnd => b.close (source.position e.index)
  | .scalar style text anchor => b.add (source.scalar e.index style text) anchor
  | .alias anchor =>
    match b.anchors.lookup anchor with
    | some node => b.add node 0
    | none => { b with refusal := some (source.unknownAlias e.index) }

/-- Takes an event, if it still counts. -/
def Building.take (source : Source) (b : Building) (e : Event) : Building :=
  if b.isDone then b else b.step source e

/-- The root of the tree of some events, if there is one. -/
def buildTree (source : Source) (events : List Event) : Except Refusal (Option Node) :=
  let b := events.foldl (Building.take source) {}
  match b.refusal with
  | some refusal => .error refusal
  | none => .ok b.root

/-! ## Resources -/

/-- The text of a fault of the notation itself. -/
def syntaxMessage : String := "<syntax>"

/-- The resource of a YAML text. -/
def readResource (text filename : String) : Except CompileError Document :=
  let source := Source.ofString text
  match readEvents text.toList with
  | .error index => .error (.malformed filename syntaxMessage (some (source.spot index)))
  | .ok events =>
    match buildTree source events with
    | .error r => .error (.malformed filename r.message (some r.span))
    | .ok root => .ok ⟨root.getD (.mapping [] .origin), filename⟩

end MessageCatalog.Yaml
