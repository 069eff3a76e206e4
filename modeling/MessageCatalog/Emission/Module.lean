/-
The generated module. A document is walked once; containers are written over lines, every message is
compiled under the path of its keys and indices, and its code is recorded with the place of its
literal. A rejected message stops the emission unless it may be kept as a raw string.
-/
import MessageCatalog.Code.Writer
import MessageCatalog.Emission.LiteralColumns
import MessageCatalog.Message.Compiler
import MessageCatalog.Registration
import MessageCatalog.Resource.Walk
import MessageCatalog.SourceMap.Merge

namespace MessageCatalog.Emission

open MessageCatalog.Code MessageCatalog.Text

/-! ## What an emission works with -/

/-- What the caller supplies. -/
structure Collaborators where
  compiler : MessageCompiler
  diagnostics : Diagnostics
  /-- The payload that bridge output registers. -/
  bridgePayload : Option String

/-- What stays the same during a walk; `μ` is what the compiler remembers. -/
structure Context (μ : Type) where
  source : List Char
  filename : String
  options : Options
  compiler : RememberingCompiler μ
  diagnostics : Diagnostics
  bridgePayload : Option String

/-- What is written and said, and what the compiler remembers. -/
structure Output (μ : Type) where
  writer : Writer
  codeMaps : CodeMaps
  log : List Notice
  memory : μ

/-- The state of a walk: its output, and where it is. -/
structure State (μ : Type) where
  output : Output μ
  /-- Keys and indices from the current node up to the root. -/
  path : List String
  /-- For each open mapping with pairs, innermost first, how many pairs are left. -/
  pairsLeft : List Nat
  /-- For each open sequence with items, innermost first, how many items are left. -/
  itemsLeft : List Nat

/-- A refused emission: the error and all that was said. -/
structure Refusal where
  error : CompileError
  log : List Notice

section

variable {μ : Type}

namespace Output

def write (out : Output μ) (f : Writer → Writer) : Output μ := { out with writer := f out.writer }

def push (out : Output μ) (code : String) : Output μ := out.write (·.push code)

def say (out : Output μ) (notices : List Notice) : Output μ :=
  { out with log := out.log ++ notices }

end Output

namespace State

def write (st : State μ) (f : Writer → Writer) : State μ :=
  { st with output := st.output.write f }

def push (st : State μ) (code : String) : State μ := st.write (·.push code)

def fullPath (st : State μ) : List String := st.path.reverse

end State

/-! ## Around the resource -/

def componentVariable (options : Options) : String :=
  if options.bridge then "Component.options"
  else if options.useClassComponent then "Component.__o || Component.__vccOpts || Component"
  else "Component"

def registry (options : Options) : String := if options.isGlobal then "__i18nGlobal" else "__i18n"

/-- The code in front of the resource. -/
def prelude (options : Options) (w : Writer) : Writer :=
  if options.isComponent then
    let list := "_Component." ++ registry options
    let w := (w.push (options.exportPrefix ++ " function (Component) \x7b")).indent
    let w := w.pushLine ("const _Component = " ++ componentVariable options)
    let w := w.pushLine (list ++ " = " ++ list ++ " || []")
    let w := (w.push (list ++ ".push(\x7b")).indent
    let w := w.pushLine ("\"locale\": " ++ Json.quoted options.locale ++ ",")
    w.push "\"resource\": "
  else w.push "const resource = "

/-- The registration of a bridge payload. -/
def bridgeRegistration (payload : String) (w : Writer) : Writer :=
  let w := w.newline.pushLine "_Component.__i18nBridge = _Component.__i18nBridge || []"
  let w := w.pushLine ("_Component.__i18nBridge.push('" ++ Registration.quote payload ++ "')")
  w.push "delete _Component._Ctor"

/-- The code behind the resource. -/
def epilogue (options : Options) (bridgePayload : Option String) (w : Writer) : Writer :=
  if options.isComponent then
    let w := w.deindent.push "\x7d)"
    let w :=
      match bridgePayload with
      | some payload => if options.bridge then bridgeRegistration payload w else w
      | none => w
    w.deindent.push "\x7d"
  else (w.push "\n").push (options.exportPrefix ++ " resource")

/-! ## Messages -/

/-- The map of a compiled literal, moved into the token it was written as where that is possible. -/
def literalMap (cx : Context μ) (scalar : Scalar) (literal : String) (map : SourceMap) :
    SourceMap :=
  let raw := (slice? cx.source scalar.span.start.offset scalar.span.stop.offset).getD []
  match (literalColumns? raw literal.toList).bind (rebaseFragment? map) with
  | some moved => moved
  | none => map

/-- Writes the code of a message that was compiled. -/
def acceptMessage (cx : Context μ) (out : Output μ) (scalar : Scalar) (literal : String)
    (compiled : CompiledMessage) : Output μ :=
  let out := out.say (compiled.warnings.flatMap fun w =>
    cx.diagnostics.warn (cx.filename ++ ": " ++ w))
  let out :=
    match compiled.map with
    | some map =>
      if cx.options.sourceMap then
        { out with codeMaps := out.codeMaps.set literal (literalMap cx scalar literal map) }
      else out
    | none => out
  out.write (·.pushMapped compiled.code scalar.contentStart (some literal))

/-- Keeps a rejected message as the string it is, with a warning. -/
def keepRaw (cx : Context μ) (out : Output μ) (path : List String) (scalar : Scalar)
    (literal : String) (e : Message.Error) : Output μ :=
  let notice := cx.filename ++ ": `" ++ ".".intercalate path ++ "` kept as a raw string: " ++ e.text
  (out.say (cx.diagnostics.warn notice)).write
    (·.pushMapped (Json.quoted literal) scalar.contentStart (some literal))

/-- The error that a rejected message stops the emission with. -/
def refuse (cx : Context μ) (out : Output μ) (path : List String) (scalar : Scalar)
    (literal : String) (e : Message.Error) : Refusal :=
  let (notices, error) := cx.diagnostics.reject cx.filename e.fault.text
    ⟨literal, ".".intercalate path, e.fault.code, some scalar.span⟩
  ⟨error, out.log ++ notices⟩

/-- Writes what the compiler answered for the message at a path. -/
def writeAnswer (cx : Context μ) (out : Output μ) (path : List String) (scalar : Scalar)
    (literal : String) : Except Message.Error CompiledMessage → Except Refusal (Output μ)
  | .ok compiled => .ok (acceptMessage cx out scalar literal compiled)
  | .error e =>
    if cx.options.lenient then .ok (keepRaw cx out path scalar literal e)
    else .error (refuse cx out path scalar literal e)

/-- Asks the compiler about the message at a path. -/
def writeMessage (cx : Context μ) (out : Output μ) (path : List String) (scalar : Scalar)
    (literal : String) : Except Refusal (Output μ) :=
  let asked := cx.compiler literal cx.options path out.memory
  writeAnswer cx { out with memory := asked.2 } path scalar literal asked.1

/-! ## Containers -/

/-- Opens a container; one without children is closed at once. -/
def openContainer (opening closing : String) (size : Nat) (w : Writer) : Writer :=
  if size = 0 then w.push (opening ++ closing) else (w.push opening).indent

def closeContainer (closing : String) (size : Nat) (w : Writer) : Writer :=
  if size = 0 then w else w.deindent.push closing

/-- Counts the children of a container that is opened, if it has any. -/
def countIn (size : Nat) (left : List Nat) : List Nat := if size = 0 then left else size :: left

def countOut (size : Nat) (left : List Nat) : List Nat := if size = 0 then left else left.drop 1

/-- One child less in the innermost container. -/
def countDown : List Nat → List Nat
  | [] => []
  | n :: rest => (n - 1) :: rest

/-- Writes the comma in front of the next child, if one is left. -/
def separate (left : List Nat) (w : Writer) : Writer :=
  match left with
  | [] => w
  | n :: _ => if n = 0 then w else w.pushLine ","

/-! ## The walk -/

def leavePair (st : State μ) : State μ :=
  let left := countDown st.pairsLeft
  { st with path := st.path.drop 1, pairsLeft := left }.write (separate left)

def leaveItem (st : State μ) : State μ :=
  let left := countDown st.itemsLeft
  { st with path := st.path.drop 1, itemsLeft := left }.write (separate left)

/-- Has a literal compiled under the path of the walk. -/
def visitLiteral (cx : Context μ) (st : State μ) (scalar : Scalar) (literal : String) :
    Except Refusal (State μ) := do
  let output ← writeMessage cx st.output st.fullPath scalar literal
  return { st with output }

/-- What the emission does at each event of the walk. -/
def visit (cx : Context μ) : Visitor (State μ) Refusal := fun event st =>
  match event with
  | .enterDocument _ => .ok (st.write (prelude cx.options))
  | .leaveDocument _ => .ok (st.write (epilogue cx.options cx.bridgePayload))
  | .enterMapping pairs _ =>
    let size := pairs.length
    .ok { st.write (openContainer "\x7b" "\x7d" size) with pairsLeft := countIn size st.pairsLeft }
  | .leaveMapping pairs _ =>
    let size := pairs.length
    .ok { st.write (closeContainer "\x7d" size) with pairsLeft := countOut size st.pairsLeft }
  | .enterSequence items _ =>
    let size := items.length
    .ok { st.write (openContainer "[" "]" size) with itemsLeft := countIn size st.itemsLeft }
  | .leaveSequence items _ =>
    let size := items.length
    .ok { st.write (closeContainer "]" size) with itemsLeft := countOut size st.itemsLeft }
  | .enterPair key _ =>
    .ok { st.push (Json.quoted key.text ++ ": ") with path := key.text :: st.path }
  | .enterItem index _ => .ok { st with path := toString index :: st.path }
  | .leavePair _ _ => .ok (leavePair st)
  | .leaveItem _ _ => .ok (leaveItem st)
  | .scalar s =>
    match s.value with
    | .string literal => visitLiteral cx st s literal
    | value =>
      if cx.options.forceStringify then visitLiteral cx st s value.text
      else .ok (st.push value.literal)
  | .verbatim v => .ok (st.write (·.pushMapped v.code v.span.start none))

end

/-- A generated module. -/
structure GeneratedModule where
  code : String
  /-- The structural map, when one was asked for. -/
  map : Option SourceMap
  /-- The maps of compiled literals; equal literals share one. -/
  codeMaps : CodeMaps

/-- The state in front of a document. -/
def State.start {μ : Type} (document : Document) (source : String) (options : Options)
    (memory : μ) : State μ where
  output := ⟨.new source document.filename options.sourceMap, [], [], memory⟩
  path := []
  pairsLeft := []
  itemsLeft := []

/--
The module of a document, what was said, and what the compiler remembers at the end; `source` is the
text that the spans of the document point into.
-/
def emitRemembering {μ : Type} (compiler : RememberingCompiler μ) (memory : μ)
    (diagnostics : Diagnostics) (bridgePayload : Option String) (document : Document)
    (source : String) (options : Options) :
    Except Refusal (GeneratedModule × List Notice × μ) := do
  let cx : Context μ :=
    ⟨source.toList, document.filename, options, compiler, diagnostics, bridgePayload⟩
  let st ← document.walk (visit cx) (.start document source options memory)
  let (code, map) := st.output.writer.finish
  return (⟨code, map, st.output.codeMaps⟩, st.output.log, st.output.memory)

/-- The module of a document, its messages compiled without a memory. -/
def emit (document : Document) (source : String) (options : Options)
    (collaborators : Collaborators) : Except Refusal (GeneratedModule × List Notice) := do
  let (generated, log, _) ← emitRemembering collaborators.compiler.forgetful ()
    collaborators.diagnostics collaborators.bridgePayload document source options
  return (generated, log)

end MessageCatalog.Emission
