/-
The layout of a resource: the chunks that its module is written in, by recursion over the tree. The
walk keeps its place on three stacks; `walkNode_eq` says that from any state it writes the chunks of
a node one after another and leaves the stacks as they were.
-/
import MessageCatalog.Emission.Module
import MessageCatalog.Proofs.Code.Writer

namespace MessageCatalog.Emission

open MessageCatalog.Code MessageCatalog.Text

/-! ## Chunks -/

/-- What is written at one place of a resource. -/
inductive Chunk where
  | text (code : String)
  /-- A literal that the message compiler is asked about, with the path of its leaf. -/
  | message (scalar : Scalar) (literal : String) (path : List String)
  | verbatim (v : Verbatim)
  deriving DecidableEq, Repr

/-- The comma and the line break between two children at a level. -/
def separator (level : Nat) : String := "," ++ Writer.lineBreak level

/--
Children between the brackets of a container at a level: each on a line of its own one level further
in, with a comma at the end of every line but the last.
-/
def bracketed (opening closing : String) (level : Nat) (children : List (List Chunk)) :
    List Chunk :=
  if children = [] then [.text (opening ++ closing)]
  else
    .text (opening ++ Writer.lineBreak (level + 1)) ::
      ([.text (separator (level + 1))].intercalate children ++
        [.text (Writer.lineBreak level ++ closing)])

/-- A string is compiled, and every other scalar too if all are to be strings. -/
def scalarChunk (options : Options) (path : List String) (s : Scalar) : Chunk :=
  match s.value with
  | .string literal => .message s literal path
  | value =>
    if options.forceStringify then .message s value.text path else .text value.literal

mutual

/-- The chunks of a node that stands at a level and a path. -/
def nodeChunks (options : Options) (level : Nat) (path : List String) : Node → List Chunk
  | .mapping pairs _ => bracketed "\x7b" "\x7d" level (pairChunks options (level + 1) path pairs)
  | .sequence items _ => bracketed "[" "]" level (itemChunks options (level + 1) path 0 items)
  | .scalar s => [scalarChunk options path s]
  | .verbatim v => [.verbatim v]

def pairChunks (options : Options) (level : Nat) (path : List String) :
    List (Key × Node) → List (List Chunk)
  | [] => []
  | (key, value) :: rest =>
    (.text (Json.quoted key.text ++ ": ") :: nodeChunks options level (path ++ [key.text]) value) ::
      pairChunks options level path rest

def itemChunks (options : Options) (level : Nat) (path : List String) (index : Nat) :
    List Node → List (List Chunk)
  | [] => []
  | item :: rest =>
    nodeChunks options level (path ++ [toString index]) item ::
      itemChunks options level path (index + 1) rest

end

theorem pairChunks_eq_nil {options : Options} {level : Nat} {path : List String}
    {pairs : List (Key × Node)} : pairChunks options level path pairs = [] ↔ pairs = [] := by
  cases pairs with
  | nil => simp [pairChunks]
  | cons p rest => obtain ⟨key, value⟩ := p; simp [pairChunks]

theorem itemChunks_eq_nil {options : Options} {level index : Nat} {path : List String}
    {items : List Node} : itemChunks options level path index items = [] ↔ items = [] := by
  cases items <;> simp [itemChunks]

theorem intercalate_cons {α : Type} (sep first : List α) (rest : List (List α)) :
    sep.intercalate (first :: rest) =
      first ++ if rest = [] then [] else sep ++ sep.intercalate rest := by
  cases rest with
  | nil => simp
  | cons second rest => simp

/-! ## Writing chunks -/

section

variable {μ : Type} (cx : Context μ)

def writeChunk (out : Output μ) : Chunk → Except Refusal (Output μ)
  | .text code => .ok (out.push code)
  | .message scalar literal path => writeMessage cx out path scalar literal
  | .verbatim v => .ok (out.write (·.pushMapped v.code v.span.start none))

/-- Writes chunks in order, until a message is refused. -/
def writeChunks (chunks : List Chunk) (out : Output μ) : Except Refusal (Output μ) :=
  chunks.foldlM (writeChunk cx) out

@[simp] theorem writeChunks_cons (chunk : Chunk) (chunks : List Chunk) (out : Output μ) :
    writeChunks cx (chunk :: chunks) out =
      writeChunk cx out chunk >>= writeChunks cx chunks := rfl

@[simp] theorem writeChunks_append (a b : List Chunk) (out : Output μ) :
    writeChunks cx (a ++ b) out = writeChunks cx a out >>= writeChunks cx b := by
  unfold writeChunks; rw [List.foldlM_append]

variable {cx}

theorem writeAnswer_level {out out' : Output μ} {path : List String} {scalar : Scalar}
    {literal : String} {answer : Except Message.Error CompiledMessage}
    (h : writeAnswer cx out path scalar literal answer = .ok out') :
    out'.writer.level = out.writer.level := by
  cases answer with
  | ok compiled =>
    cases h
    unfold acceptMessage
    cases compiled.map with
    | none => rfl
    | some map => simp only; split <;> rfl
  | error e =>
    simp only [writeAnswer] at h
    split at h
    · cases h; rfl
    · cases h

theorem writeChunk_level {out out' : Output μ} {chunk : Chunk}
    (h : writeChunk cx out chunk = .ok out') : out'.writer.level = out.writer.level := by
  cases chunk with
  | text code => cases h; rfl
  | message scalar literal path =>
    have := writeAnswer_level h
    exact this
  | verbatim v => cases h; rfl

theorem writeChunks_level {chunks : List Chunk} {out out' : Output μ}
    (h : writeChunks cx chunks out = .ok out') : out'.writer.level = out.writer.level := by
  induction chunks generalizing out with
  | nil => cases h; rfl
  | cons chunk chunks ih =>
    rw [writeChunks_cons] at h
    cases hc : writeChunk cx out chunk with
    | error e => rw [hc] at h; cases h
    | ok next =>
      rw [hc] at h
      rw [ih h, writeChunk_level hc]

/-! ## Levels -/

def Output.atLevel (out : Output μ) (level : Nat) : Output μ :=
  out.write (·.atLevel level)

@[simp] theorem Output.push_level (out : Output μ) (s : String) :
    (out.push s).writer.level = out.writer.level := rfl

theorem Output.atLevel_pushMapped (out : Output μ) (level : Nat) (code : String) (origin : Position)
    (name : Option String) :
    (out.atLevel level).write (·.pushMapped code origin name) =
      (out.write (·.pushMapped code origin name)).atLevel level := rfl

theorem writeAnswer_atLevel (out : Output μ) (level : Nat) (path : List String) (scalar : Scalar)
    (literal : String) (answer : Except Message.Error CompiledMessage) :
    writeAnswer cx (out.atLevel level) path scalar literal answer =
      (writeAnswer cx out path scalar literal answer).map (·.atLevel level) := by
  cases answer with
  | ok compiled =>
    show Except.ok _ = Except.ok _
    unfold acceptMessage
    cases compiled.map with
    | none => rfl
    | some map => simp only; split <;> rfl
  | error e =>
    simp only [writeAnswer]
    split
    · exact congrArg Except.ok (Output.atLevel_pushMapped (out.say _) level _ _ _)
    · rfl

theorem writeChunk_atLevel (out : Output μ) (level : Nat) (chunk : Chunk) :
    writeChunk cx (out.atLevel level) chunk = (writeChunk cx out chunk).map (·.atLevel level) := by
  cases chunk with
  | text code => rfl
  | message scalar literal path =>
    let asked := cx.compiler literal cx.options path out.memory
    exact writeAnswer_atLevel { out with memory := asked.2 } level path scalar literal asked.1
  | verbatim v => rfl

/-- What chunks write does not hang on the level, which stays what it is. -/
theorem writeChunks_atLevel (chunks : List Chunk) (out : Output μ) (level : Nat) :
    writeChunks cx chunks (out.atLevel level) =
      (writeChunks cx chunks out).map (·.atLevel level) := by
  induction chunks generalizing out with
  | nil => rfl
  | cons chunk chunks ih =>
    rw [writeChunks_cons, writeChunks_cons, writeChunk_atLevel]
    cases writeChunk cx out chunk with
    | error e => rfl
    | ok next => exact ih next

/-! ## The walk -/

def State.level (st : State μ) : Nat := st.output.writer.level

/-- Opening a container with children writes the bracket and a line break. -/
theorem openContainer_pos (opening closing : String) {size : Nat} (h : size ≠ 0) (out : Output μ) :
    out.write (openContainer opening closing size) =
      (out.push (opening ++ Writer.lineBreak (out.writer.level + 1))).atLevel
        (out.writer.level + 1) := by
  simp only [Output.write, openContainer, if_neg h, Writer.indent_eq, Output.push, Output.atLevel,
    Writer.push_level, Writer.push_push]

theorem closeContainer_pos (closing : String) {size : Nat} (h : size ≠ 0) (out : Output μ) :
    (out.atLevel (out.writer.level + 1)).write (closeContainer closing size) =
      out.push (Writer.lineBreak out.writer.level ++ closing) := by
  simp only [Output.write, closeContainer, if_neg h, Writer.deindent_eq, Output.push, Output.atLevel,
    Writer.push_atLevel, Writer.push_push, Writer.atLevel_level, Writer.atLevel_atLevel,
    Nat.add_sub_cancel]
  rfl

/-- Behind a child the comma is written if the list of the others is not empty. -/
theorem separate_length {α : Type} (rest : List α) (left : List Nat) (out : Output μ) :
    out.write (separate (rest.length :: left)) =
      if rest = [] then out else out.push (separator out.writer.level) := by
  cases rest with
  | nil => rfl
  | cons a rest =>
    show out.write (·.pushLine ",") = out.push (separator out.writer.level)
    simp only [Output.write, Writer.pushLine_eq]
    rfl

theorem separated_level {α : Type} (rest : List α) (text : Nat → String) (out : Output μ) :
    (if rest = [] then out else out.push (text out.writer.level)).writer.level =
      out.writer.level := by
  split <;> rfl

theorem writeChunks_singleton (chunk : Chunk) (out : Output μ) :
    writeChunks cx [chunk] out = writeChunk cx out chunk := by
  rw [writeChunks_cons]
  cases writeChunk cx out chunk <;> rfl

theorem visit_scalar (cx : Context μ) (s : Scalar) (st : State μ) :
    visit cx (.scalar s) st =
      (writeChunk cx st.output (scalarChunk cx.options st.fullPath s)).map
        fun output => { st with output } := by
  have hliteral : ∀ literal, visitLiteral cx st s literal =
      (writeChunk cx st.output (.message s literal st.fullPath)).map
        fun output => { st with output } := by
    intro literal
    simp only [visitLiteral, writeChunk]
    cases writeMessage cx st.output st.fullPath s literal <;> rfl
  simp only [visit, scalarChunk]
  cases s.value with
  | string literal => exact hliteral literal
  | number d =>
    simp only
    split
    · exact hliteral _
    · rfl
  | bool b =>
    simp only
    split
    · exact hliteral _
    · rfl
  | null =>
    simp only
    split
    · exact hliteral _
    · rfl

@[simp] theorem atLevel_level (out : Output μ) (level : Nat) :
    (out.atLevel level).writer.level = level := rfl

theorem writeChunks_intercalate_cons (level : Nat) (first : List Chunk) (rest : List (List Chunk))
    (out : Output μ) :
    writeChunks cx ([.text (separator level)].intercalate (first :: rest)) out =
      writeChunks cx first out >>= fun out =>
        writeChunks cx ([.text (separator level)].intercalate rest)
          (if rest = [] then out else out.push (separator level)) := by
  rw [intercalate_cons, writeChunks_append]
  congr 1
  funext out
  split
  · rename_i h; subst h; rfl
  · rfl

/-- What is left of the walk over a container when its children are written. -/
theorem walk_container {children : List (List Chunk)} (h : children ≠ []) {size : Nat}
    (hsize : size ≠ 0) {opening closing : String} {inner outer : Output μ → State μ}
    {leave : State μ → State μ}
    (hleave : ∀ out, leave (inner out) = outer (out.write (closeContainer closing size)))
    (out : Output μ) :
    ((writeChunks cx ([.text (separator (out.writer.level + 1))].intercalate children)
        (out.write (openContainer opening closing size))).map inner).bind (fun st => .ok (leave st)) =
      (writeChunks cx (bracketed opening closing out.writer.level children) out).map outer := by
  rw [openContainer_pos _ _ hsize, writeChunks_atLevel, bracketed, if_neg h, writeChunks_cons]
  show _ = (writeChunks cx (_ ++ _) (out.push _)).map outer
  rw [writeChunks_append]
  cases hw : writeChunks cx ([.text (separator (out.writer.level + 1))].intercalate children)
    (out.push (opening ++ Writer.lineBreak (out.writer.level + 1))) with
  | error e => rfl
  | ok written =>
    have hlevel := writeChunks_level hw
    replace hlevel : written.writer.level = out.writer.level := hlevel
    show Except.ok (leave (inner (written.atLevel (out.writer.level + 1)))) =
      Except.ok (outer (written.push (Writer.lineBreak out.writer.level ++ closing)))
    rw [hleave, ← hlevel, closeContainer_pos closing hsize]

/-- A child is written, then the comma if others follow, then the others. -/
theorem walk_child {α : Type} {first : List Chunk} {children : List (List Chunk)} {others : List α}
    (hothers : children = [] ↔ others = []) {level : Nat} {out : Output μ}
    (hout : out.writer.level = level) {inner outer : Output μ → State μ}
    {next : State μ → Except Refusal (State μ)}
    (hnext : ∀ written : Output μ, written.writer.level = level →
      next (inner written) =
        (writeChunks cx ([.text (separator level)].intercalate children)
          (if others = [] then written else written.push (separator written.writer.level))).map outer) :
    ((writeChunks cx first out).map inner).bind next =
      (writeChunks cx ([.text (separator level)].intercalate (first :: children)) out).map outer := by
  rw [writeChunks_intercalate_cons]
  cases hw : writeChunks cx first out with
  | error e => rfl
  | ok written =>
    have hlevel := (writeChunks_level hw).trans hout
    show next (inner written) = (writeChunks cx _ _).map outer
    rw [hnext written hlevel, hlevel]
    simp only [hothers]

mutual

/-- From any state the walk writes the chunks of a node and keeps its place. -/
theorem walkNode_eq (cx : Context μ) : ∀ (node : Node) (st : State μ),
    walkNode (visit cx) node st =
      (writeChunks cx (nodeChunks cx.options st.level st.fullPath node) st.output).map
        fun output => { st with output }
  | .scalar s, st => by
    rw [walkNode, visit_scalar, nodeChunks, writeChunks_singleton]
  | .verbatim v, st => rfl
  | .mapping [] span, st => rfl
  | .sequence [] span, st => rfl
  | .mapping (pair :: rest) span, ⟨output, path, pairsLeft, itemsLeft⟩ => by
    -- a container that is not empty counts its children on a new entry of its stack
    have hsize : (pair :: rest).length ≠ 0 := Nat.succ_ne_zero _
    have hchildren : pairChunks cx.options (output.writer.level + 1) path.reverse (pair :: rest) ≠ [] :=
      fun h => by cases pairChunks_eq_nil.1 h
    let inside : State μ :=
      ⟨output.write (openContainer "\x7b" "\x7d" (pair :: rest).length), path,
        (pair :: rest).length :: pairsLeft, itemsLeft⟩
    have hlevel : inside.level = output.writer.level + 1 := by
      show (output.write _).writer.level = _
      rw [openContainer_pos _ _ hsize, atLevel_level]
    show (walkPairs (visit cx) (pair :: rest) inside).bind _ = _
    rw [walkPairs_eq cx (pair :: rest) inside pairsLeft rfl, hlevel]
    exact walk_container hchildren hsize (fun out => rfl) output
  | .sequence (item :: rest) span, ⟨output, path, pairsLeft, itemsLeft⟩ => by
    have hsize : (item :: rest).length ≠ 0 := Nat.succ_ne_zero _
    have hchildren :
        itemChunks cx.options (output.writer.level + 1) path.reverse 0 (item :: rest) ≠ [] :=
      fun h => by cases itemChunks_eq_nil.1 h
    let inside : State μ :=
      ⟨output.write (openContainer "[" "]" (item :: rest).length), path, pairsLeft,
        (item :: rest).length :: itemsLeft⟩
    have hlevel : inside.level = output.writer.level + 1 := by
      show (output.write _).writer.level = _
      rw [openContainer_pos _ _ hsize, atLevel_level]
    show (walkItems (visit cx) 0 (item :: rest) inside).bind _ = _
    rw [walkItems_eq cx (item :: rest) 0 inside itemsLeft rfl, hlevel]
    exact walk_container hchildren hsize (fun out => rfl) output

/-- The count of the innermost mapping says how many pairs are left, and is down to zero behind them. -/
theorem walkPairs_eq (cx : Context μ) : ∀ (pairs : List (Key × Node)) (st : State μ) (left : List Nat),
    st.pairsLeft = pairs.length :: left →
    walkPairs (visit cx) pairs st =
      (writeChunks cx ([.text (separator st.level)].intercalate
        (pairChunks cx.options st.level st.fullPath pairs)) st.output).map
        fun output => { st with output, pairsLeft := 0 :: left }
  | [], ⟨output, path, pairsLeft, itemsLeft⟩, left, h => by
    cases h
    rfl
  | (key, value) :: rest, ⟨output, path, pairsLeft, itemsLeft⟩, left, h => by
    cases h
    let inside : State μ :=
      ⟨output.push (Json.quoted key.text ++ ": "), key.text :: path, (rest.length + 1) :: left,
        itemsLeft⟩
    have hpath : inside.fullPath = path.reverse ++ [key.text] := List.reverse_cons
    have hpush : [.text (separator output.writer.level)].intercalate
        (pairChunks cx.options output.writer.level path.reverse ((key, value) :: rest)) =
      .text (Json.quoted key.text ++ ": ") :: [.text (separator output.writer.level)].intercalate
        (nodeChunks cx.options output.writer.level (path.reverse ++ [key.text]) value ::
          pairChunks cx.options output.writer.level path.reverse rest) := by
      rw [pairChunks, intercalate_cons, intercalate_cons, List.cons_append]
    show (walkNode (visit cx) value inside).bind _ =
      (writeChunks cx ([.text (separator output.writer.level)].intercalate
        (pairChunks cx.options output.writer.level path.reverse ((key, value) :: rest))) output).map _
    rw [hpush, walkNode_eq cx value inside, hpath]
    refine walk_child pairChunks_eq_nil (Output.push_level output _) fun written hlevel => ?_
    -- leaving the pair counts it off, and a separator is written if pairs are left
    let outside : State μ :=
      ⟨written.write (separate (rest.length :: left)), path, rest.length :: left, itemsLeft⟩
    have houtside : outside.output =
        if rest = [] then written else written.push (separator written.writer.level) :=
      separate_length rest left written
    have hlevel' : outside.level = output.writer.level := by
      rw [State.level, houtside, separated_level, hlevel]
    show walkPairs (visit cx) rest outside = _
    rw [walkPairs_eq cx rest outside left rfl, hlevel', houtside]
    rfl

theorem walkItems_eq (cx : Context μ) : ∀ (items : List Node) (index : Nat) (st : State μ)
    (left : List Nat), st.itemsLeft = items.length :: left →
    walkItems (visit cx) index items st =
      (writeChunks cx ([.text (separator st.level)].intercalate
        (itemChunks cx.options st.level st.fullPath index items)) st.output).map
        fun output => { st with output, itemsLeft := 0 :: left }
  | [], index, ⟨output, path, pairsLeft, itemsLeft⟩, left, h => by
    cases h
    rfl
  | item :: rest, index, ⟨output, path, pairsLeft, itemsLeft⟩, left, h => by
    cases h
    let inside : State μ :=
      ⟨output, toString index :: path, pairsLeft, (rest.length + 1) :: left⟩
    have hpath : inside.fullPath = path.reverse ++ [toString index] := List.reverse_cons
    show (walkNode (visit cx) item inside).bind _ =
      (writeChunks cx ([_].intercalate (itemChunks _ output.writer.level path.reverse _ _)) output).map _
    rw [itemChunks, walkNode_eq cx item inside, hpath]
    refine walk_child itemChunks_eq_nil rfl fun written hlevel => ?_
    -- as for pairs, but an item is counted on the other stack
    let outside : State μ :=
      ⟨written.write (separate (rest.length :: left)), path, pairsLeft, rest.length :: left⟩
    have houtside : outside.output =
        if rest = [] then written else written.push (separator written.writer.level) :=
      separate_length rest left written
    have hlevel' : outside.level = output.writer.level := by
      rw [State.level, houtside, separated_level, hlevel]
    show walkItems (visit cx) (index + 1) rest outside = _
    rw [walkItems_eq cx rest (index + 1) outside left rfl, hlevel', houtside]
    rfl

end

/-! ## Around the resource -/

/-- The level that the resource stands at. -/
def baseLevel (options : Options) : Nat := if options.isComponent then 2 else 0

/-- What stands in front of the resource. -/
def preludeText (options : Options) : String :=
  let list := "_Component." ++ registry options
  if options.isComponent then
    options.exportPrefix ++ " function (Component) \x7b" ++
    Writer.lineBreak 1 ++ "const _Component = " ++ componentVariable options ++
    Writer.lineBreak 1 ++ list ++ " = " ++ list ++ " || []" ++
    Writer.lineBreak 1 ++ list ++ ".push(\x7b" ++
    Writer.lineBreak 2 ++ "\"locale\": " ++ Json.quoted options.locale ++ "," ++
    Writer.lineBreak 2 ++ "\"resource\": "
  else "const resource = "

/-- The registration of the payload of bridge output. -/
def bridgeText (options : Options) : Option String → String
  | some payload =>
    if options.bridge then
      Writer.lineBreak 1 ++ "_Component.__i18nBridge = _Component.__i18nBridge || []" ++
      Writer.lineBreak 1 ++ "_Component.__i18nBridge.push('" ++ Registration.quote payload ++ "')" ++
      Writer.lineBreak 1 ++ "delete _Component._Ctor"
    else ""
  | none => ""

/-- What stands behind the resource. -/
def epilogueText (options : Options) (bridgePayload : Option String) : String :=
  if options.isComponent then
    Writer.lineBreak 1 ++ "\x7d)" ++ bridgeText options bridgePayload ++ Writer.lineBreak 0 ++ "\x7d"
  else "\n" ++ options.exportPrefix ++ " resource"

theorem prelude_eq (options : Options) (w : Writer) (h : w.level = 0) :
    prelude options w = (w.push (preludeText options)).atLevel (baseLevel options) := by
  unfold prelude preludeText baseLevel
  split
  · simp only [Writer.indent_eq, Writer.pushLine_eq, Writer.push_atLevel, Writer.push_level,
      Writer.push_push, Writer.atLevel_level, Writer.atLevel_atLevel, h, String.append_assoc]
  · rw [← h]
    exact (Writer.atLevel_self _).symm

theorem bridgeRegistration_eq (payload : String) (w : Writer) :
    bridgeRegistration payload w = w.push (
      Writer.lineBreak w.level ++ "_Component.__i18nBridge = _Component.__i18nBridge || []" ++
      Writer.lineBreak w.level ++ "_Component.__i18nBridge.push('" ++ Registration.quote payload ++
      "')" ++ Writer.lineBreak w.level ++ "delete _Component._Ctor") := by
  simp only [bridgeRegistration, Writer.newline_eq, Writer.pushLine_eq, Writer.push_level,
    Writer.push_push, String.append_assoc]

theorem epilogue_eq (options : Options) (bridgePayload : Option String) (w : Writer)
    (h : w.level = baseLevel options) :
    epilogue options bridgePayload w =
      (w.push (epilogueText options bridgePayload)).atLevel 0 := by
  unfold epilogue epilogueText
  by_cases hc : options.isComponent = true
  · rw [baseLevel, if_pos hc] at h
    rw [if_pos hc, if_pos hc]
    simp only [Writer.deindent_eq, h, Nat.reduceSub, Writer.push_atLevel, Writer.push_push]
    cases bridgePayload with
    | none => simp [bridgeText, String.append_assoc]
    | some payload =>
      simp only [bridgeText]
      split
      · simp [bridgeRegistration_eq, String.append_assoc]
      · simp [String.append_assoc]
  · rw [baseLevel, if_neg hc] at h
    have hpush := Writer.atLevel_self (w.push ("\n" ++ options.exportPrefix ++ " resource"))
    rw [Writer.push_level, h] at hpush
    rw [if_neg hc, if_neg hc, Writer.push_push, hpush, String.append_assoc]

/-! ## The module -/

/-- The chunks of a module. -/
def moduleChunks (options : Options) (bridgePayload : Option String) (root : Node) : List Chunk :=
  .text (preludeText options) ::
    (nodeChunks options (baseLevel options) [] root ++ [.text (epilogueText options bridgePayload)])

/-- What is handed over when all is written. -/
def Output.finish (out : Output μ) : GeneratedModule × List Notice × μ :=
  (⟨out.writer.finish.1, out.writer.finish.2, out.codeMaps⟩, out.log, out.memory)

/-- An emission writes the chunks of the module. -/
theorem emitRemembering_eq (compiler : RememberingCompiler μ) (memory : μ)
    (diagnostics : Diagnostics) (bridgePayload : Option String) (document : Document)
    (source : String) (options : Options) :
    emitRemembering compiler memory diagnostics bridgePayload document source options =
      (writeChunks
        ⟨source.toList, document.filename, options, compiler, diagnostics, bridgePayload⟩
        (moduleChunks options bridgePayload document.root)
        (State.start document source options memory).output).map (·.finish) := by
  let cx : Context μ :=
    ⟨source.toList, document.filename, options, compiler, diagnostics, bridgePayload⟩
  let start := State.start document source options memory
  let inside : State μ := start.write (prelude options)
  have hinside : inside.output =
      (start.output.push (preludeText options)).atLevel (baseLevel options) :=
    congrArg (fun w => { start.output with writer := w }) (prelude_eq options start.output.writer rfl)
  have hlevel : inside.level = baseLevel options := by rw [State.level, hinside, atLevel_level]
  have hwalk : walkNode (visit cx) document.root inside =
      ((writeChunks cx (nodeChunks options (baseLevel options) [] document.root)
        (start.output.push (preludeText options))).map (·.atLevel (baseLevel options))).map
        fun output => { inside with output } := by
    rw [walkNode_eq, hlevel, hinside, writeChunks_atLevel]
    rfl
  unfold emitRemembering Document.walk
  show ((walkNode (visit cx) document.root inside).bind _).bind _ =
    (writeChunks cx (nodeChunks options (baseLevel options) [] document.root ++ _)
      (start.output.push (preludeText options))).map _
  rw [hwalk, writeChunks_append]
  cases writeChunks cx (nodeChunks options (baseLevel options) [] document.root)
    (start.output.push (preludeText options)) with
  | error e => rfl
  | ok written =>
    have hepilogue := epilogue_eq options bridgePayload (written.writer.atLevel (baseLevel options))
      (Writer.atLevel_level _ _)
    refine (congrArg (fun w => Except.ok (Output.finish { written with writer := w }))
      hepilogue).trans ?_
    rfl

end

end MessageCatalog.Emission
