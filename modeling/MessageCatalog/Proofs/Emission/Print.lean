/-
Printing a resource. `printNode` writes a node by recursion over the tree and asks the compiler as it
goes. An emitted module is what is printed between a prelude and an epilogue, and the compiler was
asked about the messages of the resource in document order, each once and under its own path.
-/
import MessageCatalog.Proofs.Emission.Layout

namespace MessageCatalog.Emission

open MessageCatalog.Code

/-! ## The printer -/

/-- Printing asks a compiler on the way; a refused message leaves nothing. -/
abbrev Printing (μ : Type) := StateT μ Option

/--
Children between brackets, each on a line of its own one level further in, with a comma at the end of
every line but the last.
-/
def printLines (opening closing : String) (level : Nat) (children : List String) : String :=
  if children = [] then opening ++ closing
  else
    opening ++ Writer.lineBreak (level + 1) ++ (separator (level + 1)).intercalate children ++
      Writer.lineBreak level ++ closing

section

variable {μ : Type} (compiler : RememberingCompiler μ) (options : Options)

/-- The code of a message, or a rejected message as a string where that is allowed. -/
def printMessage (literal : String) (path : List String) : Printing μ String := fun memory =>
  match compiler literal options path memory with
  | (.ok compiled, memory) => some (compiled.code, memory)
  | (.error _, memory) => if options.lenient then some (Json.quoted literal, memory) else none

/-- The literal that is compiled for a scalar: a string, or any scalar if all are to be strings. -/
def message? (s : Scalar) : Option String :=
  match s.value with
  | .string literal => some literal
  | value => if options.forceStringify then some value.text else none

def printScalar (path : List String) (s : Scalar) : Printing μ String :=
  match message? options s with
  | some literal => printMessage compiler options literal path
  | none => pure s.value.literal

mutual

/-- Prints a node that stands at a level and a path. -/
def printNode (level : Nat) (path : List String) : Node → Printing μ String
  | .mapping pairs _ => printLines "\x7b" "\x7d" level <$> printPairs (level + 1) path pairs
  | .sequence items _ => printLines "[" "]" level <$> printItems (level + 1) path 0 items
  | .scalar s => printScalar compiler options path s
  | .verbatim v => pure v.code

def printPairs (level : Nat) (path : List String) : List (Key × Node) → Printing μ (List String)
  | [] => pure []
  | (key, value) :: rest => do
    let code ← printNode level (path ++ [key.text]) value
    let lines ← printPairs level path rest
    return (Json.quoted key.text ++ ": " ++ code) :: lines

def printItems (level : Nat) (path : List String) (index : Nat) :
    List Node → Printing μ (List String)
  | [] => pure []
  | item :: rest => do
    let code ← printNode level (path ++ [toString index]) item
    let lines ← printItems level path (index + 1) rest
    return code :: lines

end

/-! ## The messages -/

mutual

/-- The literals below a path that are compiled, in document order, each with its own path. -/
def messages (path : List String) : Node → List (String × List String)
  | .mapping pairs _ => pairMessages path pairs
  | .sequence items _ => itemMessages path 0 items
  | .scalar s => (message? options s).toList.map (·, path)
  | .verbatim _ => []

def pairMessages (path : List String) : List (Key × Node) → List (String × List String)
  | [] => []
  | (key, value) :: rest => messages (path ++ [key.text]) value ++ pairMessages path rest

def itemMessages (path : List String) (index : Nat) : List Node → List (String × List String)
  | [] => []
  | item :: rest => messages (path ++ [toString index]) item ++ itemMessages path (index + 1) rest

end

/-- What the compiler remembers when it was asked about messages in order. -/
def remember (asked : List (String × List String)) (memory : μ) : μ :=
  asked.foldl (fun memory (literal, path) => (compiler literal options path memory).2) memory

/-! ## Chunks are printed -/

theorem printing_bind {α β : Type} (x : Printing μ α) (f : α → Printing μ β) (memory : μ) :
    (x >>= f) memory = (x memory).bind fun printed => f printed.1 printed.2 := rfl

def printChunk : Chunk → Printing μ String
  | .text code => pure code
  | .message _ literal path => printMessage compiler options literal path
  | .verbatim v => pure v.code

def printChunks : List Chunk → Printing μ String
  | [] => pure ""
  | chunk :: rest => do
    let code ← printChunk compiler options chunk
    let codes ← printChunks rest
    return code ++ codes

variable {compiler options}

theorem printChunks_append (a b : List Chunk) :
    printChunks compiler options (a ++ b) =
      (do
        let front ← printChunks compiler options a
        let back ← printChunks compiler options b
        return front ++ back) := by
  induction a with
  | nil => simp only [printChunks, List.nil_append, pure_bind, String.empty_append, bind_pure]
  | cons chunk a ih =>
    simp only [printChunks, List.cons_append, ih, bind_assoc, pure_bind, String.append_assoc]

theorem printChunks_text (code : String) (rest : List Chunk) :
    printChunks compiler options (.text code :: rest) =
      (code ++ ·) <$> printChunks compiler options rest := by
  simp [printChunks, printChunk]

/-- The chunk of a scalar asks about its message, or is the literal of one that is not compiled. -/
theorem scalarChunk_eq (options : Options) (path : List String) (s : Scalar) :
    scalarChunk options path s =
      match message? options s with
      | some literal => .message s literal path
      | none => .text s.value.literal := by
  unfold scalarChunk message?
  cases s.value <;> simp only <;> try split
  all_goals rfl

theorem printChunks_scalar (path : List String) (s : Scalar) :
    printChunks compiler options [scalarChunk options path s] =
      printScalar compiler options path s := by
  rw [scalarChunk_eq, printScalar]
  cases message? options s <;> simp [printChunks, printChunk]

/-- Separated children are printed separated. -/
theorem printChunks_intercalate (sep : String) (children : List (List Chunk)) :
    printChunks compiler options ([.text sep].intercalate children) =
      sep.intercalate <$> children.mapM (printChunks compiler options) := by
  induction children with
  | nil => simp [printChunks]
  | cons first rest ih =>
    rw [intercalate_cons, printChunks_append, List.mapM_cons]
    cases rest with
    | nil => simp [printChunks]
    | cons second rest =>
      rw [if_neg (List.cons_ne_nil _ _), List.singleton_append, printChunks_text, ih]
      simp [List.mapM_cons, String.intercalate_cons_cons, String.append_assoc]

/-- The chunks of a container are printed as lines, if its children are printed as `lines`. -/
theorem printChunks_bracketed {opening closing : String} {level : Nat} {children : List (List Chunk)}
    {lines : Printing μ (List String)}
    (h : children.mapM (printChunks compiler options) = lines) :
    printChunks compiler options (bracketed opening closing level children) =
      printLines opening closing level <$> lines := by
  subst h
  unfold bracketed
  cases children with
  | nil => simp [printChunks, printChunk, printLines]
  | cons first rest =>
    rw [if_neg (List.cons_ne_nil _ _), printChunks_text, printChunks_append, printChunks_intercalate]
    simp [List.mapM_cons, printChunks, printChunk, printLines, separator, String.append_assoc]

mutual

theorem printChunks_node : ∀ (node : Node) (level : Nat) (path : List String),
    printChunks compiler options (nodeChunks options level path node) =
      printNode compiler options level path node
  | .scalar s, level, path => by
    rw [nodeChunks, printNode, printChunks_scalar]
  | .verbatim v, level, path => by
    simp [nodeChunks, printNode, printChunks, printChunk]
  | .mapping pairs span, level, path => by
    rw [nodeChunks, printNode, printChunks_bracketed (mapM_printChunks_pairs pairs (level + 1) path)]
  | .sequence items span, level, path => by
    rw [nodeChunks, printNode, printChunks_bracketed (mapM_printChunks_items items (level + 1) path 0)]

theorem mapM_printChunks_pairs : ∀ (pairs : List (Key × Node)) (level : Nat) (path : List String),
    (pairChunks options level path pairs).mapM (printChunks compiler options) =
      printPairs compiler options level path pairs
  | [], level, path => by
    rw [pairChunks, printPairs, List.mapM_nil]
  | (key, value) :: rest, level, path => by
    rw [pairChunks, printPairs, List.mapM_cons, printChunks_text, printChunks_node value,
      mapM_printChunks_pairs rest]
    simp

theorem mapM_printChunks_items : ∀ (items : List Node) (level : Nat) (path : List String)
    (index : Nat), (itemChunks options level path index items).mapM (printChunks compiler options) =
      printItems compiler options level path index items
  | [], level, path, index => by
    rw [itemChunks, printItems, List.mapM_nil]
  | item :: rest, level, path, index => by
    rw [itemChunks, printItems, List.mapM_cons, printChunks_node item, mapM_printChunks_items rest]

end

/-! ## What is written is printed -/

variable {cx : Context μ}

theorem acceptMessage_code (out : Output μ) (scalar : Scalar) (literal : String)
    (compiled : CompiledMessage) :
    ((acceptMessage cx out scalar literal compiled).writer.code,
      (acceptMessage cx out scalar literal compiled).memory) =
        (out.writer.code ++ compiled.code, out.memory) := by
  unfold acceptMessage
  cases compiled.map with
  | none => rfl
  | some map => simp only; split <;> rfl

theorem keepRaw_code (out : Output μ) (path : List String) (scalar : Scalar) (literal : String)
    (e : Message.Error) :
    ((keepRaw cx out path scalar literal e).writer.code,
      (keepRaw cx out path scalar literal e).memory) =
        (out.writer.code ++ Json.quoted literal, out.memory) := rfl

/-- A chunk adds the code it is printed as, or stops the emission where it is not printed. -/
theorem writeChunk_printed (out : Output μ) (chunk : Chunk) :
    (writeChunk cx out chunk).toOption.map (fun out => (out.writer.code, out.memory)) =
      (printChunk cx.compiler cx.options chunk out.memory).map
        fun (code, memory) => (out.writer.code ++ code, memory) := by
  cases chunk with
  | text code => rfl
  | verbatim v => rfl
  | message scalar literal path =>
    simp only [writeChunk, writeMessage, printChunk, printMessage]
    generalize cx.compiler literal cx.options path out.memory = asked
    obtain ⟨answer, memory⟩ := asked
    cases answer with
    | ok compiled => exact congrArg some (acceptMessage_code _ scalar literal compiled)
    | error e =>
      simp only [writeAnswer]
      split
      · exact congrArg some (keepRaw_code _ path scalar literal e)
      · rfl

theorem writeChunks_printed (chunks : List Chunk) (out : Output μ) :
    (writeChunks cx chunks out).toOption.map (fun out => (out.writer.code, out.memory)) =
      (printChunks cx.compiler cx.options chunks out.memory).map
        fun (code, memory) => (out.writer.code ++ code, memory) := by
  induction chunks generalizing out with
  | nil => exact congrArg (fun code => some (code, out.memory)) (String.append_empty).symm
  | cons chunk rest ih =>
    -- a chunk is written where it is printed; the rest goes on with the memory that it leaves
    have hchunk := @writeChunk_printed _ cx out chunk
    rw [writeChunks_cons, printChunks, printing_bind]
    cases hp : printChunk cx.compiler cx.options chunk out.memory with
    | none =>
      cases hw : writeChunk cx out chunk with
      | error e => rfl
      | ok next => rw [hp, hw] at hchunk; cases hchunk
    | some printed =>
      obtain ⟨code, memory⟩ := printed
      cases hw : writeChunk cx out chunk with
      | error e => rw [hp, hw] at hchunk; cases hchunk
      | ok next =>
        rw [hp, hw] at hchunk
        obtain ⟨hcode, hmemory⟩ := Prod.mk.inj (Option.some.inj hchunk)
        refine (ih next).trans ?_
        rw [hcode, hmemory, Option.bind_some, printing_bind, Option.map_bind, Option.map_eq_bind]
        congr 1
        funext printed
        simp only [String.append_assoc]
        rfl

/-! ## What is asked -/

theorem remember_append (a b : List (String × List String)) (memory : μ) :
    remember compiler options (a ++ b) memory =
      remember compiler options b (remember compiler options a memory) := List.foldl_append

theorem printMessage_memory {literal code : String} {path : List String} {memory memory' : μ}
    (h : printMessage compiler options literal path memory = some (code, memory')) :
    memory' = (compiler literal options path memory).2 := by
  unfold printMessage at h
  generalize compiler literal options path memory = asked at h ⊢
  obtain ⟨answer, next⟩ := asked
  cases answer with
  | ok compiled => cases h; rfl
  | error e =>
    simp only at h
    split at h
    · cases h; rfl
    · cases h

theorem printScalar_memory {s : Scalar} {code : String} {path : List String} {memory memory' : μ}
    (h : printScalar compiler options path s memory = some (code, memory')) :
    memory' = remember compiler options ((message? options s).toList.map (·, path)) memory := by
  unfold printScalar at h
  cases hm : message? options s with
  | some literal => rw [hm] at h; exact printMessage_memory h
  | none => rw [hm] at h; cases h; rfl

/-- Two steps that ask about two lists ask about both. -/
theorem printed_bind {α β γ : Type} {x : Printing μ α} {y : Printing μ β} {f : α → β → γ}
    {memory memory' : μ} {c : γ} {front back : List (String × List String)}
    (hx : ∀ {a m m'}, x m = some (a, m') → m' = remember compiler options front m)
    (hy : ∀ {b m m'}, y m = some (b, m') → m' = remember compiler options back m)
    (h : (do return f (← x) (← y)) memory = some (c, memory')) :
    memory' = remember compiler options (front ++ back) memory := by
  rw [printing_bind] at h
  obtain ⟨⟨a, middle⟩, ha, h⟩ := Option.bind_eq_some_iff.1 h
  rw [printing_bind] at h
  obtain ⟨⟨b, last⟩, hb, h⟩ := Option.bind_eq_some_iff.1 h
  cases h
  rw [remember_append, ← hx ha, ← hy hb]

theorem printed_map {α β : Type} {x : Printing μ α} {f : α → β} {memory memory' : μ} {b : β}
    {asked : List (String × List String)}
    (hx : ∀ {a m m'}, x m = some (a, m') → m' = remember compiler options asked m)
    (h : (f <$> x) memory = some (b, memory')) :
    memory' = remember compiler options asked memory := by
  rw [map_eq_pure_bind, printing_bind] at h
  obtain ⟨⟨a, last⟩, ha, h⟩ := Option.bind_eq_some_iff.1 h
  cases h
  exact hx ha

mutual

theorem printNode_memory : ∀ (node : Node) {level : Nat} {path : List String} {code : String}
    {memory memory' : μ}, printNode compiler options level path node memory = some (code, memory') →
    memory' = remember compiler options (messages options path node) memory
  | .scalar s, level, path, code, memory, memory', h => by
    rw [messages]; exact printScalar_memory h
  | .verbatim v, level, path, code, memory, memory', h => by
    rw [printNode] at h; cases h; rfl
  | .mapping pairs span, level, path, code, memory, memory', h => by
    rw [printNode] at h
    rw [messages]
    exact printed_map (printPairs_memory pairs) h
  | .sequence items span, level, path, code, memory, memory', h => by
    rw [printNode] at h
    rw [messages]
    exact printed_map (printItems_memory items) h

theorem printPairs_memory : ∀ (pairs : List (Key × Node)) {level : Nat} {path lines : List String}
    {memory memory' : μ},
    printPairs compiler options level path pairs memory = some (lines, memory') →
    memory' = remember compiler options (pairMessages options path pairs) memory
  | [], level, path, lines, memory, memory', h => by
    cases h; rfl
  | (key, value) :: rest, level, path, lines, memory, memory', h => by
    rw [printPairs] at h
    rw [pairMessages]
    exact printed_bind (printNode_memory value) (printPairs_memory rest) h

theorem printItems_memory : ∀ (items : List Node) {level index : Nat} {path lines : List String}
    {memory memory' : μ},
    printItems compiler options level path index items memory = some (lines, memory') →
    memory' = remember compiler options (itemMessages options path index items) memory
  | [], level, index, path, lines, memory, memory', h => by
    cases h; rfl
  | item :: rest, level, index, path, lines, memory, memory', h => by
    rw [printItems] at h
    rw [itemMessages]
    exact printed_bind (printNode_memory item) (printItems_memory rest) h

end

/-! ## The module -/

theorem printChunks_module (bridgePayload : Option String) (root : Node) (memory : μ) :
    printChunks compiler options (moduleChunks options bridgePayload root) memory =
      (printNode compiler options (baseLevel options) [] root memory).map fun (code, memory) =>
        (preludeText options ++ code ++ epilogueText options bridgePayload, memory) := by
  rw [moduleChunks, printChunks_text, printChunks_append, printChunks_node, map_bind, printing_bind,
    Option.map_eq_bind]
  congr 1
  funext printed
  show ((preludeText options ++ ·) <$> (do
    let back ← printChunks compiler options [.text (epilogueText options bridgePayload)]
    return printed.1 ++ back)) printed.2 =
      some (preludeText options ++ printed.1 ++ epilogueText options bridgePayload, printed.2)
  rw [printChunks_text, String.append_assoc]
  exact congrArg (fun back => some (preludeText options ++ (printed.1 ++ back), printed.2))
    String.append_empty

theorem emitRemembering_printed (memory : μ) (diagnostics : Diagnostics)
    (bridgePayload : Option String) (document : Document) (source : String) :
    (emitRemembering compiler memory diagnostics bridgePayload document source options).toOption.map
        (fun (generated, _, memory) => (generated.code, memory)) =
      (printNode compiler options (baseLevel options) [] document.root memory).map
        fun (code, memory) =>
          (preludeText options ++ code ++ epilogueText options bridgePayload, memory) := by
  have hwritten := @writeChunks_printed _
    ⟨source.toList, document.filename, options, compiler, diagnostics, bridgePayload⟩
    (moduleChunks options bridgePayload document.root)
    (State.start document source options memory).output
  rw [emitRemembering_eq, ← printChunks_module]
  refine Eq.trans ?_ (hwritten.trans ?_)
  · cases writeChunks _ (moduleChunks options bridgePayload document.root) _ <;> rfl
  · show Option.map (fun (printed : String × μ) => ("" ++ printed.1, printed.2)) _ = _
    simp only [String.empty_append]
    exact Option.map_id'

/--
An emission succeeds where the resource can be printed; its code is the printed resource between the
prelude and the epilogue, and its compiler was asked about the messages of the resource, each once, in
document order and under its own path.
-/
theorem emission_prints_resource (memory : μ) (diagnostics : Diagnostics)
    (bridgePayload : Option String) (document : Document) (source : String) :
    (emitRemembering compiler memory diagnostics bridgePayload document source options).toOption.map
        (fun (generated, _, memory) => (generated.code, memory)) =
      (printNode compiler options (baseLevel options) [] document.root memory).map
        fun (code, _) =>
          (preludeText options ++ code ++ epilogueText options bridgePayload,
            remember compiler options (messages options [] document.root) memory) := by
  rw [emitRemembering_printed]
  cases hp : printNode compiler options (baseLevel options) [] document.root memory with
  | none => rfl
  | some printed =>
    obtain ⟨code, memory'⟩ := printed
    rw [← printNode_memory document.root hp]
    rfl

/-- A compiler without a memory prints the same resource. -/
theorem emit_printed (document : Document) (source : String) (collaborators : Collaborators) :
    (emit document source options collaborators).toOption.map (·.1.code) =
      (printNode collaborators.compiler.forgetful options (baseLevel options) [] document.root ()).map
        fun (code, _) =>
          preludeText options ++ code ++ epilogueText options collaborators.bridgePayload := by
  have hprinted := congrArg (Option.map Prod.fst)
    (@emitRemembering_printed _ collaborators.compiler.forgetful options () collaborators.diagnostics
      collaborators.bridgePayload document source)
  rw [Option.map_map, Option.map_map] at hprinted
  refine Eq.trans ?_ hprinted
  unfold emit
  cases emitRemembering collaborators.compiler.forgetful () collaborators.diagnostics
    collaborators.bridgePayload document source options <;> rfl

end

end MessageCatalog.Emission
