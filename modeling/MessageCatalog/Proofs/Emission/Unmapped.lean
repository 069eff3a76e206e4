/-
Emission with and without a source map. `unmapped` forgets the maps of an output; every step of an
emission commutes with it. So an emission without a map is one with a map that is forgotten, and what
is kept for the maps has no part in the code, in what is said, or in what the compiler is asked.
-/
import MessageCatalog.Proofs.Emission.Leaves

namespace MessageCatalog

open MessageCatalog.Code MessageCatalog.Text

/-- The options with a source map asked for, or not. -/
def Options.mapping (options : Options) (sourceMap : Bool) : Options := { options with sourceMap }

/-- A compiler that answers the same whether or not a source map is asked for. -/
def RememberingCompiler.IgnoresSourceMap {μ : Type} (compiler : RememberingCompiler μ) : Prop :=
  ∀ literal (options : Options) path memory sourceMap,
    compiler literal (options.mapping sourceMap) path memory = compiler literal options path memory

theorem Message.compile_ignoresSourceMap : (MessageCompiler.forgetful compile).IgnoresSourceMap :=
  fun _ _ _ _ _ => rfl

/-! ## Forgetting maps -/

/-- The same code without a map. -/
def Code.Writer.unmapped (w : Writer) : Writer := { w with map := none }

namespace Emission

/-- The same module without its maps. -/
def GeneratedModule.unmapped (generated : GeneratedModule) : GeneratedModule :=
  { generated with map := none, codeMaps := [] }

section

variable {μ : Type}

/-- The same output without its maps. -/
def Output.unmapped (out : Output μ) : Output μ :=
  { out with writer := out.writer.unmapped, codeMaps := [] }

@[simp] theorem Output.pushMapped_unmapped (out : Output μ) (code : String) (origin : Position)
    (name : Option String) :
    out.unmapped.write (·.pushMapped code origin name) =
      (out.write (·.pushMapped code origin name)).unmapped := rfl

/-- The context with a source map asked for, or not. -/
def Context.mapping (cx : Context μ) (sourceMap : Bool) : Context μ :=
  { cx with options := cx.options.mapping sourceMap }

/-! ## Writing -/

variable {cx : Context μ}

theorem acceptMessage_unmapped (out : Output μ) (scalar : Scalar) (literal : String)
    (compiled : CompiledMessage) :
    acceptMessage (cx.mapping false) out.unmapped scalar literal compiled =
      (acceptMessage cx out scalar literal compiled).unmapped := by
  unfold acceptMessage
  cases compiled.map with
  | none => rfl
  | some map =>
    by_cases hmap : cx.options.sourceMap = true
    · simp only [hmap, if_true]
      rfl
    · simp only [hmap, Bool.false_eq_true, if_false]
      rfl

theorem writeAnswer_unmapped (out : Output μ) (path : List String) (scalar : Scalar)
    (literal : String) (answer : Except Message.Error CompiledMessage) :
    writeAnswer (cx.mapping false) out.unmapped path scalar literal answer =
      (writeAnswer cx out path scalar literal answer).map (·.unmapped) := by
  cases answer with
  | ok compiled => exact congrArg Except.ok (acceptMessage_unmapped out scalar literal compiled)
  | error e =>
    show (if cx.options.lenient then _ else _) = (if cx.options.lenient then _ else _ : Except _ _).map _
    split
    · exact congrArg Except.ok (Output.pushMapped_unmapped (out.say _) _ _ _)
    · rfl

variable (hcompiler : cx.compiler.IgnoresSourceMap)

include hcompiler

theorem writeChunk_unmapped (out : Output μ) (chunk : Chunk) :
    writeChunk (cx.mapping false) out.unmapped chunk =
      (writeChunk cx out chunk).map (·.unmapped) := by
  cases chunk with
  | text code => rfl
  | verbatim v => rfl
  | message scalar literal path =>
    have hasked : cx.compiler literal (cx.options.mapping false) path out.memory =
        cx.compiler literal cx.options path out.memory := hcompiler literal cx.options path _ false
    let asked := cx.compiler literal cx.options path out.memory
    have hanswer := @writeAnswer_unmapped _ cx { out with memory := asked.2 } path scalar literal asked.1
    refine Eq.trans ?_ hanswer
    show writeAnswer (cx.mapping false)
      { out.unmapped with memory := (cx.compiler literal (cx.options.mapping false) path out.memory).2 }
      path scalar literal (cx.compiler literal (cx.options.mapping false) path out.memory).1 = _
    rw [hasked]
    rfl

/-- Chunks that are written without a map are those that are written with one, which is forgotten. -/
theorem writeChunks_unmapped (chunks : List Chunk) (out : Output μ) :
    writeChunks (cx.mapping false) chunks out.unmapped =
      (writeChunks cx chunks out).map (·.unmapped) := by
  induction chunks generalizing out with
  | nil => rfl
  | cons chunk rest ih =>
    rw [writeChunks_cons, writeChunks_cons, writeChunk_unmapped hcompiler]
    cases writeChunk cx out chunk with
    | error refusal => rfl
    | ok next => exact ih next

end

/-! ## The module -/

theorem compiledLeaves_mapping (options : Options) (sourceMap : Bool) (root : Node) :
    compiledLeaves (options.mapping sourceMap) [] root = compiledLeaves options [] root := by
  apply compiledLeaves_congr
  rfl

theorem emitRemembering_unmapped {μ : Type} {compiler : RememberingCompiler μ}
    (hcompiler : compiler.IgnoresSourceMap) (memory : μ) (diagnostics : Diagnostics)
    (bridgePayload : Option String) (document : Document) (source : String) (options : Options) :
    emitRemembering compiler memory diagnostics bridgePayload document source (options.mapping false) =
      (emitRemembering compiler memory diagnostics bridgePayload document source options).map
        fun (generated, log, memory) => (generated.unmapped, log, memory) := by
  let cx : Context μ :=
    ⟨source.toList, document.filename, options, compiler, diagnostics, bridgePayload⟩
  have hchunks : moduleChunks (options.mapping false) bridgePayload document.root =
      moduleChunks options bridgePayload document.root := by apply moduleChunks_congr <;> rfl
  have hstart : (State.start document source (options.mapping false) memory).output =
      (State.start document source options memory).output.unmapped := rfl
  rw [emitRemembering_eq, emitRemembering_eq, hchunks, hstart]
  refine (congrArg _ (@writeChunks_unmapped _ cx hcompiler _ _)).trans ?_
  cases writeChunks cx (moduleChunks options bridgePayload document.root)
    (State.start document source options memory).output <;> rfl

/-- An emission without a map is one with a map that is forgotten. -/
theorem emit_unmapped {collaborators : Collaborators}
    (hcompiler : collaborators.compiler.forgetful.IgnoresSourceMap) (document : Document)
    (source : String) (options : Options) :
    emit document source (options.mapping false) collaborators =
      (emit document source options collaborators).map fun (generated, log) =>
        (generated.unmapped, log) := by
  unfold emit
  rw [emitRemembering_unmapped hcompiler]
  cases emitRemembering collaborators.compiler.forgetful () collaborators.diagnostics
    collaborators.bridgePayload document source options <;> rfl

end Emission

end MessageCatalog
