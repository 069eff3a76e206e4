/-
What an emission comes to: its code, or the cause of its refusal. A layout is written in the same way
wherever its resource stands, so two resources whose chunks write the same code come to the same end,
if a refusal has the same cause in both.
-/
import Mathlib.Data.List.Forall2
import MessageCatalog.Proofs.Emission.Unmapped

namespace MessageCatalog.Emission

open MessageCatalog.Code MessageCatalog.Text

section

variable {μ ε : Type}

/-! ## Bare outputs -/

/-- What is left of an output without its maps and without what was said. -/
def Output.bare (out : Output μ) : Output μ := { out.unmapped with log := [] }

/-- What is left of an emission without its maps, what was said, and all of an error but its cause. -/
def verdict (cause : CompileError → ε) (answer : Except Refusal (Output μ)) : Except ε (Output μ) :=
  (answer.mapError (cause ·.error)).map (·.bare)

theorem verdict_bind {cause : CompileError → ε} {answer other : Except Refusal (Output μ)}
    {f g : Output μ → Except Refusal (Output μ)} (h : verdict cause other = verdict cause answer)
    (hf : ∀ {out other}, other.bare = out.bare → verdict cause (g other) = verdict cause (f out)) :
    verdict cause (other >>= g) = verdict cause (answer >>= f) := by
  cases answer with
  | ok out =>
    cases other with
    | ok other => exact hf (Except.ok.inj h)
    | error refusal => cases h
  | error refusal =>
    cases other with
    | ok other => cases h
    | error other => exact h

section

variable {cx : Context μ} {out other : Output μ}

theorem pushMapped_bare (out : Output μ) (code : String) (origin : Position) (name : Option String) :
    (out.write (·.pushMapped code origin name)).bare = out.bare.push code := rfl

theorem acceptMessage_bare (scalar : Scalar) (literal : String) (compiled : CompiledMessage) :
    (acceptMessage cx out scalar literal compiled).bare = out.bare.push compiled.code := by
  unfold acceptMessage
  dsimp only
  rw [pushMapped_bare]
  cases compiled.map with
  | none => rfl
  | some map =>
    dsimp only
    split <;> rfl

theorem keepRaw_bare (path : List String) (scalar : Scalar) (literal : String) (e : Message.Error) :
    (keepRaw cx out path scalar literal e).bare = out.bare.push (Json.quoted literal) := by
  unfold keepRaw
  rw [pushMapped_bare]
  rfl

theorem remembering_bare (h : other.bare = out.bare) (memory : μ) :
    { other with memory }.bare = { out with memory }.bare :=
  congrArg (fun o : Output μ => { o with memory }) h

end

/-! ## Chunks that write the same code -/

/-- Chunks that write the same code, or ask about the same message for scalars that are related. -/
inductive Chunk.Alike (same : Scalar → Scalar → Prop) : Chunk → Chunk → Prop where
  | text (code : String) : Alike same (.text code) (.text code)
  | message {s s' : Scalar} (scalars : same s s') (literal : String) (path : List String) :
    Alike same (.message s literal path) (.message s' literal path)
  | verbatim {v v' : Verbatim} (code : v.code = v'.code) : Alike same (.verbatim v) (.verbatim v')

theorem Chunk.alike_self (chunk : Chunk) : chunk.Alike Eq chunk := by
  cases chunk with
  | text code => exact .text code
  | message scalar literal path => exact .message rfl literal path
  | verbatim v => exact .verbatim rfl

/-- Contexts that ask the same compiler, and refuse a message of related scalars for the same cause. -/
structure Context.Agrees (cause : CompileError → ε) (same : Scalar → Scalar → Prop)
    (cx cx' : Context μ) : Prop where
  options : cx'.options = cx.options
  compiler : cx'.compiler = cx.compiler
  refusal : ∀ {s s' : Scalar}, same s s' → ∀ out out' path literal e,
    cause (refuse cx' out' path s' literal e).error = cause (refuse cx out path s literal e).error

section

variable {cause : CompileError → ε} {same : Scalar → Scalar → Prop} {cx cx' : Context μ}
  (hagrees : cx.Agrees cause same cx') {out other : Output μ} (h : other.bare = out.bare)

include hagrees h

theorem writeAnswer_alike {s s' : Scalar} (hscalars : same s s') (path : List String)
    (literal : String) (answer : Except Message.Error CompiledMessage) :
    verdict cause (writeAnswer cx' other path s' literal answer) =
      verdict cause (writeAnswer cx out path s literal answer) := by
  cases answer with
  | ok compiled =>
    refine congrArg Except.ok ?_
    show (acceptMessage cx' other _ _ _).bare = (acceptMessage cx out _ _ _).bare
    rw [acceptMessage_bare, acceptMessage_bare, h]
  | error e =>
    show verdict cause (if cx'.options.lenient then _ else _) =
      verdict cause (if cx.options.lenient then _ else _)
    rw [hagrees.options]
    split
    · refine congrArg Except.ok ?_
      show (keepRaw cx' other _ _ _ _).bare = (keepRaw cx out _ _ _ _).bare
      rw [keepRaw_bare, keepRaw_bare, h]
    · exact congrArg Except.error (hagrees.refusal hscalars out other path literal e)

theorem writeChunk_alike {chunk chunk' : Chunk} (halike : chunk.Alike same chunk') :
    verdict cause (writeChunk cx' other chunk') = verdict cause (writeChunk cx out chunk) := by
  cases halike with
  | text code => exact congrArg Except.ok (congrArg (Output.push · code) h)
  | @verbatim v v' hcode =>
    refine congrArg Except.ok ?_
    show (other.write (·.pushMapped v'.code v'.span.start none)).bare =
      (out.write (·.pushMapped v.code v.span.start none)).bare
    rw [pushMapped_bare, pushMapped_bare, h, hcode]
  | @message s s' hscalars literal path =>
    have hmemory : other.bare.memory = out.bare.memory := congrArg Output.memory h
    change other.memory = out.memory at hmemory
    unfold writeChunk writeMessage
    rw [hagrees.options, hagrees.compiler, hmemory]
    exact writeAnswer_alike hagrees (remembering_bare h _) hscalars path literal _

omit h in
/-- Chunks that write the same code, one by one, come to the same end. -/
theorem writeChunks_alike {chunks chunks' : List Chunk}
    (halike : List.Forall₂ (Chunk.Alike same) chunks chunks') :
    ∀ {out other : Output μ}, other.bare = out.bare →
      verdict cause (writeChunks cx' chunks' other) = verdict cause (writeChunks cx chunks out) := by
  induction halike with
  | nil => exact fun h => congrArg Except.ok h
  | cons hchunk _ ih =>
    intro out other h
    rw [writeChunks_cons, writeChunks_cons]
    exact verdict_bind (writeChunk_alike hagrees h hchunk) ih

end

end

/-! ## The module -/

/-- What stays the same while a document is emitted by a compiler without a memory. -/
def Collaborators.context (collaborators : Collaborators) (document : Document) (source : String)
    (options : Options) : Context Unit :=
  ⟨source.toList, document.filename, options, collaborators.compiler.forgetful,
    collaborators.diagnostics, collaborators.bridgePayload⟩

/-- The code of a module, or the cause of its refusal. -/
def codeOrCause {ε : Type} (cause : CompileError → ε)
    (emitted : Except Refusal (GeneratedModule × List Notice)) : Except ε String :=
  (emitted.mapError (cause ·.error)).map (·.1.code)

section

variable {ε : Type} {cause : CompileError → ε} {same : Scalar → Scalar → Prop}

theorem codeOrCause_finish (answer : Except Refusal (Output Unit)) :
    codeOrCause cause (do
      let (generated, log, _) ← answer.map Output.finish
      return (generated, log)) = (verdict cause answer).map (·.writer.code) := by
  cases answer <;> rfl

theorem codeOrCause_emit (document : Document) (source : String) (options : Options)
    (collaborators : Collaborators) :
    codeOrCause cause (emit document source options collaborators) =
      (verdict cause (writeChunks (collaborators.context document source options)
        (moduleChunks options collaborators.bridgePayload document.root)
        (State.start document source options ()).output)).map (·.writer.code) := by
  unfold emit
  rw [emitRemembering_eq]
  exact codeOrCause_finish _

/--
Documents whose layouts write the same code are emitted with the same code, or are refused for the
same cause, from whatever texts they are.
-/
theorem emit_alike {document other : Document} {options : Options} {collaborators : Collaborators}
    (hchunks : List.Forall₂ (Chunk.Alike same)
      (moduleChunks options collaborators.bridgePayload document.root)
      (moduleChunks options collaborators.bridgePayload other.root))
    (hcause : ∀ {s s' : Scalar}, same s s' → ∀ message literal path code,
      cause (collaborators.diagnostics.reject other.filename message
          ⟨literal, path, code, some s'.span⟩).2 =
        cause (collaborators.diagnostics.reject document.filename message
          ⟨literal, path, code, some s.span⟩).2)
    (source source' : String) :
    codeOrCause cause (emit other source' options collaborators) =
      codeOrCause cause (emit document source options collaborators) := by
  have hagrees : (collaborators.context document source options).Agrees cause same
      (collaborators.context other source' options) :=
    ⟨rfl, rfl, fun hscalars _ _ _ _ _ => hcause hscalars _ _ _ _⟩
  rw [codeOrCause_emit, codeOrCause_emit]
  exact congrArg _ (writeChunks_alike hagrees hchunks rfl)

end

end MessageCatalog.Emission
