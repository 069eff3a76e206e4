/-
Emission with and without leniency. A lenient emission is never refused: it is the emission of a
compiler that answers with the string itself, and a warning, wherever a message is rejected. A strict
emission either gives the same module and says the same, or it stops at the first rejected message,
and up to there it has said what the lenient one says.
-/
import MessageCatalog.Proofs.Emission.Leaves
import MessageCatalog.Proofs.Error

namespace MessageCatalog

open MessageCatalog.Emission

/-- The options with rejected messages kept, or refused. -/
def Options.leniently (options : Options) (lenient : Bool) : Options := { options with lenient }

/-- A compiler that answers the same whether or not rejected messages are kept. -/
def RememberingCompiler.IgnoresLenient {μ : Type} (compiler : RememberingCompiler μ) : Prop :=
  ∀ literal (options : Options) path memory lenient,
    compiler literal (options.leniently lenient) path memory = compiler literal options path memory

namespace Emission

open MessageCatalog.Text

variable {μ : Type}

/-! ## Answers -/

/-- An answer of a compiler, with the leaf that it was asked about. -/
abbrev Answer := Leaf × Except Message.Error CompiledMessage

/-- What a compiler answers that is asked about leaves in order. -/
def answers (compiler : RememberingCompiler μ) (options : Options) : List Leaf → μ → List Answer
  | [], _ => []
  | leaf :: rest, memory =>
    let asked := compiler leaf.literal options leaf.path memory
    (leaf, asked.1) :: answers compiler options rest asked.2

/-- The warning about a message that is kept as it is. -/
def keptWarning (path : List String) (e : Message.Error) : String :=
  "`" ++ ".".intercalate path ++ "` kept as a raw string: " ++ e.text

/-- What is said about a leaf when nothing is refused. -/
def leafNotices (diagnostics : Diagnostics) (filename : String) : Answer → List Notice
  | (_, .ok compiled) => compiled.warnings.flatMap fun w => diagnostics.warn (filename ++ ": " ++ w)
  | (leaf, .error e) => diagnostics.warn (filename ++ ": " ++ keptWarning leaf.path e)

/-- What the channel makes of a rejected leaf. -/
def leafVerdict (diagnostics : Diagnostics) (filename : String) (leaf : Leaf) (e : Message.Error) :
    List Notice × CompileError :=
  diagnostics.reject filename e.fault.text
    ⟨leaf.literal, ".".intercalate leaf.path, e.fault.code, some leaf.scalar.span⟩

/-- A compiler that answers with the string itself, and a warning, where `compiler` rejects it. -/
def keepingRaw (compiler : RememberingCompiler μ) : RememberingCompiler μ :=
  fun literal options path memory =>
    let asked := compiler literal options path memory
    match asked.1 with
    | .ok compiled => (.ok compiled, asked.2)
    | .error e => (.ok ⟨Json.quoted literal, none, [keptWarning path e]⟩, asked.2)

/-! ## One chunk -/

/-- The context with rejected messages kept, or refused. -/
def Context.leniently (cx : Context μ) (lenient : Bool) : Context μ :=
  { cx with options := cx.options.leniently lenient }

section

variable {cx : Context μ} {out : Output μ} {leaf : Leaf} {memory : μ}

theorem acceptMessage_log (scalar : Scalar) (literal : String) (compiled : CompiledMessage) :
    (acceptMessage cx out scalar literal compiled).log =
      out.log ++ compiled.warnings.flatMap fun w => cx.diagnostics.warn (cx.filename ++ ": " ++ w) := by
  unfold acceptMessage
  cases compiled.map with
  | none => rfl
  | some map => simp only; split <;> rfl

/-- A rejected message is kept as an accepted one whose code is the string itself. -/
theorem keepRaw_eq_accept (path : List String) (scalar : Scalar) (literal : String)
    (e : Message.Error) :
    keepRaw cx out path scalar literal e =
      acceptMessage cx out scalar literal ⟨Json.quoted literal, none, [keptWarning path e]⟩ := by
  have htext : cx.filename ++ ": `" ++ ".".intercalate path ++ "` kept as a raw string: " ++ e.text =
      cx.filename ++ ": " ++ keptWarning path e := by
    rw [show (": `" : String) = ": " ++ "`" from rfl, keptWarning]
    simp only [String.append_assoc]
  unfold keepRaw acceptMessage
  simp only [htext, List.flatMap_cons, List.flatMap_nil, List.append_nil]

/-- A chunk without a message is written the same in every context, and nothing is said or asked. -/
theorem writeChunk_silent {chunk : Chunk} (h : chunk.leaf? = none) : ∃ next : Output μ,
    (∀ cx : Context μ, writeChunk cx out chunk = .ok next) ∧ next.log = out.log ∧
      next.memory = out.memory := by
  cases chunk with
  | text code => exact ⟨_, fun _ => rfl, rfl, rfl⟩
  | verbatim v => exact ⟨_, fun _ => rfl, rfl, rfl⟩
  | message scalar literal path => cases h

theorem leaf?_eq_some {chunk : Chunk} (h : chunk.leaf? = some leaf) :
    chunk = .message leaf.scalar leaf.literal leaf.path := by
  cases chunk with
  | message scalar literal path => cases h; rfl
  | _ => cases h

/-- A message is written as the compiler answers. -/
theorem writeChunk_asked {answer : Except Message.Error CompiledMessage}
    (h : cx.compiler leaf.literal cx.options leaf.path out.memory = (answer, memory)) :
    writeChunk cx out (.message leaf.scalar leaf.literal leaf.path) =
      writeAnswer cx { out with memory } leaf.path leaf.scalar leaf.literal answer := by
  unfold writeChunk writeMessage
  simp only [h]

section

variable (hcompiler : cx.compiler.IgnoresLenient)

include hcompiler

/-- An accepted message is written whether or not rejected ones are kept. -/
theorem writeChunk_accepted {compiled : CompiledMessage}
    (h : cx.compiler leaf.literal cx.options leaf.path out.memory = (.ok compiled, memory))
    (lenient : Bool) :
    writeChunk (cx.leniently lenient) out (.message leaf.scalar leaf.literal leaf.path) =
      .ok (acceptMessage cx { out with memory } leaf.scalar leaf.literal compiled) := by
  have hasked : (cx.leniently lenient).compiler leaf.literal (cx.leniently lenient).options leaf.path
      out.memory = (.ok compiled, memory) := (hcompiler _ _ _ _ lenient).trans h
  exact writeChunk_asked hasked

/-- A rejected message is kept, or the emission is refused. -/
theorem writeChunk_rejected {e : Message.Error}
    (h : cx.compiler leaf.literal cx.options leaf.path out.memory = (.error e, memory)) :
    writeChunk (cx.leniently true) out (.message leaf.scalar leaf.literal leaf.path) =
        .ok (keepRaw cx { out with memory } leaf.path leaf.scalar leaf.literal e) ∧
      writeChunk (cx.leniently false) out (.message leaf.scalar leaf.literal leaf.path) =
        .error ⟨(leafVerdict cx.diagnostics cx.filename leaf e).2,
          out.log ++ (leafVerdict cx.diagnostics cx.filename leaf e).1⟩ := by
  have hasked : ∀ lenient, (cx.leniently lenient).compiler leaf.literal
      (cx.leniently lenient).options leaf.path out.memory = (.error e, memory) :=
    fun lenient => (hcompiler _ _ _ _ lenient).trans h
  exact ⟨writeChunk_asked (hasked true), writeChunk_asked (hasked false)⟩

/-- A lenient context writes what a strict one does whose compiler keeps the rejected messages. -/
theorem writeChunk_keepingRaw (out : Output μ) (chunk : Chunk) :
    writeChunk (cx.leniently true) out chunk =
      writeChunk { cx.leniently false with compiler := keepingRaw cx.compiler } out chunk := by
  cases hleaf : chunk.leaf? with
  | none =>
    obtain ⟨next, hnext, -⟩ := @writeChunk_silent _ out _ hleaf
    rw [hnext, hnext]
  | some leaf =>
    obtain rfl := leaf?_eq_some hleaf
    let raw : Context μ := { cx.leniently false with compiler := keepingRaw cx.compiler }
    have hsame := hcompiler leaf.literal cx.options leaf.path out.memory false
    cases hasked : cx.compiler leaf.literal cx.options leaf.path out.memory with
    | mk answer memory =>
      rw [hasked] at hsame
      cases answer with
      | ok compiled =>
        have hraw : raw.compiler leaf.literal raw.options leaf.path out.memory =
            (.ok compiled, memory) := by
          show keepingRaw cx.compiler _ (cx.options.leniently false) _ _ = _
          unfold keepingRaw
          rw [hsame]
        rw [writeChunk_accepted hcompiler hasked]
        exact (writeChunk_asked hraw).symm
      | error e =>
        have hraw : raw.compiler leaf.literal raw.options leaf.path out.memory =
            (.ok ⟨Json.quoted leaf.literal, none, [keptWarning leaf.path e]⟩, memory) := by
          show keepingRaw cx.compiler _ (cx.options.leniently false) _ _ = _
          unfold keepingRaw
          rw [hsame]
        rw [(writeChunk_rejected hcompiler hasked).1, keepRaw_eq_accept]
        exact (writeChunk_asked hraw).symm

/-! ## All chunks -/

theorem writeChunks_keepingRaw (chunks : List Chunk) (out : Output μ) :
    writeChunks (cx.leniently true) chunks out =
      writeChunks { cx.leniently false with compiler := keepingRaw cx.compiler } chunks out := by
  have hchunk : writeChunk (cx.leniently true) =
      writeChunk { cx.leniently false with compiler := keepingRaw cx.compiler } :=
    funext fun out => funext fun chunk => writeChunk_keepingRaw hcompiler out chunk
  unfold writeChunks
  rw [hchunk]

/-- A lenient context writes all chunks, and says about each message what is to be said. -/
theorem writeChunks_leniently (chunks : List Chunk) (out : Output μ) :
    ∃ out', writeChunks (cx.leniently true) chunks out = .ok out' ∧
      out'.log = out.log ++ (answers cx.compiler cx.options (chunks.filterMap Chunk.leaf?)
        out.memory).flatMap (leafNotices cx.diagnostics cx.filename) := by
  induction chunks generalizing out with
  | nil => exact ⟨out, rfl, (List.append_nil _).symm⟩
  | cons chunk rest ih =>
    rw [writeChunks_cons]
    cases hleaf : chunk.leaf? with
    | none =>
      obtain ⟨next, hnext, hlog, hmemory⟩ := @writeChunk_silent _ out _ hleaf
      obtain ⟨out', hout', hsaid⟩ := ih next
      refine ⟨out', by rw [hnext]; exact hout', ?_⟩
      rw [hsaid, hlog, hmemory, List.filterMap_cons_none hleaf]
    | some leaf =>
      obtain rfl := leaf?_eq_some hleaf
      -- the rest is written from what an accepted or a kept message leaves
      obtain ⟨next, hnext, hlog, hmemory⟩ : ∃ next : Output μ,
          writeChunk (cx.leniently true) out (.message leaf.scalar leaf.literal leaf.path) =
              .ok next ∧
            next.log = out.log ++ leafNotices cx.diagnostics cx.filename
              (leaf, (cx.compiler leaf.literal cx.options leaf.path out.memory).1) ∧
            next.memory = (cx.compiler leaf.literal cx.options leaf.path out.memory).2 := by
        cases hasked : cx.compiler leaf.literal cx.options leaf.path out.memory with
        | mk answer memory =>
          cases answer with
          | ok compiled =>
            exact ⟨_, writeChunk_accepted hcompiler hasked true, acceptMessage_log _ _ _,
              (Prod.mk.inj (acceptMessage_code _ _ _ _)).2⟩
          | error e =>
            refine ⟨_, (writeChunk_rejected hcompiler hasked).1, ?_, rfl⟩
            rw [keepRaw_eq_accept, acceptMessage_log]
            exact congrArg (out.log ++ ·) (List.append_nil _)
      obtain ⟨out', hout', hsaid⟩ := ih next
      refine ⟨out', by rw [hnext]; exact hout', ?_⟩
      rw [hsaid, hlog, hmemory, List.filterMap_cons_some hleaf, answers, List.flatMap_cons,
        List.append_assoc]

/--
A strict context writes what a lenient one does if all messages are accepted, and otherwise it stops
at the first rejected one, with what was said up to there.
-/
theorem writeChunks_strictly (chunks : List Chunk) (out : Output μ) :
    (∀ answer ∈ answers cx.compiler cx.options (chunks.filterMap Chunk.leaf?) out.memory,
        answer.2.isOk) ∧
      writeChunks (cx.leniently false) chunks out = writeChunks (cx.leniently true) chunks out ∨
    ∃ before leaf e after,
      answers cx.compiler cx.options (chunks.filterMap Chunk.leaf?) out.memory =
        before ++ (leaf, .error e) :: after ∧
      (∀ answer ∈ before, answer.2.isOk) ∧
      writeChunks (cx.leniently false) chunks out =
        .error ⟨(leafVerdict cx.diagnostics cx.filename leaf e).2,
          out.log ++ before.flatMap (leafNotices cx.diagnostics cx.filename) ++
            (leafVerdict cx.diagnostics cx.filename leaf e).1⟩ := by
  induction chunks generalizing out with
  | nil => exact .inl ⟨List.forall_mem_nil _, rfl⟩
  | cons chunk rest ih =>
    rw [writeChunks_cons, writeChunks_cons]
    cases hleaf : chunk.leaf? with
    | none =>
      obtain ⟨next, hnext, hlog, hmemory⟩ := @writeChunk_silent _ out _ hleaf
      rw [hnext, hnext, List.filterMap_cons_none hleaf, ← hmemory, ← hlog]
      exact ih next
    | some leaf =>
      obtain rfl := leaf?_eq_some hleaf
      rw [List.filterMap_cons_some hleaf, answers]
      cases hasked : cx.compiler leaf.literal cx.options leaf.path out.memory with
      | mk answer memory =>
        cases answer with
        | ok compiled =>
          -- an accepted message is in front of the first rejected one of the rest
          rw [writeChunk_accepted hcompiler hasked, writeChunk_accepted hcompiler hasked]
          have hlog := @acceptMessage_log _ cx { out with memory } leaf.scalar leaf.literal compiled
          have hmemory := (Prod.mk.inj (@acceptMessage_code _ cx { out with memory } leaf.scalar
            leaf.literal compiled)).2
          generalize acceptMessage cx { out with memory } leaf.scalar leaf.literal compiled = next
            at hlog hmemory ⊢
          replace hmemory : next.memory = memory := hmemory
          rcases ih next with ⟨hall, hsame⟩ | ⟨before, rejected, e, after, hasked', hall, hstop⟩
          · rw [hmemory] at hall
            exact .inl ⟨List.forall_mem_cons.2 ⟨rfl, hall⟩, hsame⟩
          · rw [hmemory] at hasked'
            refine .inr ⟨(leaf, .ok compiled) :: before, rejected, e, after, ?_,
              List.forall_mem_cons.2 ⟨rfl, hall⟩, ?_⟩
            · rw [hasked', List.cons_append]
            · refine hstop.trans ?_
              rw [hlog, List.flatMap_cons, ← List.append_assoc]
              rfl
        | error e =>
          rw [(writeChunk_rejected hcompiler hasked).2]
          refine .inr ⟨[], leaf, e, _, rfl, List.forall_mem_nil _, ?_⟩
          rw [List.flatMap_nil, List.append_nil]
          rfl

end

end

/-! ## The module -/

/--
A lenient emission succeeds; it is the emission of a compiler that answers with the string itself and
one warning wherever a message is rejected, and about every leaf it says what is to be said, in
document order. A strict emission is the same if no message is rejected. Otherwise it is refused with
what the channel makes of the first rejected leaf, and all that was said before that is what the
lenient emission says about the leaves in front of it.
-/
theorem lenient_emission_extends_strict {compiler : RememberingCompiler μ}
    (hcompiler : compiler.IgnoresLenient) (memory : μ) (diagnostics : Diagnostics)
    (bridgePayload : Option String) (document : Document) (source : String) (options : Options) :
    let asked := answers compiler options (compiledLeaves options [] document.root) memory
    let said := leafNotices diagnostics document.filename
    let emission := fun compiler lenient => emitRemembering compiler memory diagnostics bridgePayload
      document source (options.leniently lenient)
    (∃ generated memory', emission compiler true = .ok (generated, asked.flatMap said, memory')) ∧
      emission compiler true = emission (keepingRaw compiler) false ∧
      ((∀ answer ∈ asked, answer.2.isOk) ∧ emission compiler false = emission compiler true ∨
        ∃ before leaf e after, asked = before ++ (leaf, .error e) :: after ∧
          (∀ answer ∈ before, answer.2.isOk) ∧
          emission compiler false =
            .error ⟨(leafVerdict diagnostics document.filename leaf e).2,
              before.flatMap said ++ (leafVerdict diagnostics document.filename leaf e).1⟩ ∧
          before.flatMap said <+: asked.flatMap said) := by
  intro asked said emission
  let cx : Context μ :=
    ⟨source.toList, document.filename, options, compiler, diagnostics, bridgePayload⟩
  let chunks := moduleChunks options bridgePayload document.root
  let out := (State.start document source options memory).output
  have hchunks : ∀ lenient, moduleChunks (options.leniently lenient) bridgePayload document.root =
      chunks := fun lenient => by apply moduleChunks_congr <;> rfl
  have hemission : ∀ lenient, emission compiler lenient =
      (writeChunks (cx.leniently lenient) chunks out).map (·.finish) := by
    intro lenient
    show emitRemembering _ _ _ _ _ _ _ = _
    rw [emitRemembering_eq, hchunks]
    rfl
  have hraw : emission (keepingRaw compiler) false =
      (writeChunks { cx.leniently false with compiler := keepingRaw compiler } chunks out).map
        (·.finish) := by
    show emitRemembering _ _ _ _ _ _ _ = _
    rw [emitRemembering_eq, hchunks]
    rfl
  have hasked : asked = answers cx.compiler cx.options (chunks.filterMap Chunk.leaf?) out.memory := by
    rw [moduleChunks_compiled]
    rfl
  refine ⟨?_, ?_, ?_⟩
  · obtain ⟨out', hout', hlog⟩ := @writeChunks_leniently _ cx hcompiler chunks out
    rw [← hasked] at hlog
    exact ⟨out'.finish.1, out'.memory, by
      rw [hemission, hout']
      exact congrArg (fun log => Except.ok (out'.finish.1, log, out'.memory)) hlog⟩
  · rw [hemission, hraw, @writeChunks_keepingRaw _ cx hcompiler]
  · rw [hemission, hemission]
    rcases @writeChunks_strictly _ cx hcompiler chunks out with
      ⟨hall, hsame⟩ | ⟨before, leaf, e, after, hsplit, hall, hstop⟩
    · exact .inl ⟨hasked ▸ hall, congrArg _ hsame⟩
    · rw [← hasked] at hsplit
      refine .inr ⟨before, leaf, e, after, hsplit, hall, ?_, ?_⟩
      · rw [hstop]
        rfl
      · rw [hsplit, List.flatMap_append]
        exact List.prefix_append _ _

/-- A strict emission stops at the second of three messages; the lenient one keeps it and goes on. -/
theorem lenient_emission_keeps_unterminated :
    let span : Span := ⟨⟨2, 4, 5⟩, ⟨2, 7, 8⟩⟩
    let string := fun text => Node.scalar ⟨.string text, span, span.start⟩
    let document : Document := ⟨.mapping [(⟨"a", span⟩, string "<b>"), (⟨"b", span⟩, .sequence
      [string "\x7b"] span), (⟨"c", span⟩, string "not reached")] span, "m.json"⟩
    let options : Options := { jit := true, strictMessage := false }
    let emission := fun lenient => emitRemembering (MessageCompiler.forgetful Message.compile) ()
      .full none document "" (options.leniently lenient)
    let warned : Notice := .warning
      "m.json: Detected HTML in '<b>' message. Recommend not using HTML messages to avoid XSS."
    (∃ generated memory, emission true = .ok (generated, [warned, .warning
      "m.json: `b.0` kept as a raw string: unterminated placeholder (offset 0)"], memory)) ∧
      emission false = .error ⟨.message "m.json" "unterminated placeholder"
        ⟨"\x7b", "b.0", "E-MSG-UNTERMINATED-PLACEHOLDER", some span⟩,
          [warned, .rejected "b.0" "unterminated placeholder"]⟩ := by
  intro span string document options emission warned
  obtain ⟨⟨generated, memory, hlenient⟩, -, hstrict⟩ := @lenient_emission_extends_strict _
    (MessageCompiler.forgetful Message.compile) (fun _ _ _ _ _ => rfl) () .full none document ""
    options
  have hfirst : Message.compile "<b>" options ["a"] = .ok ⟨"\"<b>\"", none,
      ["Detected HTML in '<b>' message. Recommend not using HTML messages to avoid XSS."]⟩ :=
    ok_of_toOption (by decide +kernel)
  have hsecond : Message.compile "\x7b" options ["b", "0"] = .error ⟨.unterminatedPlaceholder, 0⟩ :=
    error_of_failure? (by decide +kernel)
  have hthird : Message.compile "not reached" options ["c"] = .ok ⟨"\"not reached\"", none, []⟩ :=
    ok_of_toOption (by decide +kernel)
  have hasked : answers (MessageCompiler.forgetful Message.compile) options
      (compiledLeaves options [] document.root) () =
      [(⟨⟨.string "<b>", span, span.start⟩, "<b>", ["a"]⟩, .ok ⟨"\"<b>\"", none,
          ["Detected HTML in '<b>' message. Recommend not using HTML messages to avoid XSS."]⟩),
        (⟨⟨.string "\x7b", span, span.start⟩, "\x7b", ["b", "0"]⟩, .error ⟨.unterminatedPlaceholder, 0⟩),
        (⟨⟨.string "not reached", span, span.start⟩, "not reached", ["c"]⟩,
          .ok ⟨"\"not reached\"", none, []⟩)] := by
    rw [← hfirst, ← hsecond, ← hthird]
    rfl
  rw [hasked] at hlenient hstrict
  refine ⟨⟨generated, memory, hlenient⟩, ?_⟩
  rcases hstrict with ⟨hall, -⟩ | ⟨before, leaf, e, after, hsplit, hall, hstop, -⟩
  · exact absurd (hall (_, .error _) (.tail _ (.head _))) Bool.false_ne_true
  · -- the first message is accepted and the second is not, so the second is where it stops
    rcases before with _ | ⟨first, _ | ⟨second, rest⟩⟩
    · cases hsplit
    · cases hsplit
      exact hstop
    · obtain ⟨-, htail⟩ := List.cons.inj hsplit
      obtain ⟨rfl, -⟩ := List.cons.inj htail
      exact absurd (hall _ (.tail _ (.head _))) Bool.false_ne_true

end Emission

end MessageCatalog
