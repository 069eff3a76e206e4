/-
What the source map of a module says at each message: where its code comes from, and, where the
message was compiled, where its function and its items come from. `Maps` is the meaning; the
structural map and the maps of the literals, composed, say just that.
-/
import MessageCatalog.Proofs.Code.Tracking
import MessageCatalog.Proofs.Emission.Layout
import MessageCatalog.Proofs.Emission.LiteralColumns
import MessageCatalog.Proofs.Message.Places
import MessageCatalog.Proofs.Script.Leaf
import MessageCatalog.Proofs.SourceMap.Merge
import Mathlib.Data.List.Nodup

namespace MessageCatalog.Emission

open MessageCatalog.Code MessageCatalog.Message MessageCatalog.Script MessageCatalog.Text

/-! ## Where messages stand -/

/-- The code of a message: a function, or a string where the message is rejected and kept. -/
def messageCode (options : Options) (literal : String) (path : List String) : String :=
  match Message.compile literal options path with
  | .ok compiled => compiled.code
  | .error _ => Json.quoted literal

theorem messageCode_ok {options : Options} {literal : String} {path : List String}
    {compiled : CompiledMessage} (h : Message.compile literal options path = .ok compiled) :
    messageCode options literal path = compiled.code := by
  unfold messageCode
  rw [h]

theorem messageCode_error {options : Options} {literal : String} {path : List String}
    {e : Message.Error} (h : Message.compile literal options path = .error e) :
    messageCode options literal path = Json.quoted literal := by
  unfold messageCode
  rw [h]

def chunkText (options : Options) : Chunk → List Char
  | .text code => code.toList
  | .message _ literal path => (messageCode options literal path).toList
  | .verbatim v => v.code.toList

def chunksText (options : Options) (chunks : List Chunk) : List Char :=
  chunks.flatMap (chunkText options)

/-- A message of a module: its leaf and path, and the generated text in front of its code. -/
structure Placement extends Leaf where
  before : List Char

/-- The messages of chunks that are written behind a text. -/
def placements (options : Options) (before : List Char) : List Chunk → List Placement
  | [] => []
  | chunk :: rest =>
    let others := placements options (before ++ chunkText options chunk) rest
    match chunk with
    | .message scalar literal path => ⟨⟨scalar, literal, path⟩, before⟩ :: others
    | _ => others

/-! ## What a map says about a message -/

/-- The reading that leads from the end of a generated text to a position of the source text. -/
def readingAt (generated : List Char) (filename : String) (origin : Position) (name : Option String) :
    Reading :=
  let place := advance (0, 0) generated
  ⟨place.1, place.2, filename, origin.line - 1, origin.column, name⟩

/--
What is said about a message: the start of its code comes from the start of its content and bears its
name. If it is compiled, the code of each item comes from what spells the item's first character in
the token, and in development the function inside comes from the start of the content as well.
-/
inductive Maps (source : List Char) (filename : String) (options : Options) (p : Placement) :
    Reading → Prop where
  | code : Maps source filename options p
      (readingAt p.before filename p.scalar.contentStart (some p.literal))
  | function {compiled : CompiledMessage}
      (accepted : Message.compile p.literal options p.path = .ok compiled)
      (development : options.environment = .development) :
      Maps source filename options p
        (readingAt (p.before ++ openingText .development) filename p.scalar.contentStart none)
  | item {compiled : CompiledMessage} {cases : List Case} {item : Item} {front : List Char}
      {place : Nat}
      (accepted : Message.compile p.literal options p.path = .ok compiled)
      (parsed : parse p.literal.toList = .ok cases) (mem : item ∈ cases.flatten)
      (starts : StartsBehind cases p.literal.toList options.environment item front)
      (spelled : p.SpellsAt source item.offset place) :
      Maps source filename options p
        (readingAt (p.before ++ front) filename ((LineIndex.ofText source).position place) none)

/-! ## The map of one message -/

section

variable {source before raw after : List Char} {quote : Char} {p : Placement}

/-- An anchor of a function at a part of the literal, which is spelled by a part of the token. -/
structure Anchored (p : Placement) (pieces : List Message.Piece) (quote : Char)
    (raw front rawFront literalFront : List Char) : Prop where
  anchor : AnchoredAt pieces front (byteLength literalFront)
  split : ∃ literalBack rawBack, p.literal.toList = literalFront ++ literalBack ∧
    raw = rawFront ++ rawBack ∧ Spelled quote rawBack literalBack
  spelled : Spelled quote rawFront literalFront

theorem standsAt_byteLength_lt (h : p.StandsAt source quote before raw after)
    (hsource : byteLength source < wordLimit) :
    byteLength raw < wordLimit ∧ byteLength p.literal.toList < wordLimit := by
  have hraw : byteLength raw < wordLimit := by
    rw [h.text, byteLength_append, byteLength, byteLength_append] at hsource
    omega
  exact ⟨hraw, Nat.lt_of_le_of_lt h.spelled.byteLength_le hraw⟩

/-- The map of a compiled literal, moved into its token. -/
theorem literalMap_tells {μ : Type} {cx : Context μ} (hcx : cx.source = source)
    (h : p.StandsAt source quote before raw after) (hsource : byteLength source < wordLimit)
    {cases : List Case} (hparse : parse p.literal.toList = .ok cases) {environment : Environment}
    (hcode : units (piecesText (functionPieces cases p.literal.toList environment)) < wordLimit) :
    (literalMap cx p.scalar p.literal
      (functionMap (anchorsFrom 0 (functionPieces cases p.literal.toList environment))
        p.literal.toList p.path)).Tells fun r => ∃ front rawFront literalFront,
          Anchored p (functionPieces cases p.literal.toList environment) quote raw front rawFront
            literalFront ∧
          r = ⟨0, units front, ".".intercalate p.path, 0, units rawFront, none⟩ := by
  obtain ⟨hraw, hliteral⟩ := standsAt_byteLength_lt h hsource
  obtain ⟨table, htable, hlookup⟩ := literalColumns?_spelled h.quotes h.spelled
  have hbase := compiledMap_tells hparse p.path hliteral hcode
  -- the table knows the place of every part of the literal
  have hcolumns : ∀ {literalFront literalBack : List Char},
      p.literal.toList = literalFront ++ literalBack →
      ∃ rawFront rawBack, raw = rawFront ++ rawBack ∧
        Spelled quote rawFront literalFront ∧ Spelled quote rawBack literalBack ∧
        table.lookup (advance (0, 0) literalFront) = some (units rawFront) := by
    intro literalFront literalBack hsplit
    obtain ⟨rawFront, rawBack, hrawSplit, hfront, hback⟩ := Spelled.split (hsplit ▸ h.spelled)
    exact ⟨rawFront, rawBack, hrawSplit, hfront, hback, hlookup hrawSplit hsplit hfront⟩
  obtain ⟨moved, hmoved, htells⟩ := rebaseFragment?_tells table (originColumn table)
    (functionMap_sources _ p.literal.toList p.path) hbase
    (by rintro _ ⟨-, -, -, -, -, rfl⟩; rfl)
    (by
      rintro _ ⟨front, literalFront, literalBack, -, hsplit, rfl⟩
      obtain ⟨rawFront, rawBack, -, -, -, hlookup⟩ := hcolumns hsplit
      rw [originColumn_eq hlookup]
      exact hlookup)
    (by
      rintro _ ⟨front, literalFront, literalBack, hanchor, hsplit, rfl⟩
      obtain ⟨rawFront, rawBack, rfl, -, -, hlookup⟩ := hcolumns hsplit
      have hle := hanchor.units_le
      have hunits := units_le_byteLength rawFront
      rw [byteLength_append] at hraw
      rw [originColumn_eq hlookup]
      exact ⟨Nat.lt_of_le_of_lt hle hcode, by show 0 < wordLimit; decide,
        by show units rawFront < wordLimit; omega⟩)
  have hmap : literalMap cx p.scalar p.literal
      (functionMap (anchorsFrom 0 (functionPieces cases p.literal.toList environment))
        p.literal.toList p.path) = moved := by
    simp only [literalMap, hcx, h.slice, Option.getD_some, htable, Option.bind_some, hmoved]
  rw [hmap]
  refine htells.congr fun r => ⟨?_, ?_⟩
  · rintro ⟨r', ⟨front, literalFront, literalBack, hanchor, hsplit, rfl⟩, rfl⟩
    obtain ⟨rawFront, rawBack, hrawSplit, hfront, hback, hlookup⟩ := hcolumns hsplit
    refine ⟨front, rawFront, literalFront,
      ⟨hanchor, ⟨literalBack, rawBack, hsplit, hrawSplit, hback⟩, hfront⟩, ?_⟩
    rw [originColumn_eq hlookup]
    rfl
  · rintro ⟨front, rawFront, literalFront,
      ⟨hanchor, ⟨literalBack, rawBack, hsplit, hrawSplit, hback⟩, hfront⟩, rfl⟩
    refine ⟨_, ⟨front, literalFront, literalBack, hanchor, hsplit, rfl⟩, ?_⟩
    rw [originColumn_eq (hlookup hrawSplit hsplit hfront)]
    rfl

end

/-! ## Writing -/

/-- The reading that is recorded for the code of a message. -/
def Placement.reading (filename : String) (p : Placement) : Reading :=
  readingAt p.before filename p.scalar.contentStart (some p.literal)

/-- What is kept for a message that is compiled: its literal with the map of the literal. -/
def codeMap? {μ : Type} (cx : Context μ) (p : Placement) : Option (String × SourceMap) :=
  match Message.compile p.literal cx.options p.path with
  | .ok compiled => compiled.map.map fun map => (p.literal, literalMap cx p.scalar p.literal map)
  | .error _ => none

/-- An output that holds a text, the readings of its messages, and the maps of their literals. -/
structure Written (cx : Context Unit) (text : List Char) (ps : List Placement) (out : Output Unit) :
    Prop where
  code : out.writer.code.toList = text
  place : (out.writer.line, out.writer.column) = advance (0, 0) text
  map : ∃ b, out.writer.map = some (b, 0) ∧ b.sources.toList = [cx.filename] ∧
    b.Records (ps.map (·.reading cx.filename))
  codeMaps : out.codeMaps = ps.filterMap (codeMap? cx)

section

variable {cx : Context Unit} {text : List Char} {ps : List Placement} {out out' : Output Unit}

theorem Written.push (h : Written cx text ps out) (code : String) :
    Written cx (text ++ code.toList) ps (out.push code) where
  code := by
    show (out.writer.code ++ code).toList = _
    rw [String.toList_append, h.code]
  place := by
    show advance (out.writer.line, out.writer.column) code.toList = _
    rw [h.place, advance_append]
  map := h.map
  codeMaps := h.codeMaps

/-- The code of a message is written with its reading. -/
theorem Written.pushMapped (h : Written cx text ps out) (scalar : Scalar) (literal code : String)
    (path : List String) (log : List Notice) {maps : CodeMaps}
    (hmaps : maps = out.codeMaps ++ (codeMap? cx ⟨⟨scalar, literal, path⟩, text⟩).toList) :
    Written cx (text ++ code.toList) (ps ++ [⟨⟨scalar, literal, path⟩, text⟩])
      { out with
        writer := out.writer.pushMapped code scalar.contentStart (some literal)
        codeMaps := maps
        log := log } where
  code := by
    show (out.writer.code ++ code).toList = _
    rw [String.toList_append, h.code]
  place := by
    show advance (out.writer.line, out.writer.column) code.toList = _
    rw [h.place, advance_append]
  map := by
    obtain ⟨b, hb, hsources, hrecords⟩ := h.map
    have hline : out.writer.line = (advance (0, 0) text).1 := congrArg Prod.fst h.place
    have hcolumn : out.writer.column = (advance (0, 0) text).2 := congrArg Prod.snd h.place
    refine ⟨b.addMapping out.writer.line out.writer.column 0 (scalar.contentStart.line - 1)
      scalar.contentStart.column (some literal), ?_, ?_, ?_⟩
    · show out.writer.map.map _ = _
      rw [hb]
      rfl
    · rw [SourceMapBuilder.addMapping_sources, hsources]
    · rw [List.map_append, hline, hcolumn]
      exact hrecords.addMapping (by rw [hsources]; rfl) _ _ _ _ _
  codeMaps := by
    rw [hmaps, h.codeMaps, List.filterMap_append]
    rfl

theorem set_of_not_mem {literal : String} {map : SourceMap} : ∀ {maps : CodeMaps},
    literal ∉ maps.map Prod.fst → maps.set literal map = maps ++ [(literal, map)]
  | [], _ => rfl
  | (l, m) :: rest, h => by
    rw [List.map_cons, List.mem_cons, not_or] at h
    rw [CodeMaps.set, if_neg (Ne.symm h.1), set_of_not_mem h.2]
    rfl

theorem Written.literal_not_mem (h : Written cx text ps out) {literal : String}
    (hnew : literal ∉ ps.map (·.literal)) : literal ∉ out.codeMaps.map Prod.fst := by
  rw [h.codeMaps]
  intro hmem
  obtain ⟨⟨l, map⟩, hp, rfl⟩ := List.mem_map.1 hmem
  obtain ⟨p, hps, hcode⟩ := List.mem_filterMap.1 hp
  refine hnew (List.mem_map.2 ⟨p, hps, ?_⟩)
  unfold codeMap? at hcode
  split at hcode
  · obtain ⟨map', -, he⟩ := Option.map_eq_some_iff.1 hcode
    exact congrArg Prod.fst he
  · cases hcode

theorem acceptMessage_eq (hmap : cx.options.sourceMap = true) (scalar : Scalar) (literal : String)
    (compiled : CompiledMessage) :
    acceptMessage cx out scalar literal compiled =
      { out with
        log := out.log ++ compiled.warnings.flatMap fun w =>
          cx.diagnostics.warn (cx.filename ++ ": " ++ w)
        writer := out.writer.pushMapped compiled.code scalar.contentStart (some literal)
        codeMaps := match compiled.map with
          | some map => out.codeMaps.set literal (literalMap cx scalar literal map)
          | none => out.codeMaps } := by
  unfold acceptMessage
  cases compiled.map with
  | none => rfl
  | some map => simp only [hmap, if_true]; rfl

/-- A message is written with its reading, and with the map of its literal if it is compiled. -/
theorem writeMessage_written (hcompiler : cx.compiler = MessageCompiler.forgetful Message.compile)
    (hmap : cx.options.sourceMap = true) (h : Written cx text ps out) {path : List String}
    {scalar : Scalar} {literal : String} (hnew : literal ∉ ps.map (·.literal))
    (hwrite : writeMessage cx out path scalar literal = .ok out') :
    Written cx (text ++ (messageCode cx.options literal path).toList)
      (ps ++ [⟨⟨scalar, literal, path⟩, text⟩]) out' := by
  have hasked : cx.compiler literal cx.options path out.memory =
      (Message.compile literal cx.options path, ()) := by
    rw [hcompiler]
    rfl
  have hnot := h.literal_not_mem hnew
  unfold writeMessage at hwrite
  rw [hasked] at hwrite
  cases hcompile : Message.compile literal cx.options path with
  | ok compiled =>
    rw [hcompile] at hwrite
    simp only [writeAnswer, acceptMessage_eq hmap] at hwrite
    cases hwrite
    rw [messageCode_ok hcompile]
    refine h.pushMapped scalar literal compiled.code path _ ?_
    simp only [codeMap?, hcompile]
    cases compiled.map with
    | none => simp
    | some map => exact set_of_not_mem hnot
  | error e =>
    rw [hcompile] at hwrite
    simp only [writeAnswer] at hwrite
    rw [messageCode_error hcompile]
    split at hwrite
    · cases hwrite
      refine h.pushMapped scalar literal (Json.quoted literal) path _ ?_
      simp only [codeMap?, hcompile, Option.toList_none, List.append_nil]
      rfl
    · cases hwrite

/-- Chunks are written with the readings of their messages, as long as no literal is met twice. -/
theorem writeChunks_written (hcompiler : cx.compiler = MessageCompiler.forgetful Message.compile)
    (hmap : cx.options.sourceMap = true) : ∀ {chunks : List Chunk} {text : List Char}
      {ps : List Placement} {out out' : Output Unit}, (∀ v, .verbatim v ∉ chunks) →
      Written cx text ps out →
      ((ps ++ placements cx.options text chunks).map (·.literal)).Nodup →
      writeChunks cx chunks out = .ok out' →
      Written cx (text ++ chunksText cx.options chunks) (ps ++ placements cx.options text chunks) out'
  | [], text, ps, out, out', _, h, _, hwrite => by
    cases hwrite
    rw [placements, chunksText, List.flatMap_nil, List.append_nil, List.append_nil]
    exact h
  | chunk :: chunks, text, ps, out, out', hverbatim, h, hnodup, hwrite => by
    have hothers : ∀ v, Chunk.verbatim v ∉ chunks := fun v hv => hverbatim v (List.mem_cons_of_mem _ hv)
    rw [chunksText, List.flatMap_cons, ← List.append_assoc]
    cases chunk with
    | verbatim v => exact absurd List.mem_cons_self (hverbatim v)
    | text code => exact writeChunks_written hcompiler hmap hothers (h.push code) hnodup hwrite
    | message scalar literal path =>
      rw [writeChunks_cons] at hwrite
      cases hmessage : writeChunk cx out (.message scalar literal path) with
      | error e => rw [hmessage] at hwrite; cases hwrite
      | ok next =>
        rw [hmessage] at hwrite
        have hplaced : ps ++ placements cx.options text (.message scalar literal path :: chunks) =
            (ps ++ [⟨⟨scalar, literal, path⟩, text⟩]) ++ placements cx.options
              (text ++ chunkText cx.options (.message scalar literal path)) chunks := by
          rw [placements, List.append_assoc, List.singleton_append]
        rw [hplaced] at hnodup ⊢
        -- the literals behind are distinct from those in front, so this one is met first here
        have hnew : literal ∉ ps.map (·.literal) := by
          intro hmem
          rw [List.map_append, List.map_append] at hnodup
          have hdisjoint := (List.nodup_append.1 (List.nodup_append.1 hnodup).1).2.2
          exact hdisjoint _ hmem _ (List.mem_singleton.2 rfl) rfl
        exact writeChunks_written hcompiler hmap hothers
          (writeMessage_written hcompiler hmap h hnew hmessage) hnodup hwrite

/-- A map starts with one source, the document with its text. -/
theorem start_map {μ : Type} {cx : Context μ} {source : String} {document : Document}
    (hmap : cx.options.sourceMap = true) (memory : μ) :
    ∃ b, (State.start document source cx.options memory).output.writer.map = some (b, 0) ∧
      b.sources.toList = [document.filename] ∧ b.contents.toList = [some source] ∧ b.Records [] := by
  show (Writer.new source document.filename cx.options.sourceMap).Keeps source document.filename []
  rw [hmap]
  exact Writer.new_keeps source document.filename

/-- In front of a document nothing is written yet. -/
theorem start_written {source : String} {document : Document}
    (hfilename : cx.filename = document.filename) (hmap : cx.options.sourceMap = true) :
    Written cx [] [] (State.start document source cx.options ()).output where
  code := rfl
  place := rfl
  map := by
    obtain ⟨b, hb, hsources, -, hrecords⟩ := @start_map _ cx source document hmap ()
    exact ⟨b, hb, hfilename ▸ hsources, hrecords⟩
  codeMaps := rfl

end

/-! ## Compiled literals -/

/-- What the built-in compiler makes of a message that it accepts. -/
theorem compile_ahead {message : String} {options : Options} {path : List String}
    {compiled : CompiledMessage} (hahead : options.strategy = .aheadOfTime)
    (hescape : options.escapeHtml = false)
    (h : Message.compile message options path = .ok compiled) :
    ∃ cases, parse message.toList = .ok cases ∧
      compiled.code.toList = piecesText (functionPieces cases message.toList options.environment) ∧
      compiled.map = some (functionMap
        (anchorsFrom 0 (functionPieces cases message.toList options.environment)) message.toList
        path) := by
  obtain ⟨cases, hparse, hform⟩ := compile_eq_ok h
  rw [compiledText_of_plain hescape] at hparse hform
  simp only [represent, hahead, Prod.mk.injEq] at hform
  obtain ⟨hcode, hmap⟩ := hform
  exact ⟨cases, hparse, hcode ▸ toList_piecesCode _, hmap.symm⟩

theorem newline_not_mem_front {cases : List Case} {message front : List Char}
    {environment : Environment} {offset : Nat}
    (h : AnchoredAt (functionPieces cases message environment) front offset) : '\n' ∉ front := by
  obtain ⟨before, piece, after, hpieces, -, rfl⟩ := h
  intro hmem
  refine newline_not_mem_function cases message environment ?_
  rw [hpieces, piecesText, List.flatMap_append]
  exact List.mem_append_left _ hmem

/-- What the map of an accepted literal says inside its code. -/
structure Inside (source : List Char) (options : Options) (p : Placement) (cases : List Case)
    (quote : Char) (raw front rawFront literalFront : List Char) (r : Reading) : Prop where
  accepted : ∃ compiled, Message.compile p.literal options p.path = .ok compiled
  parsed : parse p.literal.toList = .ok cases
  token : slice? source p.scalar.span.start.offset p.scalar.span.stop.offset =
    some (quote :: (raw ++ [quote]))
  anchored : Anchored p (functionPieces cases p.literal.toList options.environment) quote raw front
    rawFront literalFront
  reading : r = ⟨0, units front, ".".intercalate p.path, 0, units rawFront, none⟩

/-- The map of an accepted literal says a reading. -/
def IsInside (source : List Char) (options : Options) (p : Placement) (r : Reading) : Prop :=
  ∃ cases quote raw front rawFront literalFront,
    Inside source options p cases quote raw front rawFront literalFront r

section

variable {source before raw after : List Char} {quote : Char} {options : Options} {p : Placement}

/-- The readings inside the code of a message, by the only parse and the only token there are. -/
theorem isInside_iff (h : p.StandsAt source quote before raw after) {compiled : CompiledMessage}
    (haccepted : Message.compile p.literal options p.path = .ok compiled) {cases : List Case}
    (hparse : parse p.literal.toList = .ok cases) {r : Reading} :
    IsInside source options p r ↔ ∃ front rawFront literalFront,
      Anchored p (functionPieces cases p.literal.toList options.environment) quote raw front rawFront
        literalFront ∧
      r = ⟨0, units front, ".".intercalate p.path, 0, units rawFront, none⟩ := by
  constructor
  · rintro ⟨cases', quote', raw', front, rawFront, literalFront, hinside⟩
    cases hinside.parsed.symm.trans hparse
    obtain ⟨rfl, hraw⟩ := List.cons.inj (Option.some.inj (hinside.token.symm.trans h.slice))
    cases List.append_cancel_right hraw
    exact ⟨front, rawFront, literalFront, hinside.anchored, hinside.reading⟩
  · rintro ⟨front, rawFront, literalFront, hanchored, hreading⟩
    exact ⟨cases, quote, raw, front, rawFront, literalFront, ⟨compiled, haccepted⟩, hparse, h.slice,
      hanchored, hreading⟩

theorem codeMap?_error {μ : Type} {cx : Context μ} {e : Message.Error}
    (h : Message.compile p.literal cx.options p.path = .error e) : codeMap? cx p = none := by
  unfold codeMap?
  rw [h]

/-- What is kept for an accepted message says what is inside its code. -/
theorem codeMap?_ok {μ : Type} {cx : Context μ} (hahead : cx.options.strategy = .aheadOfTime)
    (hescape : cx.options.escapeHtml = false)
    (h : p.StandsAt cx.source quote before raw after) (hsource : byteLength cx.source < wordLimit)
    (hcode : units (messageCode cx.options p.literal p.path).toList < wordLimit)
    {compiled : CompiledMessage}
    (haccepted : Message.compile p.literal cx.options p.path = .ok compiled) :
    ∃ map, codeMap? cx p = some (p.literal, map) ∧ map.Tells (IsInside cx.source cx.options p) := by
  obtain ⟨cases, hparse, htext, hmap⟩ := compile_ahead hahead hescape haccepted
  rw [messageCode_ok haccepted, htext] at hcode
  refine ⟨_, ?_, (literalMap_tells rfl h hsource hparse hcode).congr
    fun r => (isInside_iff h haccepted hparse).symm⟩
  unfold codeMap?
  rw [haccepted]
  simp only [hmap]
  rfl

/-- A reading inside the code of a message, moved to where the code and the token stand. -/
theorem movedTo_reading (h : p.StandsAt source quote before raw after)
    {front rawFront rawBack : List Char} (hline : '\n' ∉ front) (hraw : raw = rawFront ++ rawBack)
    (filename path : String) :
    (Reading.mk 0 (units front) path 0 (units rawFront) none).movedTo (p.reading filename) =
      readingAt (p.before ++ front) filename
        ((LineIndex.ofText source).position (byteLength (before ++ quote :: rawFront))) none := by
  obtain ⟨hposition, -⟩ := h.position hraw
  unfold readingAt
  rw [hposition, advance_append, advance_of_not_mem hline]
  rfl

/-- The first character of an item is spelled somewhere in the token. -/
theorem exists_spellsAt (h : p.StandsAt source quote before raw after) {cases : List Case}
    (hparse : parse p.literal.toList = .ok cases) {item : Item} (hitem : item ∈ cases.flatten) :
    ∃ place, p.SpellsAt source item.offset place := by
  obtain ⟨decoded, c, remaining, hliteral, hoffset⟩ := parse_startsAt hparse hitem
  obtain ⟨rawFront, rawBack, hraw, hfront, hback⟩ := Spelled.split (hliteral ▸ h.spelled)
  exact ⟨_, h.spellsAt_iff.2
    ⟨decoded, c, remaining, rawFront, rawBack, hliteral, hraw, hfront, hback, hoffset.symm, rfl⟩⟩

/-- What is composed inside the code of a message is said about its function or about an item. -/
theorem maps_of_inside (h : p.StandsAt source quote before raw after) {filename : String} {r : Reading}
    (hinside : IsInside source options p r) (behind : ¬(r.line = 0 ∧ r.column = 0)) :
    Maps source filename options p (r.movedTo (p.reading filename)) := by
  obtain ⟨cases, -, -, -, -, -, ⟨compiled, haccepted⟩, hparse, -⟩ := id hinside
  obtain ⟨front, rawFront, literalFront, hanchored, rfl⟩ :=
    (isInside_iff h haccepted hparse).1 hinside
  obtain ⟨hanchor, ⟨literalBack, rawBack, hliteral, hraw, hback⟩, hfront⟩ := hanchored
  rw [movedTo_reading h (newline_not_mem_front hanchor) hraw]
  rcases anchoredAt_function.1 hanchor with ⟨rfl, hoffset⟩ | ⟨item, hitem, hoffset, hstarts⟩
  · -- the anchor in front of a function is behind no code in production
    cases eq_nil_of_byteLength hoffset
    cases hfront
    have hdevelopment : options.environment = .development := by
      cases henvironment : options.environment with
      | development => rfl
      | production =>
        rw [henvironment] at behind
        exact absurd ⟨rfl, rfl⟩ behind
    rw [hdevelopment, ← h.content]
    exact .function haccepted hdevelopment
  · obtain ⟨messageFront, c, back, hsplit, hbytes⟩ := parse_startsAt hparse hitem
    obtain ⟨rfl, rfl⟩ := append_inj_of_byteLength (hliteral.symm.trans hsplit)
      (hoffset.symm.trans hbytes.symm)
    exact .item haccepted hparse hitem hstarts
      (h.spellsAt_iff.2 ⟨_, _, _, _, _, hsplit, hraw, hfront, hback, hbytes.symm, rfl⟩)

/-- The readings that are composed at a message are those that the map is to say about it. -/
theorem composed_iff_maps {filename : String} (hahead : options.strategy = .aheadOfTime)
    (hescape : options.escapeHtml = false) (h : p.StandsAt source quote before raw after)
    {fragment : String → Reading → Prop}
    (hfragment : ∀ r, fragment p.literal r ↔ IsInside source options p r) (r : Reading) :
    Composed fragment (p.reading filename) r ↔ Maps source filename options p r := by
  constructor
  · rintro (_ | ⟨named, said, behind⟩)
    · exact .code
    · cases named
      exact maps_of_inside h ((hfragment _).1 said) behind
  · rintro (_ | ⟨haccepted, hdevelopment⟩ | ⟨haccepted, hparse, hitem, hstarts, hspelled⟩)
    · exact .anchor
    · obtain ⟨cases, hparse, -, -⟩ := compile_ahead hahead hescape haccepted
      have hanchor : AnchoredAt (functionPieces cases p.literal.toList options.environment)
          (openingText .development) (byteLength []) := by
        rw [hdevelopment]
        exact anchoredAt_function.2 (Or.inl ⟨rfl, rfl⟩)
      have hinside := (isInside_iff h haccepted hparse).2 ⟨_, [], [],
        ⟨hanchor, ⟨p.literal.toList, raw, rfl, rfl, h.spelled⟩, .nil⟩, rfl⟩
      rw [h.content, ← movedTo_reading h (newline_not_mem_front hanchor) (List.nil_append raw).symm
        filename (".".intercalate p.path)]
      -- an anchor at the very start would be dropped, but this one is behind the opening
      refine .inside rfl ((hfragment _).2 hinside) ?_
      rintro ⟨-, hcolumn⟩
      exact absurd (show units (openingText .development) = 0 from hcolumn) (by decide)
    · obtain ⟨decoded, c, remaining, rawFront, rawBack, hliteral, hraw, hbefore, hbehind, hoffset,
        rfl⟩ := h.spellsAt_iff.1 hspelled
      have hanchor := anchoredAt_function.2 (Or.inr ⟨_, hitem, hoffset, hstarts⟩)
      have hinside := (isInside_iff h haccepted hparse).2 ⟨_, rawFront, decoded,
        ⟨hanchor, ⟨c :: remaining, rawBack, hliteral, hraw, hbehind⟩, hbefore⟩, rfl⟩
      rw [← movedTo_reading h (newline_not_mem_front hanchor) hraw filename
        (".".intercalate p.path)]
      refine .inside rfl ((hfragment _).2 hinside) ?_
      rintro ⟨-, hcolumn⟩
      exact absurd hcolumn (Nat.ne_of_gt hstarts.units_pos)

/-- The numbers of a reading are words if both texts are short enough. -/
theorem readingAt_fits {generated behind front back : List Char}
    (htext : units (generated ++ behind) < wordLimit)
    (hsource : byteLength (front ++ back) < wordLimit) (filename : String) (name : Option String) :
    (readingAt generated filename ((LineIndex.ofText (front ++ back)).position (byteLength front))
      name).Fits := by
  obtain ⟨hline, hcolumn⟩ := advance_lt hsource
  have hgenerated := advance_column_le (0, 0) generated
  rw [units_append] at htext
  rw [position_append]
  exact ⟨by simp only [readingAt] at hgenerated ⊢; omega, hline, hcolumn⟩

/-- The numbers of what a map is to say about a message are words. -/
theorem Maps.fits {filename : String} {r : Reading} (h : Maps source filename options p r)
    (hahead : options.strategy = .aheadOfTime) (hescape : options.escapeHtml = false)
    (hstands : p.StandsAt source quote before raw after) (hsource : byteLength source < wordLimit)
    {behind : List Char}
    (htext : units (p.before ++ (messageCode options p.literal p.path).toList ++ behind) < wordLimit) :
    r.Fits := by
  have hfits : ∀ (front : List Char) (name : Option String) {rawFront rawBack : List Char},
      raw = rawFront ++ rawBack → (∃ back, (messageCode options p.literal p.path).toList = front ++ back) →
      (readingAt (p.before ++ front) filename
        ((LineIndex.ofText source).position (byteLength (before ++ quote :: rawFront))) name).Fits := by
    rintro front name rawFront rawBack hraw ⟨back, hback⟩
    obtain ⟨-, hsplit⟩ := hstands.position hraw
    rw [hback, ← List.append_assoc, List.append_assoc _ back] at htext
    rw [hsplit] at hsource ⊢
    exact readingAt_fits htext hsource filename name
  -- inside the code of an accepted message, an anchor stands behind some of it
  have hfront : ∀ {compiled : CompiledMessage} {cases : List Case} {front : List Char} {offset : Nat},
      Message.compile p.literal options p.path = .ok compiled → parse p.literal.toList = .ok cases →
      AnchoredAt (functionPieces cases p.literal.toList options.environment) front offset →
      ∃ back, (messageCode options p.literal p.path).toList = front ++ back := by
    rintro compiled cases front offset haccepted hparse ⟨pre, piece, post, hpieces, -, rfl⟩
    obtain ⟨cases', hparse', hcode, -⟩ := compile_ahead hahead hescape haccepted
    cases hparse.symm.trans hparse'
    rw [messageCode_ok haccepted, hcode, hpieces, piecesText, List.flatMap_append]
    exact ⟨_, rfl⟩
  rcases h with _ | ⟨haccepted, hdevelopment⟩ | ⟨haccepted, hparse, hitem, hstarts, hspelled⟩
  · have := hfits [] (some p.literal) (List.nil_append raw).symm ⟨_, rfl⟩
    rw [List.append_nil, ← hstands.content] at this
    exact this
  · obtain ⟨cases, hparse, -, -⟩ := compile_ahead hahead hescape haccepted
    have := hfits _ none (List.nil_append raw).symm
      (hfront haccepted hparse (anchoredAt_function.2 (Or.inl ⟨rfl, rfl⟩)))
    rw [← hstands.content, hdevelopment] at this
    exact this
  · obtain ⟨decoded, c, remaining, rawFront, rawBack, -, hraw, -, -, hoffset, rfl⟩ :=
      hstands.spellsAt_iff.1 hspelled
    exact hfits _ none hraw (hfront haccepted hparse
      (anchoredAt_function.2 (Or.inr ⟨_, hitem, hoffset, hstarts⟩)))

end

/-! ## The composed map -/

theorem messageCode_ne_nil (options : Options) (literal : String) (path : List String) :
    (messageCode options literal path).toList ≠ [] := by
  cases hcompile : Message.compile literal options path with
  | error e =>
    rw [messageCode_error hcompile]
    simp [Json.quoted]
  | ok compiled =>
    rw [messageCode_ok hcompile]
    exact code_ne_nil hcompile

theorem placement_split {options : Options} {p : Placement} :
    ∀ {chunks : List Chunk} {before : List Char}, p ∈ placements options before chunks →
      ∃ behind, before ++ chunksText options chunks =
        p.before ++ (messageCode options p.literal p.path).toList ++ behind
  | [], before, h => nomatch h
  | chunk :: chunks, before, h => by
    have hothers : p ∈ placements options (before ++ chunkText options chunk) chunks →
        ∃ behind, before ++ chunksText options (chunk :: chunks) =
          p.before ++ (messageCode options p.literal p.path).toList ++ behind := by
      intro h
      obtain ⟨behind, hbehind⟩ := placement_split h
      exact ⟨behind, by rw [← hbehind, List.append_assoc]; rfl⟩
    cases chunk with
    | text code => exact hothers h
    | verbatim v => exact hothers h
    | message scalar literal path =>
      rcases List.mem_cons.1 h with rfl | h
      · exact ⟨chunksText options chunks, (List.append_assoc _ _ _).symm⟩
      · exact hothers h

theorem placements_length_le (options : Options) : ∀ (chunks : List Chunk) (before : List Char),
    (placements options before chunks).length ≤ units (chunksText options chunks)
  | [], before => Nat.zero_le _
  | chunk :: chunks, before => by
    have ih := placements_length_le options chunks (before ++ chunkText options chunk)
    rw [chunksText, List.flatMap_cons, units_append]
    cases chunk with
    | text code => exact Nat.le_trans ih (Nat.le_add_left _ _)
    | verbatim v => exact Nat.le_trans ih (Nat.le_add_left _ _)
    | message scalar literal path =>
      have hpos := units_pos (messageCode_ne_nil options literal path)
      rw [placements, List.length_cons, Nat.add_comm]
      exact Nat.add_le_add hpos ih

/-- What the maps of the literals of messages say, by literal. -/
def Fragments (source : List Char) (options : Options) (ps : List Placement) (literal : String)
    (r : Reading) : Prop :=
  ∃ p ∈ ps, p.literal = literal ∧ IsInside source options p r

/-- The messages of a module whose positions are words: each stands in the source and in the code. -/
structure Placed (cx : Context Unit) (ps : List Placement) : Prop where
  ahead : cx.options.strategy = .aheadOfTime
  plain : cx.options.escapeHtml = false
  distinct : (ps.map (·.literal)).Nodup
  stands : ∀ p ∈ ps, ∃ quote before raw after, p.StandsAt cx.source quote before raw after
  source : byteLength cx.source < wordLimit
  code : ∀ p ∈ ps, ∃ behind,
    units (p.before ++ (messageCode cx.options p.literal p.path).toList ++ behind) < wordLimit
  few : ps.length ≤ wordLimit

section

variable {cx : Context Unit} {text : List Char} {ps : List Placement} {out : Output Unit}

theorem Placed.fragments_iff (h : Placed cx ps) {p : Placement} (hp : p ∈ ps) (r : Reading) :
    Fragments cx.source cx.options ps p.literal r ↔ IsInside cx.source cx.options p r := by
  constructor
  · rintro ⟨p', hp', he, hr⟩
    rwa [List.inj_on_of_nodup_map h.distinct hp' hp he] at hr
  · exact fun hr => ⟨p, hp, rfl, hr⟩

theorem Placed.composed_iff (h : Placed cx ps) {p : Placement} (hp : p ∈ ps) (r : Reading) :
    Composed (Fragments cx.source cx.options ps) (p.reading cx.filename) r ↔
      Maps cx.source cx.filename cx.options p r := by
  obtain ⟨quote, before, raw, after, hp'⟩ := h.stands p hp
  exact composed_iff_maps h.ahead h.plain hp' (h.fragments_iff hp) r

theorem Placed.fits (h : Placed cx ps) {p : Placement} (hp : p ∈ ps) {r : Reading}
    (hr : Maps cx.source cx.filename cx.options p r) : r.Fits := by
  obtain ⟨quote, before, raw, after, hp'⟩ := h.stands p hp
  obtain ⟨behind, hunits⟩ := h.code p hp
  exact hr.fits h.ahead h.plain hp' h.source hunits

/-- What is kept for an accepted message says what the literal is to say. -/
theorem Placed.codeMap (h : Placed cx ps) {p : Placement} (hp : p ∈ ps) {compiled : CompiledMessage}
    (haccepted : Message.compile p.literal cx.options p.path = .ok compiled) :
    ∃ map, codeMap? cx p = some (p.literal, map) ∧
      map.Tells (Fragments cx.source cx.options ps p.literal) := by
  obtain ⟨quote, before, raw, after, hp'⟩ := h.stands p hp
  obtain ⟨behind, hunits⟩ := h.code p hp
  rw [units_append, units_append] at hunits
  obtain ⟨map, hmap, htells⟩ := codeMap?_ok h.ahead h.plain hp' h.source (by omega) haccepted
  exact ⟨map, hmap, htells.congr fun r => (h.fragments_iff hp r).symm⟩

/-- The names of the structural map are among the literals. -/
theorem names_subset {r : Reading} (hr : r ∈ ps.map (·.reading cx.filename)) :
    ∀ name ∈ r.name, name ∈ ps.map (·.literal) := by
  obtain ⟨p, hp, rfl⟩ := List.mem_map.1 hr
  rintro name ⟨⟩
  exact List.mem_map_of_mem hp

/-- The structural map says where the code of each message comes from. -/
theorem Written.structural_tells (h : Written cx text ps out) (hplaced : Placed cx ps) :
    ∃ structural, out.writer.finish.2 = some structural ∧
      structural.Tells (· ∈ ps.map (·.reading cx.filename)) := by
  obtain ⟨b, hb, hsources, hrecords⟩ := h.map
  refine ⟨b.build, ?_, hrecords.tells ?_ ?_ ?_⟩
  · show out.writer.map.map _ = _
    rw [hb]
    rfl
  · intro r hr
    obtain ⟨p, hp, rfl⟩ := List.mem_map.1 hr
    exact hplaced.fits hp .code
  · rw [← Array.length_toList, hsources]
    exact Nat.le_of_ble_eq_true rfl
  · refine Nat.le_trans (hrecords.names_le (ps.map (·.literal)) fun r => names_subset) ?_
    rw [List.length_map]
    exact hplaced.few

/-- What is kept for a literal says what the literal is to say. -/
theorem Written.codeMaps_tell (h : Written cx text ps out) (hplaced : Placed cx ps)
    {entry : String × SourceMap} (hentry : entry ∈ out.codeMaps) :
    entry.2.Tells (Fragments cx.source cx.options ps entry.1) := by
  rw [h.codeMaps] at hentry
  obtain ⟨p, hp, hentry⟩ := List.mem_filterMap.1 hentry
  cases haccepted : Message.compile p.literal cx.options p.path with
  | error e =>
    rw [codeMap?_error haccepted] at hentry
    cases hentry
  | ok compiled =>
    obtain ⟨map, hmap, htells⟩ := hplaced.codeMap hp haccepted
    rw [hmap] at hentry
    cases hentry
    exact htells

/-- Of a literal for which nothing is kept nothing is said. -/
theorem Written.not_fragments (h : Written cx text ps out) (hplaced : Placed cx ps) {literal : String}
    (hlookup : out.codeMaps.lookup literal = none) (r : Reading) :
    ¬ Fragments cx.source cx.options ps literal r := by
  rintro ⟨p, hp, rfl, cases, quote, raw, front, rawFront, literalFront, hinside⟩
  obtain ⟨compiled, haccepted⟩ := hinside.accepted
  obtain ⟨map, hmap, -⟩ := hplaced.codeMap hp haccepted
  have hmem : (p.literal, map) ∈ out.codeMaps := by
    rw [h.codeMaps]
    exact List.mem_filterMap.2 ⟨p, hp, hmap⟩
  exact bne_iff_ne.1 (List.lookup_eq_none_iff.1 hlookup _ hmem) rfl

/-- The source map of what is written says at each message what it is to say, and nothing else. -/
theorem Written.tells (h : Written cx text ps out) (hplaced : Placed cx ps) (filename : String) :
    ∃ structural map, out.writer.finish.2 = some structural ∧
      mergeSourceMaps structural out.codeMaps none filename = .ok map ∧
      map.Tells fun r => ∃ p ∈ ps, Maps cx.source cx.filename cx.options p r := by
  obtain ⟨structural, hfinish, hstructural⟩ := h.structural_tells hplaced
  have hfits : ∀ a r, a ∈ ps.map (·.reading cx.filename) →
      Composed (Fragments cx.source cx.options ps) a r → r.Fits := by
    intro a r ha hr
    obtain ⟨p, hp, rfl⟩ := List.mem_map.1 ha
    exact hplaced.fits hp ((hplaced.composed_iff hp r).1 hr)
  obtain ⟨map, hmerge, htells⟩ := mergeSourceMaps_tells filename hstructural
    (fun entry hentry => h.codeMaps_tell hplaced hentry)
    (fun literal hlookup => h.not_fragments hplaced hlookup) hfits
  refine ⟨structural, map, hfinish, hmerge, htells.congr fun r => ⟨?_, ?_⟩⟩
  · rintro ⟨a, ha, hr⟩
    obtain ⟨p, hp, rfl⟩ := List.mem_map.1 ha
    exact ⟨p, hp, (hplaced.composed_iff hp r).1 hr⟩
  · rintro ⟨p, hp, hr⟩
    exact ⟨_, List.mem_map_of_mem hp, (hplaced.composed_iff hp r).2 hr⟩

end

end MessageCatalog.Emission
