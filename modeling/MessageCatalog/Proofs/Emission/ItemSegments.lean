/-
The map of a compiled message, segment by segment. The first segment is that of the start of the
function. Behind it there is one for each item, in the order of the items: from the column at which
the code of the item begins, to the place in the message at which the item starts.
-/
import Mathlib.Data.List.Forall2
import MessageCatalog.Proofs.Emission.Decodable
import MessageCatalog.Proofs.Emission.Structural
import MessageCatalog.Proofs.Script.Lexeme

namespace MessageCatalog.Message

open MessageCatalog.Code MessageCatalog.Script MessageCatalog.Text

/-! ## Pieces with an anchor -/

/-- The pieces that the map knows. -/
def anchored (pieces : List Piece) : List Piece := pieces.filter (·.anchor.isSome)

theorem anchored_append (a b : List Piece) : anchored (a ++ b) = anchored a ++ anchored b :=
  List.filter_append a b

@[simp] theorem anchored_plain (code : String) (pieces : List Piece) :
    anchored (.plain code :: pieces) = anchored pieces := rfl

theorem anchored_items (items : List Item) : anchored (items.map Item.piece) = items.map Item.piece := by
  refine List.filter_eq_self.2 fun piece h => ?_
  obtain ⟨item, -, rfl⟩ := List.mem_map.1 h
  rfl

theorem anchored_intersperse (code : String) : ∀ pieces : List Piece,
    anchored (pieces.intersperse (.plain code)) = anchored pieces
  | [] => rfl
  | [_] => rfl
  | a :: b :: pieces => by
    have ih := anchored_intersperse code (b :: pieces)
    show anchored ([a] ++ .plain code :: (b :: pieces).intersperse (.plain code)) =
      anchored ([a] ++ b :: pieces)
    rw [anchored_append, anchored_plain, ih, anchored_append]

theorem anchored_casePieces (case : Case) : anchored (casePieces case) = case.map Item.piece := by
  rw [casePieces, anchored_append, anchored_plain, anchored_plain, anchored_intersperse, anchored_items]
  exact List.append_nil _

theorem anchored_cases (code : String) : ∀ cases : List Case,
    anchored ((cases.map casePieces).intersperse [.plain code]).flatten = cases.flatten.map Item.piece
  | [] => rfl
  | [only] => by
    show anchored (casePieces only ++ []) = (only ++ []).map Item.piece
    rw [List.append_nil, List.append_nil, anchored_casePieces]
  | first :: next :: others => by
    have ih := anchored_cases code (next :: others)
    show anchored (casePieces first ++ .plain code ::
      (((next :: others).map casePieces).intersperse [.plain code]).flatten) =
        (first ++ (next :: others).flatten).map Item.piece
    rw [anchored_append, anchored_casePieces, anchored_plain, ih, List.map_append]

theorem anchored_bodyPieces (cases : List Case) :
    anchored (bodyPieces cases) = cases.flatten.map Item.piece := by
  rcases cases with _ | ⟨first, _ | ⟨next, others⟩⟩
  · rfl
  · rw [bodyPieces, anchored_casePieces, List.flatten_singleton]
  · rw [bodyPieces]
    · rw [anchored_append, anchored_plain, anchored_cases, anchored_plain]
      exact List.append_nil _
    · exact List.cons_ne_nil _ _
    · intro only h
      cases h

/-- The start of the function and the items have an anchor, in this order. -/
theorem anchored_function (cases : List Case) (source : List Char) (environment : Environment) :
    anchored (functionPieces cases source environment) =
      functionPiece :: cases.flatten.map Item.piece := by
  have hproduction : anchored (functionPieces cases source .production) =
      functionPiece :: cases.flatten.map Item.piece := by
    show functionPiece :: anchored (bodyPieces cases ++ [.plain "\x7d"]) = _
    rw [anchored_append, anchored_bodyPieces, anchored_plain]
    exact congrArg _ (List.append_nil _)
  cases environment with
  | production => exact hproduction
  | development =>
    show anchored (functionPieces cases source .production ++
      [.plain ";fn.source=", .plain (quotedChars source), .plain ";return fn;\x7d)()"]) = _
    rw [anchored_append, hproduction]
    exact List.append_nil _

/-! ## Anchors in order -/

/-- What an anchor tells of a piece: the column that it starts at and the byte that it stands for. -/
def Piece.IsAt (pieces : List Piece) (start : Nat) (piece : Piece) (anchor : Nat × Nat) : Prop :=
  ∃ before after, pieces = before ++ piece :: after ∧ piece.anchor = some anchor.2 ∧
    anchor.1 = start + units (piecesText before)

/-- There is one anchor for each piece that has one, in order. -/
theorem anchorsFrom_forall₂ : ∀ (pieces : List Piece) (column : Nat),
    List.Forall₂ (Piece.IsAt pieces column) (anchored pieces) (anchorsFrom column pieces)
  | [], _ => .nil
  | piece :: pieces, column => by
    have hrest : List.Forall₂ (Piece.IsAt (piece :: pieces) column) (anchored pieces)
        (anchorsFrom (column + units piece.code.toList) pieces) := by
      refine (anchorsFrom_forall₂ pieces _).imp fun p a h => ?_
      obtain ⟨before, after, rfl, hanchor, hcolumn⟩ := h
      refine ⟨piece :: before, after, rfl, hanchor, ?_⟩
      rw [hcolumn, piecesText_cons, units_append, Nat.add_assoc]
    rw [anchorsFrom]
    cases hanchor : piece.anchor with
    | none =>
      rw [anchored, List.filter_cons_of_neg (by rw [hanchor]; exact Bool.false_ne_true)]
      exact hrest
    | some offset =>
      rw [anchored, List.filter_cons_of_pos (by rw [hanchor]; rfl)]
      exact .cons ⟨[], pieces, rfl, hanchor, rfl⟩ hrest

/-- Anchors of pieces that are not empty are at increasing columns. -/
theorem anchorsFrom_increasing : ∀ {pieces : List Piece} (column : Nat),
    (∀ piece ∈ anchored pieces, piece.code.toList ≠ []) →
    (anchorsFrom column pieces).Pairwise (·.1 < ·.1)
  | [], _, _ => .nil
  | piece :: pieces, column, h => by
    rw [anchorsFrom]
    cases hanchor : piece.anchor with
    | none =>
      rw [anchored, List.filter_cons_of_neg (by rw [hanchor]; exact Bool.false_ne_true)] at h
      exact anchorsFrom_increasing _ h
    | some offset =>
      rw [anchored, List.filter_cons_of_pos (by rw [hanchor]; rfl)] at h
      obtain ⟨hpiece, hpieces⟩ := List.forall_mem_cons.1 h
      refine List.pairwise_cons.2 ⟨?_, anchorsFrom_increasing _ hpieces⟩
      rintro ⟨col, other⟩ hmem
      obtain ⟨front, -, rfl⟩ := mem_anchorsFrom.1 hmem
      have hpos := units_pos hpiece
      simp only
      omega

/-! ## Segments in order -/

/-- The segment that is recorded for an anchor. -/
def anchorSegment (source : List Char) (anchor : Nat × Nat) : MessageCatalog.Segment :=
  let p := (LineIndex.ofText source).position anchor.2
  ⟨0, anchor.1, some ⟨0, p.line - 1, p.column, none⟩⟩

theorem foldl_anchors_segments (source : List Char) : ∀ (anchors : List (Nat × Nat)) (b : SourceMapBuilder),
    (anchors.foldl (fun b (column, offset) =>
      let p := (LineIndex.ofText source).position offset
      b.addMapping 0 column 0 (p.line - 1) p.column none) b).segments.toList =
        b.segments.toList ++ anchors.map (anchorSegment source)
  | [], b => (List.append_nil _).symm
  | (column, offset) :: anchors, b => by
    rw [List.foldl_cons, foldl_anchors_segments source anchors]
    show (b.segments.push _).toList ++ _ = _
    rw [Array.toList_push, List.append_assoc]
    rfl

/-- Anchors at increasing columns are decoded as they were recorded. -/
theorem functionMap_decode {anchors : List (Nat × Nat)} {source : List Char} {path : List String}
    (hfits : ∀ a ∈ anchors, (anchorReading source path a.1 a.2).Fits)
    (hincreasing : anchors.Pairwise (·.1 < ·.1)) :
    (functionMap anchors source path).decode = .ok (anchors.map (anchorSegment source)) := by
  have hsegments : (anchorsBuilder anchors source path).segments.toList =
      anchors.map (anchorSegment source) := foldl_anchors_segments source anchors _
  have hsorted : (anchors.map (anchorSegment source)).Pairwise fun a b => Precedes a.place b.place := by
    rw [List.pairwise_map]
    exact hincreasing.imp fun h => .inr ⟨rfl, h⟩
  rw [functionMap_eq_build, anchorsBuilder_recorded.1.decodes (anchorReadings_fit hfits)
    anchorsBuilder_sources_le anchorsBuilder_names_le, hsegments, sortSegments_eq_self hsorted]

/-! ## Places of the message -/

theorem unitsOf_le_two (c : Char) : unitsOf c ≤ 2 := by
  unfold unitsOf
  split
  · exact Nat.le_succ 1
  · exact Nat.le_refl 2

/-- A spelling is at least as wide as its character: an escape has two characters or more. -/
theorem units_le_of_spells {quote : Char} {raw : List Char} {c : Char} (h : Spells quote raw c) :
    unitsOf c ≤ units raw := by
  have hescape : ∀ d rest, unitsOf c ≤ units ('\\' :: d :: rest) := by
    intro d rest
    have hwide := unitsOf_le_two c
    have hbackslash := unitsOf_pos '\\'
    have hd := unitsOf_pos d
    rw [units, units]
    omega
  rcases h.escape_or_raw with ⟨body, rfl⟩ | ⟨rfl, -⟩
  · cases h with
    | raw _ escape => exact absurd rfl escape
    | simple => exact hescape _ []
    | unit => exact hescape _ _
    | pair => exact hescape _ _
  · exact Nat.le_refl _

theorem units_le_of_spelled {quote : Char} {raw literal : List Char} (h : Spelled quote raw literal) :
    units literal ≤ units raw := by
  induction h with
  | nil => exact Nat.le_refl _
  | cons head _ ih =>
    rw [units, units_append]
    exact Nat.add_le_add (units_le_of_spells head) ih

/-- A function of development is at least as wide as the message that it carries. -/
theorem units_le_development (cases : List Case) (source : List Char) :
    units source ≤ units (piecesText (functionPieces cases source .development)) := by
  have hquoted : units source ≤ units (quotedChars source).toList := by
    have hle := units_le_of_spelled (spelled_escape source)
    rw [quotedChars, Json.toList_quoted, String.toList_ofList, units, units_append]
    omega
  rw [functionPieces_text_development]
  simp only [units_append]
  omega

/-- The places between the characters of a message are words if its code is narrow enough. -/
theorem places_lt {cases : List Case} {source messageFront messageBack : List Char}
    {environment : Environment}
    (hcode : units (piecesText (functionPieces cases source environment)) < wordLimit)
    (hwords : environment = .production → WordPositions source)
    (hsource : source = messageFront ++ messageBack) :
    (advance (0, 0) messageFront).1 < wordLimit ∧ (advance (0, 0) messageFront).2 < wordLimit := by
  cases environment with
  | production =>
    have hplace := (hwords rfl).words _ ⟨byteLength messageFront, rfl⟩
    rw [hsource, position_append] at hplace
    exact hplace
  | development =>
    have hcarried := units_le_development cases source
    have hline := advance_line_le_units (0, 0) messageFront
    have hcolumn := advance_column_le (0, 0) messageFront
    have hfront : units messageFront ≤ units source := by
      rw [hsource, units_append]
      exact Nat.le_add_right _ _
    simp only at hline hcolumn
    omega

/-! ## Segments of items -/

/--
A segment leads from the column of the code at which the code of an item begins, to the place of the
message at which the item starts.
-/
def Item.IsLocated (cases : List Case) (message : List Char) (environment : Environment)
    (code : List Char) (item : Item) (segment : MessageCatalog.Segment) : Prop :=
  ∃ front behind messageFront messageBack,
    StartsBehind cases message environment item front ∧
    code = front ++ item.part.code.toList ++ behind ∧
    message = messageFront ++ messageBack ∧ byteLength messageFront = item.offset ∧
    segment = ⟨0, units front, some ⟨0, (advance (0, 0) messageFront).1,
      (advance (0, 0) messageFront).2, none⟩⟩

theorem anchorSegment_split {source messageFront messageBack : List Char}
    (hsource : source = messageFront ++ messageBack) (column : Nat) :
    anchorSegment source (column, byteLength messageFront) = ⟨0, column,
      some ⟨0, (advance (0, 0) messageFront).1, (advance (0, 0) messageFront).2, none⟩⟩ := by
  unfold anchorSegment
  rw [hsource, position_append]
  rfl

section

variable {cases : List Case} {source : List Char} {environment : Environment}

/-- The first anchor is that of the start of the function. -/
theorem anchors_function (cases : List Case) (source : List Char) (environment : Environment) :
    ∃ others, anchorsFrom 0 (functionPieces cases source environment) =
      (units (openingText environment), 0) :: others := by
  cases environment with
  | production => exact ⟨_, rfl⟩
  | development => exact ⟨_, rfl⟩

/-- The segment that leads from the start of the function to the start of the message. -/
def functionSegment (environment : Environment) : MessageCatalog.Segment :=
  ⟨0, units (openingText environment), some ⟨0, 0, 0, none⟩⟩

theorem anchorSegment_start (source : List Char) (environment : Environment) :
    anchorSegment source (units (openingText environment), 0) = functionSegment environment :=
  @anchorSegment_split source [] source rfl _

/-- The anchor of an item becomes the segment of the item. -/
theorem Piece.IsAt.isLocated {item : Item} {anchor : Nat × Nat} (hparse : parse source = .ok cases)
    (hitem : item ∈ cases.flatten)
    (h : Piece.IsAt (functionPieces cases source environment) 0 item.piece anchor) :
    item.IsLocated cases source environment (piecesText (functionPieces cases source environment))
      (anchorSegment source anchor) := by
  obtain ⟨column, offset⟩ := anchor
  obtain ⟨before, after, hpieces, hanchor, hcolumn⟩ := h
  have hcolumn : column = 0 + units (piecesText before) := hcolumn
  have hitemOffset : item.offset = offset := Option.some.inj hanchor
  have hstarts : StartsBehind cases source environment item (piecesText before) :=
    ⟨before, after, hpieces, rfl⟩
  obtain ⟨behind, hcode⟩ := hstarts.split
  obtain ⟨messageFront, c, messageBack, hsource, hoffset⟩ := parse_startsAt hparse hitem
  refine ⟨piecesText before, behind, messageFront, c :: messageBack, hstarts, hcode, hsource, hoffset, ?_⟩
  rw [← hitemOffset, ← hoffset, anchorSegment_split hsource, hcolumn, Nat.zero_add]

/-- Every piece with an anchor has code. -/
theorem anchored_ne_nil : ∀ piece ∈ anchored (functionPieces cases source environment),
    piece.code.toList ≠ [] := by
  rw [anchored_function]
  intro piece h
  rcases List.mem_cons.1 h with rfl | h
  · decide
  · obtain ⟨item, -, rfl⟩ := List.mem_map.1 h
    obtain ⟨c, tail, hcode, -⟩ := item.part.code_head
    show item.part.code.toList ≠ []
    rw [hcode]
    exact List.cons_ne_nil c tail

/-- The numbers of all anchors are words. -/
theorem anchors_fit (hparse : parse source = .ok cases) (path : List String)
    (hcode : units (piecesText (functionPieces cases source environment)) < wordLimit)
    (hwords : environment = .production → WordPositions source) :
    ∀ a ∈ anchorsFrom 0 (functionPieces cases source environment),
      (anchorReading source path a.1 a.2).Fits := by
  rintro ⟨column, offset⟩ hmem
  obtain ⟨front, hanchor, rfl⟩ := mem_anchorsFrom.1 hmem
  obtain ⟨messageFront, messageBack, hsplit, rfl⟩ := hanchor.split hparse
  obtain ⟨hline, hcolumn⟩ := places_lt hcode hwords hsplit
  have hle := hanchor.units_le
  simp only
  rw [anchorReading_split hsplit]
  exact ⟨by simp only; omega, hline, hcolumn⟩

end

/--
The map of a message that is compiled ahead of time, as it is, has one source, the path with dots. It
decodes to a segment for the start of the function, which leads to the start of the message, and behind
it one segment for each item, in order: from the column of the code at which the code of the item
begins, to the line and column of the message at which the item starts. The code is on one line, and
the columns increase. The program counts lines and columns in words; in development it is enough for
this that the code is narrow enough, since it carries the message.
-/
theorem compile_map_locates_items {message : String} {options : Options} {path : List String}
    {compiled : CompiledMessage} (hjit : options.jit = false) (hescape : options.escapeHtml = false)
    (h : compile message options path = .ok compiled)
    (hcode : units compiled.code.toList < wordLimit)
    (hwords : options.environment = .production → WordPositions message.toList) :
    ∃ cases map behind segments,
      parse message.toList = .ok cases ∧ compiled.map = some map ∧
      map.sources = [".".intercalate path] ∧ '\n' ∉ compiled.code.toList ∧
      compiled.code.toList = openingText options.environment ++ "(ctx) => \x7b".toList ++ behind ∧
      map.decode = .ok (functionSegment options.environment :: segments) ∧
      List.Forall₂ (Item.IsLocated cases message.toList options.environment compiled.code.toList)
        cases.flatten segments ∧
      (functionSegment options.environment :: segments).Pairwise (·.column < ·.column) := by
  have hahead : options.strategy = .aheadOfTime := by
    rw [Options.strategy, hjit]
    rfl
  obtain ⟨cases, hparse, hcodeEq, hmap⟩ := Emission.compile_ahead hahead hescape h
  rw [hcodeEq] at hcode ⊢
  obtain ⟨others, hanchors⟩ := anchors_function cases message.toList options.environment
  have hfits := anchors_fit hparse path hcode hwords
  have hincreasing := @anchorsFrom_increasing (functionPieces cases message.toList options.environment) 0
    anchored_ne_nil
  have hat := anchorsFrom_forall₂ (functionPieces cases message.toList options.environment) 0
  have hdecode := functionMap_decode hfits hincreasing
  rw [anchored_function, hanchors] at hat
  rw [hanchors] at hmap hdecode hincreasing
  obtain ⟨opening, rest, hpieces, -, -, hopening, -⟩ :=
    functionPieces_split cases message.toList options.environment
  refine ⟨cases, _, piecesText rest, others.map (anchorSegment message.toList), hparse, hmap,
    functionMap_sources _ _ _, newline_not_mem_function _ _ _, ?_, ?_, ?_, ?_⟩
  · rw [hpieces, piecesText, List.flatMap_append, ← hopening, List.append_assoc]
    rfl
  · rw [hdecode, List.map_cons, anchorSegment_start]
  · have hitems := List.forall₂_map_left_iff.1 (List.forall₂_cons.1 hat).2
    rw [List.forall₂_map_right_iff]
    refine ((List.forall₂_and_left _ _).2 ⟨fun item hitem => hitem, hitems⟩).imp ?_
    rintro item anchor ⟨hitem, hanchor⟩
    exact hanchor.isLocated hparse hitem
  · rw [← anchorSegment_start message.toList, ← List.map_cons, List.pairwise_map]
    exact hincreasing

/-- Two cases, a character of two units in front of an item, and an item behind a line break. -/
theorem compile_map_locates_items_plural :
    let message := "𝕏 \x7bn\x7d|\n@:k"
    let options : Options := { environment := .production }
    let cases : List Case :=
      [[⟨.text "𝕏 ".toList, 0⟩, ⟨.named ['n'], 5⟩], [⟨.linked ['k'] none, 10⟩]]
    ∃ compiled map segments, compile message options ["a", "b"] = .ok compiled ∧
      parse message.toList = .ok cases ∧ compiled.map = some map ∧ map.sources = ["a.b"] ∧
      map.decode = .ok (functionSegment .production :: segments) ∧
      List.Forall₂ (Item.IsLocated cases message.toList .production compiled.code.toList)
        cases.flatten segments := by
  intro message options cases
  have hcases : parse message.toList = .ok cases := by decide +kernel
  have hsome : (compile message options ["a", "b"]).toOption.isSome = true := by decide +kernel
  obtain ⟨compiled, hcompile⟩ := Option.isSome_iff_exists.1 hsome
  have hcompile := ok_of_toOption hcompile
  obtain ⟨_, hparse, hcodeEq, -⟩ := Emission.compile_ahead rfl rfl hcompile
  cases hcases.symm.trans hparse
  have hcode : units compiled.code.toList < wordLimit := by
    rw [hcodeEq]
    decide +kernel
  obtain ⟨_, map, behind, segments, hparse, hmap, hsources, -, -, hdecode, hlocated, -⟩ :=
    compile_map_locates_items rfl rfl hcompile hcode
      fun _ => wordPositions_of_byteLength (by decide)
  cases hcases.symm.trans hparse
  exact ⟨compiled, map, segments, hcompile, hcases, hmap, hsources, hdecode, hlocated⟩

end MessageCatalog.Message
