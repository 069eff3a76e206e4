/-
The map of a compiled message. Its readings are the anchors of the function's pieces: the start of
the function, at the start of the message, and the start of every item's code, at the item.
-/
import MessageCatalog.Proofs.Message.Offsets
import MessageCatalog.Proofs.Message.ReadBack
import MessageCatalog.Proofs.SourceMap.Builder
import MessageCatalog.Proofs.Text.Position

namespace MessageCatalog.Message

open MessageCatalog.Code MessageCatalog.Text

/-! ## Anchors -/

/-- A piece of a text that starts behind `front` and is anchored at a byte of the message. -/
def AnchoredAt (pieces : List Piece) (front : List Char) (offset : Nat) : Prop :=
  ∃ before piece after, pieces = before ++ piece :: after ∧ piece.anchor = some offset ∧
    piecesText before = front

theorem piecesText_cons (piece : Piece) (pieces : List Piece) :
    piecesText (piece :: pieces) = piece.code.toList ++ piecesText pieces := List.flatMap_cons

theorem mem_anchorsFrom {offset col : Nat} : ∀ {pieces : List Piece} {column : Nat},
    (col, offset) ∈ anchorsFrom column pieces ↔
      ∃ front, AnchoredAt pieces front offset ∧ col = column + units front
  | [], column => by
    constructor
    · intro h
      cases h
    · rintro ⟨-, ⟨before, piece, after, h, -⟩, -⟩
      exact absurd h.symm (List.append_ne_nil_of_right_ne_nil _ (List.cons_ne_nil _ _))
  | piece :: pieces, column => by
    have hothers := @mem_anchorsFrom offset col pieces (column + units piece.code.toList)
    -- an anchor is that of the first piece, or it is one of the others behind the first piece
    have hsplit : (∃ front, AnchoredAt (piece :: pieces) front offset ∧ col = column + units front) ↔
        (piece.anchor = some offset ∧ col = column) ∨
          (col, offset) ∈ anchorsFrom (column + units piece.code.toList) pieces := by
      rw [hothers]
      constructor
      · rintro ⟨front, ⟨before, p, after, hpieces, hanchor, rfl⟩, rfl⟩
        cases before with
        | nil =>
          cases hpieces
          exact Or.inl ⟨hanchor, rfl⟩
        | cons b before =>
          cases hpieces
          refine Or.inr ⟨piecesText before, ⟨before, p, after, rfl, hanchor, rfl⟩, ?_⟩
          rw [piecesText_cons, units_append, Nat.add_assoc]
      · rintro (⟨hanchor, rfl⟩ | ⟨front, ⟨before, p, after, rfl, hanchor, rfl⟩, rfl⟩)
        · exact ⟨[], ⟨[], piece, pieces, rfl, hanchor, rfl⟩, rfl⟩
        · refine ⟨_, ⟨piece :: before, p, after, rfl, hanchor, rfl⟩, ?_⟩
          rw [piecesText_cons, units_append, Nat.add_assoc]
    rw [hsplit, anchorsFrom]
    cases hanchor : piece.anchor with
    | none => simp
    | some o => simp [eq_comm, and_comm]

/-! ## Anchors of a function -/

/-- What stands in front of the function proper. -/
def openingText : Environment → List Char
  | .production => []
  | .development => "(()=>\x7bconst fn=".toList

theorem mem_intersperse {α : Type} {x sep : α} : ∀ {l : List α},
    x ∈ l.intersperse sep → x = sep ∨ x ∈ l
  | [], h => nomatch h
  | [_], h => Or.inr h
  | y :: z :: l, h => by
    rcases List.mem_cons.1 h with rfl | h
    · exact Or.inr List.mem_cons_self
    rcases List.mem_cons.1 h with rfl | h
    · exact Or.inl rfl
    · exact (mem_intersperse h).imp_right (List.mem_cons_of_mem _)

theorem mem_intersperse_of_mem {α : Type} {x : α} {l : List α} (sep : α) (h : x ∈ l) :
    x ∈ l.intersperse sep := by
  obtain ⟨i, hi⟩ := List.mem_iff_getElem?.1 h
  exact List.mem_of_getElem? ((List.getElem?_intersperse_two_mul).trans hi)

theorem mem_casePieces {piece : Piece} {case : Case} {offset : Nat}
    (h : piece ∈ casePieces case) (hanchor : piece.anchor = some offset) :
    ∃ item ∈ case, piece = item.piece := by
  -- brackets and separators have no anchor
  rcases List.mem_append.1 h with h | h
  · rcases List.mem_cons.1 h with rfl | h
    · cases hanchor
    rcases mem_intersperse h with rfl | h
    · cases hanchor
    · obtain ⟨item, hitem, rfl⟩ := List.mem_map.1 h
      exact ⟨item, hitem, rfl⟩
  · cases List.mem_singleton.1 h
    cases hanchor

theorem mem_bodyPieces {piece : Piece} {cases : List Case} {offset : Nat}
    (h : piece ∈ bodyPieces cases) (hanchor : piece.anchor = some offset) :
    ∃ item ∈ cases.flatten, piece = item.piece := by
  have hcase : ∀ case ∈ cases, piece ∈ casePieces case →
      ∃ item ∈ cases.flatten, piece = item.piece := by
    intro case hcase h
    obtain ⟨item, hitem, he⟩ := mem_casePieces h hanchor
    exact ⟨item, List.mem_flatten_of_mem hcase hitem, he⟩
  rcases cases with _ | ⟨first, _ | ⟨next, others⟩⟩
  · cases h
  · exact hcase first List.mem_cons_self h
  · rw [bodyPieces] at h
    · rcases List.mem_append.1 h with h | h
      · rcases List.mem_cons.1 h with rfl | h
        · cases hanchor
        obtain ⟨pieces, hpieces, h⟩ := List.mem_flatten.1 h
        rcases mem_intersperse hpieces with rfl | hpieces
        · cases List.mem_singleton.1 h
          cases hanchor
        · obtain ⟨case, hmem, rfl⟩ := List.mem_map.1 hpieces
          exact hcase case hmem h
      · cases List.mem_singleton.1 h
        cases hanchor
    · exact List.cons_ne_nil _ _
    · intro only h
      cases h

theorem item_mem_casePieces {item : Item} {case : Case} (h : item ∈ case) :
    item.piece ∈ casePieces case :=
  List.mem_append_left _ (List.mem_cons_of_mem _
    (mem_intersperse_of_mem _ (List.mem_map_of_mem h)))

theorem item_mem_bodyPieces {item : Item} {cases : List Case} (h : item ∈ cases.flatten) :
    item.piece ∈ bodyPieces cases := by
  obtain ⟨case, hcase, hitem⟩ := List.mem_flatten.1 h
  have hpiece := item_mem_casePieces hitem
  rcases cases with _ | ⟨first, _ | ⟨next, others⟩⟩
  · cases h
  · cases List.mem_singleton.1 hcase
    exact hpiece
  · rw [bodyPieces]
    · have hpieces : casePieces case ∈
          ((first :: next :: others).map casePieces).intersperse [.plain ", "] :=
        mem_intersperse_of_mem _ (List.mem_map_of_mem hcase)
      exact List.mem_append_left _
        (List.mem_cons_of_mem _ (List.mem_flatten_of_mem hpieces hpiece))
    · exact List.cons_ne_nil _ _
    · intro only h
      cases h

/-- The piece that a function proper starts with. -/
def functionPiece : Piece := ⟨"(ctx) => \x7b", some 0⟩

/-- The code of an item is not where the function begins. -/
theorem piece_ne_function (item : Item) : item.piece ≠ functionPiece := by
  intro h
  obtain ⟨c, tail, hcode, hc⟩ := item.part.code_head
  have hfunction : item.part.code.toList = functionPiece.code.toList :=
    congrArg (fun piece => piece.code.toList) h
  rw [hfunction] at hcode
  have hopen : '(' = c := (List.cons.inj hcode).1
  rcases hc with rfl | rfl <;> exact absurd hopen (by decide)

theorem functionPiece_not_mem_body (cases : List Case) : functionPiece ∉ bodyPieces cases := by
  intro h
  obtain ⟨item, -, he⟩ := mem_bodyPieces h rfl
  exact piece_ne_function item he.symm

/-- A function proper starts once, behind what stands in front of it. -/
theorem functionPieces_split (cases : List Case) (source : List Char) (environment : Environment) :
    ∃ opening rest, functionPieces cases source environment = opening ++ functionPiece :: rest ∧
      functionPiece ∉ opening ∧ functionPiece ∉ rest ∧ piecesText opening = openingText environment ∧
      (∀ piece ∈ opening, piece.anchor = none) ∧
      (∀ piece ∈ rest, piece.anchor = none ∨ piece ∈ bodyPieces cases) ∧
      ∀ piece ∈ bodyPieces cases, piece ∈ rest := by
  -- what stands behind the start in either environment
  let inner : List Piece := .plain (Helpers.ofCases cases).binding :: .plain "return " ::
    (bodyPieces cases ++ [.plain "\x7d"])
  have hmem : ∀ piece ∈ inner, piece.anchor = none ∨ piece ∈ bodyPieces cases := by
    intro piece h
    rcases List.mem_cons.1 h with rfl | h
    · exact Or.inl rfl
    rcases List.mem_cons.1 h with rfl | h
    · exact Or.inl rfl
    rcases List.mem_append.1 h with h | h
    · exact Or.inr h
    · cases List.mem_singleton.1 h
      exact Or.inl rfl
  have hbody : ∀ piece ∈ bodyPieces cases, piece ∈ inner := fun piece h =>
    List.mem_cons_of_mem _ (List.mem_cons_of_mem _ (List.mem_append_left _ h))
  have hnot : functionPiece ∉ inner := by
    intro h
    rcases hmem _ h with h | h
    · cases h
    · exact functionPiece_not_mem_body cases h
  cases environment with
  | production => exact ⟨[], inner, rfl, List.not_mem_nil, hnot, rfl, nofun, hmem, hbody⟩
  | development =>
    let closing : List Piece :=
      [.plain ";fn.source=", .plain (quotedChars source), .plain ";return fn;\x7d)()"]
    have hclosing : ∀ piece ∈ closing, piece.anchor = none := by
      intro piece h
      simp only [closing, List.mem_cons, List.not_mem_nil, or_false] at h
      rcases h with rfl | rfl | rfl <;> rfl
    refine ⟨[.plain "(()=>\x7bconst fn="], inner ++ closing, rfl, ?_, ?_, ?_, ?_, ?_, ?_⟩
    · intro h
      have hanchor := congrArg Piece.anchor (List.mem_singleton.1 h)
      cases hanchor
    · intro h
      rcases List.mem_append.1 h with h | h
      · exact hnot h
      · cases hclosing _ h
    · rw [piecesText_cons]
      exact List.append_nil _
    · intro piece h
      cases List.mem_singleton.1 h
      rfl
    · intro piece h
      rcases List.mem_append.1 h with h | h
      · exact hmem piece h
      · exact Or.inl (hclosing piece h)
    · exact fun piece h => List.mem_append_left _ (hbody piece h)

/-- The code of an item of a function starts behind some of its pieces. -/
def StartsBehind (cases : List Case) (source : List Char) (environment : Environment) (item : Item)
    (front : List Char) : Prop :=
  ∃ before after, functionPieces cases source environment = before ++ item.piece :: after ∧
    piecesText before = front

variable {cases : List Case} {source : List Char} {environment : Environment} {item : Item}

/-- The code of every item is in the function. -/
theorem startsBehind_exists (h : item ∈ cases.flatten) :
    ∃ front, StartsBehind cases source environment item front := by
  obtain ⟨opening, rest, hpieces, -, -, -, -, -, hbody⟩ :=
    functionPieces_split cases source environment
  obtain ⟨before, after, hrest⟩ := List.append_of_mem (hbody _ (item_mem_bodyPieces h))
  refine ⟨_, opening ++ functionPiece :: before, after, ?_, rfl⟩
  rw [hpieces, hrest, List.append_assoc]
  rfl

/-- What starts behind a text in a function is the code of the item. -/
theorem StartsBehind.split {front : List Char} (h : StartsBehind cases source environment item front) :
    ∃ behind, piecesText (functionPieces cases source environment) =
      front ++ item.part.code.toList ++ behind := by
  obtain ⟨before, after, hpieces, rfl⟩ := h
  refine ⟨piecesText after, ?_⟩
  rw [hpieces, piecesText, piecesText, List.flatMap_append, List.flatMap_cons, List.append_assoc]
  rfl

/-- The code of an item is behind the start of the function. -/
theorem StartsBehind.units_pos {front : List Char}
    (h : StartsBehind cases source environment item front) :
    0 < units front := by
  obtain ⟨before, after, hpieces, rfl⟩ := h
  have hfirst : ∃ piece others c tail, functionPieces cases source environment = piece :: others ∧
      piece ≠ item.piece ∧ piece.code.toList = c :: tail := by
    cases environment with
    | production => exact ⟨functionPiece, _, _, _, rfl, (piece_ne_function item).symm, rfl⟩
    | development =>
      refine ⟨.plain "(()=>\x7bconst fn=", _, _, _, rfl, fun h => ?_, rfl⟩
      have hanchor := congrArg Piece.anchor h
      cases hanchor
  obtain ⟨piece, others, c, tail, hfunction, hne, hcode⟩ := hfirst
  rw [hfunction] at hpieces
  rcases before with _ | ⟨first, before⟩
  · exact absurd (List.cons.inj hpieces).1 hne
  · obtain ⟨rfl, -⟩ := List.cons.inj hpieces
    rw [piecesText_cons, units_append, hcode, units]
    have := unitsOf_pos c
    omega

/-- What is anchored in a function is its start, at byte 0, or an item. -/
theorem anchoredAt_function {front : List Char} {offset : Nat} :
    AnchoredAt (functionPieces cases source environment) front offset ↔
      (front = openingText environment ∧ offset = 0) ∨
        ∃ item ∈ cases.flatten, item.offset = offset ∧
          StartsBehind cases source environment item front := by
  obtain ⟨opening, rest, hsplit, hopening, hrest, htext, hplain, hmem, -⟩ :=
    functionPieces_split cases source environment
  constructor
  · rintro ⟨before, piece, after, hpieces, hanchor, rfl⟩
    have hpiece : piece ∈ opening ++ functionPiece :: rest := by
      rw [← hsplit, hpieces]
      simp
    rcases List.mem_append.1 hpiece with hpiece | hpiece
    · rw [hplain piece hpiece] at hanchor
      cases hanchor
    rcases List.mem_cons.1 hpiece with rfl | hpiece
    · -- the piece occurs once, so the text in front of it is the opening
      rw [hsplit] at hpieces
      obtain ⟨hbefore, -⟩ := (List.append_cons_inj_of_notMem hopening hrest).1 hpieces
      exact Or.inl ⟨hbefore ▸ htext, (Option.some.inj hanchor).symm⟩
    · rcases hmem piece hpiece with hnone | hbody
      · rw [hnone] at hanchor
        cases hanchor
      · obtain ⟨item, hitem, rfl⟩ := mem_bodyPieces hbody hanchor
        exact Or.inr ⟨item, hitem, Option.some.inj hanchor, before, after, hpieces, rfl⟩
  · rintro (⟨rfl, rfl⟩ | ⟨item, -, rfl, before, after, hpieces, rfl⟩)
    · exact ⟨opening, functionPiece, rest, hsplit, rfl, htext⟩
    · exact ⟨before, item.piece, after, hpieces, rfl, rfl⟩

/-! ## The map -/

/-- What the map of a function says about an anchor. -/
def anchorReading (source : List Char) (path : List String) (column offset : Nat) : Reading :=
  let p := (LineIndex.ofText source).position offset
  ⟨0, column, ".".intercalate path, p.line - 1, p.column, none⟩

theorem foldl_anchors_records (source : List Char) (path : List String) :
    ∀ {anchors : List (Nat × Nat)} {b : SourceMapBuilder} {readings : List Reading},
      b.Records readings → b.sources.toList = [".".intercalate path] →
      let next := anchors.foldl (fun b (column, offset) =>
        let p := (LineIndex.ofText source).position offset
        b.addMapping 0 column 0 (p.line - 1) p.column none) b
      next.Records (readings ++ anchors.map fun a => anchorReading source path a.1 a.2) ∧
        next.sources.toList = [".".intercalate path]
  | [], b, readings, hb, hsources => ⟨by rwa [List.map_nil, List.append_nil], hsources⟩
  | (column, offset) :: anchors, b, readings, hb, hsources => by
    have hid : b.sources.toList[0]? = some (".".intercalate path) := by rw [hsources]; rfl
    let p := (LineIndex.ofText source).position offset
    have hnext := @foldl_anchors_records source path anchors _ _
      (hb.addMapping hid 0 column (p.line - 1) p.column none) hsources
    rw [List.append_assoc] at hnext
    exact hnext

/-- The builder that the map of a function comes from: its source is the path of the message. -/
def anchorsBuilder (anchors : List (Nat × Nat)) (source : List Char) (path : List String) :
    SourceMapBuilder :=
  anchors.foldl (fun b (column, offset) =>
    let p := (LineIndex.ofText source).position offset
    b.addMapping 0 column 0 (p.line - 1) p.column none) ⟨none, #[".".intercalate path], #[none], #[], #[]⟩

section

variable {anchors : List (Nat × Nat)} {source : List Char} {path : List String}

theorem functionMap_eq_build :
    functionMap anchors source path = (anchorsBuilder anchors source path).build := by
  unfold functionMap
  rw [SourceMapBuilder.addSource_new]
  rfl

theorem anchorsBuilder_recorded :
    (anchorsBuilder anchors source path).Records
        (anchors.map fun a => anchorReading source path a.1 a.2) ∧
      (anchorsBuilder anchors source path).sources.toList = [".".intercalate path] := by
  have hstart := SourceMapBuilder.addSource_new none (".".intercalate path)
  have hrecords := (SourceMapBuilder.new_records none).addSource (".".intercalate path)
  rw [hstart] at hrecords
  exact foldl_anchors_records source path hrecords rfl

theorem functionMap_sources (anchors : List (Nat × Nat)) (source : List Char) (path : List String) :
    (functionMap anchors source path).sources = [".".intercalate path] := by
  rw [functionMap_eq_build]
  exact anchorsBuilder_recorded.2

theorem anchorsBuilder_sources_le : (anchorsBuilder anchors source path).sources.size ≤ wordLimit := by
  rw [← Array.length_toList, anchorsBuilder_recorded.2]
  exact Nat.le_of_ble_eq_true rfl

/-- An anchor names nothing. -/
theorem anchorsBuilder_names_le : (anchorsBuilder anchors source path).names.size ≤ wordLimit := by
  refine Nat.le_trans (anchorsBuilder_recorded.1.names_le [] fun r hr name hname => ?_) (Nat.zero_le _)
  obtain ⟨a, -, rfl⟩ := List.mem_map.1 hr
  cases hname

theorem anchorReadings_fit (hfits : ∀ a ∈ anchors, (anchorReading source path a.1 a.2).Fits) :
    ∀ r ∈ anchors.map fun a => anchorReading source path a.1 a.2, r.Fits := by
  intro r hr
  obtain ⟨a, ha, rfl⟩ := List.mem_map.1 hr
  exact hfits a ha

end

/-- The map of a function decodes and says what its anchors say. -/
theorem functionMap_tells (anchors : List (Nat × Nat)) (source : List Char) (path : List String)
    (hfits : ∀ a ∈ anchors, (anchorReading source path a.1 a.2).Fits) :
    (functionMap anchors source path).Tells fun r =>
      ∃ column offset, (column, offset) ∈ anchors ∧ r = anchorReading source path column offset := by
  have hmem : ∀ r, (r ∈ anchors.map fun a => anchorReading source path a.1 a.2) ↔
      ∃ column offset, (column, offset) ∈ anchors ∧ r = anchorReading source path column offset := by
    intro r
    rw [List.mem_map]
    constructor
    · rintro ⟨⟨column, offset⟩, ha, rfl⟩
      exact ⟨column, offset, ha, rfl⟩
    · rintro ⟨column, offset, ha, rfl⟩
      exact ⟨(column, offset), ha, rfl⟩
  rw [functionMap_eq_build]
  exact (anchorsBuilder_recorded.1.tells (anchorReadings_fit hfits) anchorsBuilder_sources_le
    anchorsBuilder_names_le).congr hmem

/-- What is anchored is at most as far as the whole text. -/
theorem AnchoredAt.units_le {pieces : List Piece} {front : List Char} {offset : Nat}
    (h : AnchoredAt pieces front offset) : units front ≤ units (piecesText pieces) := by
  obtain ⟨before, piece, after, rfl, -, rfl⟩ := h
  rw [piecesText, piecesText, List.flatMap_append, units_append]
  exact Nat.le_add_right _ _

/-- What is anchored in a function is anchored between two parts of the message. -/
theorem AnchoredAt.split {front : List Char} {offset : Nat} (hparse : parse source = .ok cases)
    (h : AnchoredAt (functionPieces cases source environment) front offset) :
    ∃ messageFront messageBack, source = messageFront ++ messageBack ∧
      byteLength messageFront = offset := by
  rcases anchoredAt_function.1 h with ⟨-, rfl⟩ | ⟨item, hitem, rfl, -⟩
  · exact ⟨[], source, rfl, rfl⟩
  · obtain ⟨messageFront, c, back, hsource, hoffset⟩ := parse_startsAt hparse hitem
    exact ⟨messageFront, c :: back, hsource, hoffset⟩

theorem anchorReading_split {messageFront messageBack : List Char} {path : List String}
    (hsource : source = messageFront ++ messageBack) (column : Nat) :
    anchorReading source path column (byteLength messageFront) =
      ⟨0, column, ".".intercalate path, (advance (0, 0) messageFront).1,
        (advance (0, 0) messageFront).2, none⟩ := by
  subst hsource
  unfold anchorReading
  rw [position_append]
  rfl

/-- The places of a text that is short enough are words. -/
theorem advance_lt {a b : List Char} (h : byteLength (a ++ b) < wordLimit) :
    (advance (0, 0) a).1 < wordLimit ∧ (advance (0, 0) a).2 < wordLimit := by
  have hline := advance_line_le (0, 0) a
  have hcolumn := advance_column_le (0, 0) a
  have hunits := units_le_byteLength a
  rw [byteLength_append] at h
  simp only at hline hcolumn
  omega

/-- The map of a compiled message leads from its anchors to the places of the message. -/
theorem compiledMap_tells (hparse : parse source = .ok cases) (path : List String)
    (hsource : byteLength source < wordLimit)
    (hcode : units (piecesText (functionPieces cases source environment)) < wordLimit) :
    (functionMap (anchorsFrom 0 (functionPieces cases source environment)) source path).Tells fun r =>
      ∃ front messageFront messageBack,
        AnchoredAt (functionPieces cases source environment) front (byteLength messageFront) ∧
        source = messageFront ++ messageBack ∧
        r = ⟨0, units front, ".".intercalate path, (advance (0, 0) messageFront).1,
          (advance (0, 0) messageFront).2, none⟩ := by
  have htells := functionMap_tells (anchorsFrom 0 (functionPieces cases source environment)) source
    path ?_
  · refine htells.congr fun r => ⟨?_, ?_⟩
    · rintro ⟨column, offset, hmem, rfl⟩
      obtain ⟨front, hanchor, rfl⟩ := mem_anchorsFrom.1 hmem
      obtain ⟨messageFront, messageBack, hsplit, rfl⟩ := hanchor.split hparse
      exact ⟨front, messageFront, messageBack, hanchor, hsplit,
        by rw [anchorReading_split hsplit, Nat.zero_add]⟩
    · rintro ⟨front, messageFront, messageBack, hanchor, hsplit, rfl⟩
      refine ⟨units front, byteLength messageFront, mem_anchorsFrom.2 ⟨front, hanchor, ?_⟩, ?_⟩
      · exact (Nat.zero_add _).symm
      · exact (anchorReading_split hsplit _).symm
  · rintro ⟨column, offset⟩ hmem
    obtain ⟨front, hanchor, rfl⟩ := mem_anchorsFrom.1 hmem
    obtain ⟨messageFront, messageBack, hsplit, rfl⟩ := hanchor.split hparse
    obtain ⟨hline, hcolumn⟩ := advance_lt (hsplit ▸ hsource)
    have hle := hanchor.units_le
    simp only
    rw [anchorReading_split hsplit]
    exact ⟨by simp only; omega, hline, hcolumn⟩

end MessageCatalog.Message
