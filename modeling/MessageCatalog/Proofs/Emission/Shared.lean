/-
Maps that are shared by strings with the same literal. The map of a literal names the path of the string
it was compiled for; but for that, what is kept for the literal depends on a string only through the
columns of its token. Strings that are written alike may share a map, and those that are written with
other escapes may not.
-/
import MessageCatalog.Proofs.Emission.Mapped

namespace MessageCatalog

open MessageCatalog.Text

/-! ## Renaming the source of a map -/

/-- The same map as one of a single source with another name. -/
def SourceMap.under (map : SourceMap) (source : String) : SourceMap := { map with sources := [source] }

/-- The same builder for a single source with another name. -/
def SourceMapBuilder.under (b : SourceMapBuilder) (source : String) : SourceMapBuilder :=
  { b with sources := #[source] }

theorem SourceMapBuilder.addMapping_under (b : SourceMapBuilder) (source : String)
    (line column id originLine originColumn : Nat) (name : Option String) :
    (b.under source).addMapping line column id originLine originColumn name =
      (b.addMapping line column id originLine originColumn name).under source := by
  cases name with
  | none => rfl
  | some name =>
    unfold addMapping addName under
    simp only
    split <;> rfl

section

variable (map : SourceMap) (source other : String)

theorem readLine_under (line : Nat) : ∀ (texts : List (List Char)) (st : DecodeState),
    readLine (map.under source) line st texts = readLine (map.under other) line st texts
  | [], st => rfl
  | text :: rest, st => by
    -- a segment is read by the number of sources, which is one for both
    have hsegment : ∀ st numbers, readSegment (map.under source) line st numbers =
        readSegment (map.under other) line st numbers := fun _ _ => rfl
    simp only [readLine, hsegment, readLine_under line rest]

theorem readLines_under : ∀ (texts : List (List Char)) (line : Nat) (st : DecodeState),
    readLines (map.under source) line st texts = readLines (map.under other) line st texts
  | [], line, st => rfl
  | text :: rest, line, st => by
    simp only [readLines, readLine_under map source other, readLines_under rest]

/-- What a map says of places does not depend on the name of its source. -/
theorem decode_under : (map.under source).decode = (map.under other).decode := by
  unfold SourceMap.decode
  simp only [readLines_under map source other]
  rfl

end

/-! ## Maps of messages -/

/-- The path that a message is compiled under is only the name of the source of its map. -/
theorem Message.functionMap_under (anchors : List (Nat × Nat)) (source : List Char)
    (path other : List String) :
    functionMap anchors source path =
      (functionMap anchors source other).under (".".intercalate path) := by
  let name := ".".intercalate path
  let record : SourceMapBuilder → Nat × Nat → SourceMapBuilder := fun b anchor =>
    let p := (LineIndex.ofText source).position anchor.2
    b.addMapping 0 anchor.1 0 (p.line - 1) p.column none
  have hrecord : ∀ (b : SourceMapBuilder) anchor,
      record (b.under name) anchor = (record b anchor).under name :=
    fun b anchor => b.addMapping_under name _ _ _ _ _ _
  have hfold := fun b => @List.foldl_hom _ _ _ (SourceMapBuilder.under · name) record record anchors b
    hrecord
  unfold functionMap
  simp only [SourceMapBuilder.addSource_new]
  exact congrArg SourceMapBuilder.build (hfold ⟨none, #[".".intercalate other], #[none], #[], #[]⟩)

namespace Emission

theorem rebaseFragment?_under (map : SourceMap) (columns : ColumnTable) (source other : String) :
    rebaseFragment? (map.under source) columns =
      (rebaseFragment? (map.under other) columns).map (·.under source) := by
  have hfold : ∀ (segments : List Segment) (b : SourceMapBuilder),
      segments.foldlM (rebaseSegment? (map.under source) columns) (b.under source) =
        (segments.foldlM (rebaseSegment? (map.under other) columns) b).map (·.under source) := by
    intro segments
    induction segments with
    | nil => exact fun _ => rfl
    | cons s rest ih =>
      intro b
      have hstep : rebaseSegment? (map.under source) columns (b.under source) s =
          (rebaseSegment? (map.under other) columns b s).map (·.under source) := by
        unfold rebaseSegment?
        cases s.origin with
        | none => rfl
        | some o =>
          simp only
          cases columns.lookup (o.line, o.column) with
          | none => rfl
          | some column => exact congrArg some (SourceMapBuilder.addMapping_under _ _ _ _ _ _ _ _)
      rw [List.foldlM_cons, List.foldlM_cons, hstep]
      cases rebaseSegment? (map.under other) columns b s with
      | none => rfl
      | some next => exact ih next
  unfold rebaseFragment?
  rw [decode_under map source other]
  cases (map.under other).decode with
  | error e => rfl
  | ok segments =>
    have hmoved := hfold segments ⟨map.file, #[other], #[none], #[], #[]⟩
    show ((segments.foldlM (rebaseSegment? (map.under source) columns)
        ((SourceMapBuilder.new map.file).addSource source).2).bind fun b => some b.build) =
      ((segments.foldlM (rebaseSegment? (map.under other) columns)
        ((SourceMapBuilder.new map.file).addSource other).2).bind fun b => some b.build).map _
    rw [SourceMapBuilder.addSource_new, SourceMapBuilder.addSource_new]
    refine (congrArg (Option.bind · fun b => some b.build) hmoved).trans ?_
    cases segments.foldlM (rebaseSegment? (map.under other) columns)
      ⟨map.file, #[other], #[none], #[], #[]⟩ <;> rfl

/-! ## Strings with the same literal -/

/-- The columns of the token that a scalar is written as, by the places of its literal. -/
def tokenColumns? {μ : Type} (cx : Context μ) (scalar : Scalar) (literal : String) :
    Option ColumnTable :=
  literalColumns? ((slice? cx.source scalar.span.start.offset scalar.span.stop.offset).getD [])
    literal.toList

section

variable {μ : Type} {cx : Context μ}

theorem literalMap_under (scalar : Scalar) (literal : String) (map : SourceMap)
    (source other : String) :
    literalMap cx scalar literal (map.under source) =
      (literalMap cx scalar literal (map.under other)).under source := by
  unfold literalMap
  simp only
  cases literalColumns? ((slice? cx.source scalar.span.start.offset
      scalar.span.stop.offset).getD []) literal.toList with
  | none => rfl
  | some columns =>
    rw [Option.bind_some, Option.bind_some, rebaseFragment?_under map columns source other]
    cases rebaseFragment? (map.under other) columns <;> rfl

theorem literalMap_congr {scalar other : Scalar} {literal : String}
    (h : tokenColumns? cx scalar literal = tokenColumns? cx other literal) (map : SourceMap) :
    literalMap cx scalar literal map = literalMap cx other literal map := by
  unfold tokenColumns? at h
  unfold literalMap
  simp only [h]

/--
Strings with the same literal may share what is kept for it if the columns of their tokens are the
same: under whatever paths they are compiled, their maps have the same segments.
-/
theorem literalMap_shared {literal : String} {path path' : List String} {scalar other : Scalar}
    (hcolumns : tokenColumns? cx scalar literal = tokenColumns? cx other literal)
    {compiled compiled' : CompiledMessage} {map map' : SourceMap}
    (h : Message.compile literal cx.options path = .ok compiled) (hmap : compiled.map = some map)
    (h' : Message.compile literal cx.options path' = .ok compiled')
    (hmap' : compiled'.map = some map') :
    (literalMap cx scalar literal map).decode = (literalMap cx other literal map').decode := by
  obtain ⟨cases, hparse, hform⟩ := Message.compile_eq_ok h
  obtain ⟨cases', hparse', hform'⟩ := Message.compile_eq_ok h'
  cases hparse.symm.trans hparse'
  have hnames := congrArg (·.2) hform
  have hnames' := congrArg (·.2) hform'
  unfold Message.represent at hnames hnames'
  split at hnames
  · -- a deferred message has no map
    cases hnames.trans hmap
  · rename_i hstrategy
    rw [hstrategy] at hnames'
    cases hnames.trans hmap
    cases hnames'.trans hmap'
    have hmoved := literalMap_congr hcolumns
    rw [Message.functionMap_under _ _ path path', literalMap_under _ _ _ _ (".".intercalate path'),
      hmoved, ← Message.functionMap_under, Message.functionMap_under _ _ path' path',
      literalMap_under _ _ _ _ (".".intercalate path')]
    exact decode_under _ _ _

end

/-- An escape moves the columns behind it, so here the two strings of a text may not share a map. -/
example : literalColumns? "\"\\u0041\x7bn\x7d\"".toList "A\x7bn\x7d".toList ≠
    literalColumns? "\"A\x7bn\x7d\"".toList "A\x7bn\x7d".toList := by decide +kernel

end Emission

end MessageCatalog
