/-
Building a source map: sources and names are numbered in the order of their first use, segments are
sorted and written once each, every number as the difference from the one before it.
-/
import MessageCatalog.SourceMap.Basic
import MessageCatalog.SourceMap.Vlq

namespace MessageCatalog

/-! ## Encoding segments -/

/-- The numbers that the differences are taken from. -/
structure EncodeState where
  line : Nat
  column : Nat
  source : Nat
  originLine : Nat
  originColumn : Nat
  name : Nat
  deriving Repr

def EncodeState.start : EncodeState := ⟨0, 0, 0, 0, 0, 0⟩

def difference (new old : Nat) : List Char := Vlq.encode ((new : Int) - old)

/-- The text of one segment, and the numbers for the next. -/
def encodeSegment (st : EncodeState) (s : Segment) : List Char × EncodeState :=
  let place := difference s.column st.column
  let st := { st with column := s.column }
  match s.origin with
  | none => (place, st)
  | some o =>
    let text := place ++ difference o.source st.source ++ difference o.line st.originLine ++
      difference o.column st.originColumn
    let st := { st with source := o.source, originLine := o.line, originColumn := o.column }
    match o.name with
    | none => (text, st)
    | some n => (text ++ difference n st.name, { st with name := n })

/-- Segments in increasing order of lines; `fresh` at the start of a line, where no comma stands. -/
def encodeSegments (st : EncodeState) (fresh : Bool) : List Segment → List Char
  | [] => []
  | s :: rest =>
    if st.line < s.line then
      let (text, st') := encodeSegment { st with line := s.line, column := 0 } s
      List.replicate (s.line - st.line) ';' ++ text ++ encodeSegments st' false rest
    else
      let (text, st') := encodeSegment st s
      (if fresh then [] else [',']) ++ text ++ encodeSegments st' false rest

/-- The text of segments that are sorted. -/
def mappingsText (segments : List Segment) : String :=
  String.ofList (encodeSegments .start true segments)

/-! ## The builder -/

structure SourceMapBuilder where
  file : Option String
  sources : Array String
  contents : Array (Option String)
  names : Array String
  segments : Array Segment
  deriving Repr, Inhabited

namespace SourceMapBuilder

def new (file : Option String) : SourceMapBuilder := ⟨file, #[], #[], #[], #[]⟩

/-- The number of a source, which is a new one at its first use. -/
def addSource (b : SourceMapBuilder) (source : String) : Nat × SourceMapBuilder :=
  match b.sources.idxOf? source with
  | some id => (id, b)
  | none =>
    (b.sources.size, { b with sources := b.sources.push source, contents := b.contents.push none })

/-- The last content that is set counts; an unknown source has none. -/
def setContent (b : SourceMapBuilder) (source : Nat) (content : String) : SourceMapBuilder :=
  { b with contents := b.contents.setIfInBounds source (some content) }

def addName (b : SourceMapBuilder) (name : String) : Nat × SourceMapBuilder :=
  match b.names.idxOf? name with
  | some id => (id, b)
  | none => (b.names.size, { b with names := b.names.push name })

/-- Records that the generated place comes from a place of a source. -/
def addMapping (b : SourceMapBuilder) (line column source originLine originColumn : Nat)
    (name : Option String) : SourceMapBuilder :=
  let (id, b) :=
    match name with
    | some n => let (id, b) := b.addName n; (some id, b)
    | none => (none, b)
  { b with segments := b.segments.push ⟨line, column, some ⟨source, originLine, originColumn, id⟩⟩ }

def build (b : SourceMapBuilder) : SourceMap where
  version := 3
  file := b.file
  sources := b.sources.toList
  sourcesContent := if b.contents.any Option.isSome then some b.contents.toList else none
  names := b.names.toList
  mappings := mappingsText (sortSegments b.segments.toList)

end SourceMapBuilder

end MessageCatalog
