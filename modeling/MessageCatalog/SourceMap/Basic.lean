/-
Source maps of revision 3: the map as it is exchanged, and the segments that its text encodes. Lines
and columns count from 0, columns in UTF-16 units.
-/

namespace MessageCatalog

/-! ## Maps -/

structure SourceMap where
  version : Nat
  file : Option String
  sources : List String
  sourcesContent : Option (List (Option String))
  names : List String
  mappings : String
  deriving DecidableEq, Repr, Inhabited

namespace SourceMap

/-- The map of output for which none is kept. -/
def empty : SourceMap := ⟨3, none, [], none, [], ""⟩

def isEmpty (map : SourceMap) : Bool := map.mappings = ""

def name? (map : SourceMap) (index : Nat) : Option String := map.names[index]?

def source? (map : SourceMap) (index : Nat) : Option String := map.sources[index]?

def content? (map : SourceMap) (index : Nat) : Option String :=
  match map.sourcesContent with
  | some contents => (contents[index]?).join
  | none => none

end SourceMap

/-! ## Segments -/

/-- Where generated text comes from; source and name are indices into the map. -/
structure Origin where
  source : Nat
  line : Nat
  column : Nat
  name : Option Nat
  deriving DecidableEq, Repr, Inhabited

structure Segment where
  line : Nat
  column : Nat
  origin : Option Origin
  deriving DecidableEq, Repr, Inhabited

/-- Compares lists of numbers from the front; a proper beginning comes first. -/
def compareLists : List Nat → List Nat → Ordering
  | [], [] => .eq
  | [], _ :: _ => .lt
  | _ :: _, [] => .gt
  | a :: as, b :: bs =>
    match compare a b with
    | .eq => compareLists as bs
    | order => order

/-- The sort key of a segment: generated place, then origin; what is absent comes first. -/
def Segment.key (s : Segment) : List Nat :=
  [s.line, s.column] ++
    match s.origin with
    | none => []
    | some o => [o.source, o.line, o.column] ++ o.name.toList

def Segment.le (a b : Segment) : Bool := compareLists a.key b.key != .gt

/-- Drops every segment that equals the one before it. -/
def dropRepeats : List Segment → List Segment
  | a :: b :: rest => if a = b then dropRepeats (b :: rest) else a :: dropRepeats (b :: rest)
  | segments => segments

/-- The segments in increasing order, each once. -/
def sortSegments (segments : List Segment) : List Segment :=
  dropRepeats (segments.mergeSort Segment.le)

/-- The column and the origin of a segment on a line that does not start behind a column. -/
def Segment.startBy? (line column : Nat) (s : Segment) : Option (Nat × Origin) :=
  s.origin.bind fun o =>
    if s.line = line ∧ s.column ≤ column then some (s.column, o) else none

/-- The start that is further on; of two at one column the second. -/
def laterStart (best : Option (Nat × Origin)) (next : Nat × Origin) : Option (Nat × Origin) :=
  match best with
  | some b => if b.1 ≤ next.1 then some next else some b
  | none => some next

/--
The segment with an origin that starts last at or before the column on the line, and of several such
the last one: its column and its origin.
-/
def nearest? (segments : List Segment) (line column : Nat) : Option (Nat × Origin) :=
  (segments.filterMap (Segment.startBy? line column)).foldl laterStart none

/-- The origin of a generated place: that of the nearest segment, moved on by the distance to it. -/
def originAt (segments : List Segment) (line column : Nat) : Option Origin :=
  (nearest? segments line column).map fun (start, o) =>
    { o with column := o.column + (column - start) }

end MessageCatalog
