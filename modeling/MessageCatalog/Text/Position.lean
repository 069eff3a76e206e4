/-
Places in a source text. A position carries a line, a column and a byte offset; the line index of a
text answers which line and column a byte offset has.
-/
import MessageCatalog.Text.Measure

namespace MessageCatalog.Text

/-- A point of a source text: lines count from 1, columns are UTF-16 units from 0, offsets bytes. -/
structure Position where
  line : Nat
  column : Nat
  offset : Nat
  deriving DecidableEq, Repr, Inhabited

/-- The position of a document without text. -/
def Position.origin : Position := ⟨0, 0, 0⟩

structure Span where
  start : Position
  stop : Position
  deriving DecidableEq, Repr, Inhabited

def Span.origin : Span := ⟨.origin, .origin⟩

/-! ## Line index -/

/-- The byte offsets at which the lines of a text start, the text itself starting at `offset`. -/
def lineStartsFrom (offset : Nat) : List Char → List Nat
  | [] => []
  | c :: cs =>
    let next := offset + c.utf8Size
    if c = '\n' then next :: lineStartsFrom next cs else lineStartsFrom next cs

/-- A text with the byte offset of the first character of each of its lines. -/
structure LineIndex where
  source : List Char
  size : Nat
  starts : List Nat

def LineIndex.ofText (source : List Char) : LineIndex where
  source := source
  size := byteLength source
  starts := 0 :: lineStartsFrom 0 source

def LineIndex.ofString (source : String) : LineIndex := .ofText source.toList

/-- Where a value stands in an increasing list, or else where it would have to be put in. -/
def search (table : List Nat) (value : Nat) : Except Nat Nat :=
  match table.idxOf? value with
  | some place => .ok place
  | none => .error (table.takeWhile (· < value)).length

/--
The last line that starts at or before the offset, as a pair of its number from 0 and its start:
the line that starts there, or the one in front of the place where the offset would be put in.
-/
def LineIndex.lineOf? (index : LineIndex) (offset : Nat) : Option (Nat × Nat) := do
  let line ←
    match search index.starts offset with
    | .ok line => some line
    | .error 0 => none
    | .error (next + 1) => some next
  let start ← index.starts[line]?
  return (line, start)

/--
The position of a byte offset. An offset past the end is the end of the text; an offset inside a
character has the byte distance from the start of its line as column.
-/
def LineIndex.position (index : LineIndex) (offset : Nat) : Position :=
  let offset := min offset index.size
  let (line, start) := (index.lineOf? offset).getD (0, 0)
  let column :=
    match slice? index.source start offset with
    | some text => units text
    | none => offset - start
  ⟨line + 1, column, offset⟩

def LineIndex.span (index : LineIndex) (start stop : Nat) : Span :=
  ⟨index.position start, index.position stop⟩

end MessageCatalog.Text
