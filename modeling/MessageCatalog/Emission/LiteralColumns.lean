/-
Columns inside a quoted token. A compiled message knows places in the decoded literal; the token in
the source text may hold escapes. For a token on one line this finds, for every place of the
literal, the column of the raw character or escape that it comes from.
-/
import MessageCatalog.SourceMap.Builder
import MessageCatalog.SourceMap.Decode
import MessageCatalog.Text.Measure

namespace MessageCatalog.Emission

open MessageCatalog.Text

/-! ## One character -/

/-- How many bytes of the raw text decode to the character `c`, by the look of the raw text. -/
def rawLength? (raw : List Char) (quote c : Char) : Option Nat :=
  match raw with
  | [] => none
  | '\\' :: escaped =>
    match escaped with
    | [] => none
    | 'u' :: '\x7b' :: body =>
      if body.contains '\x7d' then some (3 + byteLength (body.takeWhile (· ≠ '\x7d')) + 1) else none
    | 'u' :: _ =>
      if 0xFFFF < c.toNat then
        -- a surrogate pair is two escapes
        match cut? 6 raw with
        | some (_, tail) => if "\\u".toList.isPrefixOf tail then some 12 else some 6
        | none => none
      else some 6
    | 'x' :: _ => some 4
    | 'U' :: _ => some 10
    | other :: _ => some (1 + other.utf8Size)
  | first :: rest =>
    if first = '\'' ∧ quote = '\'' ∧ c = '\'' ∧ rest.head? = some '\'' then some 2
    else if first = c then some first.utf8Size
    else none

/-- The raw text of the character `c`, and the rest. -/
def splitRaw? (raw : List Char) (quote c : Char) : Option (List Char × List Char) := do
  let length ← rawLength? raw quote c
  cut? length raw

/-! ## The whole literal -/

/-- Places of the literal, as line and column, with their columns in the raw text. -/
abbrev ColumnTable := List ((Nat × Nat) × Nat)

/-- The table for what is left of the literal and of the raw text. -/
def columnsFrom (quote : Char) (place : Nat × Nat) (column : Nat) (raw : List Char) :
    List Char → Option ColumnTable
  | [] => if raw = [] then some [(place, column)] else none
  | c :: literal => do
    let (head, tail) ← splitRaw? raw quote c
    let next := if c = '\n' then (place.1 + 1, 0) else (place.1, place.2 + unitsOf c)
    let rest ← columnsFrom quote next (column + units head) tail literal
    return (place, column) :: rest

/-- The table of a token that stands between quotes on one line and decodes to the literal. -/
def literalColumns? (raw literal : List Char) : Option ColumnTable :=
  match raw with
  | [] => none
  | quote :: body =>
    if (quote = '"' ∨ quote = '\'') ∧ body.getLast? = some quote ∧ ¬ body.contains '\n' then
      columnsFrom quote (0, 0) 0 body.dropLast literal
    else none

/-! ## Fragment maps -/

/-- A fragment's segments with their origins moved into the raw token, which is on one line. -/
def rebaseFragment? (map : SourceMap) (columns : ColumnTable) : Option SourceMap := do
  let segments ← map.decode.toOption
  let start := map.sources.foldl (fun b s => (b.addSource s).2) (SourceMapBuilder.new map.file)
  let b ← segments.foldlM (fun b s =>
    match s.origin with
    | none => some b
    | some o => do
      let column ← columns.lookup (o.line, o.column)
      return b.addMapping s.line s.column o.source 0 column (o.name.bind map.name?)) start
  return b.build

end MessageCatalog.Emission
