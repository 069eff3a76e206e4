/-
Decoding the mappings of a source map. The text is checked as a whole first: only base-64 digits and
separators, numbers of at most seven digits, none cut short. Then segments are read one by one, and
every source and name they refer to must exist.
-/
import MessageCatalog.SourceMap.Basic
import MessageCatalog.SourceMap.Vlq

namespace MessageCatalog

/-! ## Errors -/

inductive SourceMapError where
  | truncatedNumber
  | numberOutOfRange
  | invalidDigit (c : Char)
  | unsupportedVersion (version : Nat)
  | segmentSize (size : Nat)
  | unknownSource (previous : Nat)
  | unknownName (name : Nat)
  deriving DecidableEq, Repr

def SourceMapError.message : SourceMapError → String
  | .truncatedNumber => "truncated VLQ value"
  | .numberOutOfRange => "VLQ value out of range"
  | .invalidDigit c => "invalid base64 `" ++ c.toString ++ "`"
  | .unsupportedVersion v =>
    "JSON parsing error: unsupported source map version: " ++ toString v ++ " at line 1 column " ++
      toString (11 + (toString v).length)
  | .segmentSize n => "Mapping segment had an unsupported size of " ++ toString n
  | .unknownSource n => "Reference to non-existing source at position " ++ toString n
  | .unknownName n => "Reference to non-existing name at position " ++ toString n

/-! ## The check of the text -/

/-- Digits with the continuation bit that a number may have. -/
def maxContinued : Nat := 6

/-- Checks a text after `run` digits with the continuation bit. -/
def checkMappings (run : Nat) : List Char → Except SourceMapError Unit
  | [] => if run = 0 then .ok () else .error .truncatedNumber
  | c :: rest =>
    if c = ';' ∨ c = ',' then
      if run = 0 then checkMappings 0 rest else .error .truncatedNumber
    else
      match Vlq.digitValue? c with
      | none => .error (.invalidDigit c)
      | some d =>
        if d < 32 then checkMappings 0 rest
        else if maxContinued ≤ run then .error .numberOutOfRange
        else checkMappings (run + 1) rest

/-! ## Reading segments -/

/-- The numbers that the differences are added to. -/
structure DecodeState where
  column : Nat
  source : Nat
  line : Nat
  originColumn : Nat
  name : Nat
  deriving Repr

/-- Positions and indices are words of 32 bits. -/
def word (n : Int) : Nat := (n % 4294967296).toNat

/-- A position moved by a difference; a negative one makes the segment unusable. -/
def moved (position : Nat) (delta : Int) : Except SourceMapError Nat :=
  let n := (position : Int) + delta
  if n < 0 then .error (.segmentSize 0) else .ok (word n)

/-- The numbers of a segment with an origin, which has to be in a source of the map. -/
def readOrigin (map : SourceMap) (st : DecodeState) (column source line originColumn : Int) :
    Except SourceMapError DecodeState := do
  let c ← moved st.column column
  let s := (st.source : Int) + source
  if s < 0 ∨ (map.sources.length : Int) ≤ s then throw (.unknownSource st.source)
  let l ← moved st.line line
  let oc ← moved st.originColumn originColumn
  return { st with column := c, source := word s, line := l, originColumn := oc }

/-- One segment on a line, given its numbers. -/
def readSegment (map : SourceMap) (line : Nat) (st : DecodeState) (numbers : List Int) :
    Except SourceMapError (Segment × DecodeState) :=
  match numbers with
  | [column] => do
    let c ← moved st.column column
    return (⟨line, c, none⟩, { st with column := c })
  | [column, source, oLine, oColumn] => do
    let st ← readOrigin map st column source oLine oColumn
    return (⟨line, st.column, some ⟨st.source, st.line, st.originColumn, none⟩⟩, st)
  | [column, source, oLine, oColumn, name] => do
    let st ← readOrigin map st column source oLine oColumn
    let n := word (st.name + name)
    if map.names.length ≤ n then throw (.unknownName n)
    return (⟨line, st.column, some ⟨st.source, st.line, st.originColumn, some n⟩⟩,
      { st with name := n })
  | _ => .error (.segmentSize numbers.length)

/-- The segments of one line; empty ones are skipped. -/
def readLine (map : SourceMap) (line : Nat) (st : DecodeState) :
    List (List Char) → Except SourceMapError (List Segment × DecodeState)
  | [] => .ok ([], st)
  | text :: rest =>
    if text = [] then readLine map line st rest
    else do
      let (segment, st) ← readSegment map line st ((Vlq.decode? text).getD [])
      let (segments, st) ← readLine map line st rest
      return (segment :: segments, st)

/-- The segments of the lines from number `line` on; every line starts at column 0. -/
def readLines (map : SourceMap) (line : Nat) (st : DecodeState) :
    List (List Char) → Except SourceMapError (List Segment)
  | [] => .ok []
  | text :: rest => do
    let (segments, st) ← readLine map line { st with column := 0 } (text.splitOn ',')
    let others ← readLines map (line + 1) st rest
    return segments ++ others

def SourceMap.decode (map : SourceMap) : Except SourceMapError (List Segment) := do
  let text := map.mappings.toList
  checkMappings 0 text
  if map.version ≠ 3 then throw (.unsupportedVersion map.version)
  readLines map 0 ⟨0, 0, 0, 0, 0⟩ (text.splitOn ';')

end MessageCatalog
