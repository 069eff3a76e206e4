/-
Rendering an error with an excerpt of the source text: a title, the place, the lines of the span
with their numbers, the span underlined, and a label behind the underline. A span of several lines
has a bar along its lines; of a long one the lines in the middle are left out.
-/
import MessageCatalog.Error
import MessageCatalog.Text.Width

namespace MessageCatalog.Excerpt

open MessageCatalog.Text

/-! ## Lines -/

/-- A line of the source: its text without the line end, and the bytes it takes up. -/
structure Line where
  text : List Char
  start : Nat
  /-- Behind the line end. -/
  stop : Nat
  endSize : Nat
  deriving Repr, Inhabited

/-- The line whose characters are `cs`, which may end in a carriage return before the line feed. -/
def Line.ofText (start : Nat) (cs : List Char) (ended : Bool) : Line :=
  if ended then
    if cs.getLast? = some '\r' then
      ⟨cs.dropLast, start, start + byteLength cs + 1, 2⟩
    else ⟨cs, start, start + byteLength cs + 1, 1⟩
  else ⟨cs, start, start + byteLength cs, 0⟩

/-- The lines of what is between line feeds; nothing behind the last one is no line. -/
def linesFrom (start : Nat) : List (List Char) → List Line
  | [] => []
  | [last] => if last = [] then [] else [.ofText start last false]
  | cs :: rest => .ofText start cs true :: linesFrom (start + byteLength cs + 1) rest

/-- The lines of a text; a text without any has one empty line. -/
def linesOf (source : List Char) : Array Line :=
  match linesFrom 0 (source.splitOn '\n') with
  | [] => #[⟨[], 0, 0, 0⟩]
  | lines => lines.toArray

/-! ## Display -/

/-- Characters that would disturb a line are shown as others. -/
def shown (c : Char) : List Char :=
  if c = '\t' then [' ', ' ', ' ', ' ']
  else if c.toNat < 0x20 then [Char.ofNat (0x2400 + c.toNat)]
  else if c.toNat = 0x7F then ['\u2421']
  else if c.toNat = 0x200D then []
  else if inRanges [(0x202A, 0x202E), (0x2066, 0x2069)] c then ['\ufffd']
  else [c]

def showLine (cs : List Char) : String := String.ofList (cs.flatMap shown)

/-- The columns that a character takes up when shown. -/
def shownWidth (c : Char) : Nat :=
  if c = '\t' then 4
  else if inRanges [(0x202A, 0x202E), (0x2066, 0x2069)] c then 1
  else charWidth c

def shownWidths : List Char → Nat
  | [] => 0
  | c :: cs => shownWidth c + shownWidths cs

/-! ## Places -/

/-- A place by the index of its line, characters from its start, and columns when shown. -/
structure Place where
  line : Nat
  char : Nat
  display : Nat
  deriving Repr

/-- The line that a byte is on; a byte behind all lines is on the last one. -/
def lineAt (lines : Array Line) (byte : Nat) : Nat :=
  (lines.findIdx? fun l => l.start ≤ byte && byte < l.stop).getD (lines.size - 1)

/-- The longest beginning of a text within a number of bytes. -/
def takeBytes : Nat → List Char → List Char
  | _, [] => []
  | n, c :: cs => if c.utf8Size ≤ n then c :: takeBytes (n - c.utf8Size) cs else []

def startPlace (lines : Array Line) (byte : Nat) : Place :=
  let i := lineAt lines byte
  let line := lines.getD i default
  let before := takeBytes (byte - line.start) line.text
  let behindText := byteLength line.text < byte - line.start
  ⟨i, before.length + (if behindText then 1 else 0), shownWidths before⟩

/-- The end of a span; on another line than its start, a line end within the span counts. -/
def stopPlace (lines : Array Line) (start : Place) (byte : Nat) : Place :=
  let i := lineAt lines byte
  let line := lines.getD i default
  let before := takeBytes (byte - line.start) line.text
  let more := if start.line ≠ i ∧ line.stop - line.endSize < byte then 1 else 0
  ⟨i, before.length + more, shownWidths before + more⟩

/-! ## Rows -/

structure Frame where
  lines : Array Line
  /-- The width of the line numbers. -/
  width : Nat

def blanks (n : Nat) : String := String.ofList (List.replicate n ' ')

def repeated (c : Char) (n : Nat) : String := String.ofList (List.replicate n c)

/-- What stands in front of a row without a number. -/
def Frame.gutter (f : Frame) : String := blanks f.width ++ " |"

/-- A row of source behind the number of its line; no blank is left at the end of an empty row. -/
def Frame.sourceRow (f : Frame) (line : Nat) (bar : String) : String :=
  let number := toString (line + 1)
  let text := showLine (f.lines.getD line default).text
  let row := number ++ blanks (f.width - number.length) ++ " |"
  if bar = "" then (if text = "" then row else row ++ " " ++ text)
  else row ++ " " ++ bar ++ (if text = "" then "" else " " ++ text)

def labelled (row label : String) : String := if label = "" then row else row ++ " " ++ label

/-- The rows of a span on one line. -/
def Frame.singleLine (f : Frame) (start stop : Place) (label : String) : List String :=
  [f.sourceRow start.line "",
    labelled (f.gutter ++ " " ++ blanks start.display ++
      repeated '^' (max 1 (stop.display - start.display))) label]

/-- Lines that say nothing: blank, a comment, or one bracket. -/
def isIdleLine (cs : List Char) : Bool :=
  let s := trim cs
  ("//".toList.isPrefixOf s && !("///".toList.isPrefixOf s || "//!".toList.isPrefixOf s)) ||
    [[], ['\x7b'], ['\x7d'], ['('], [')'], ['['], [']']].contains s

/-- The lines of a span that are shown between its first and its last one. -/
def middleLines (lines : Array Line) (first last : Nat) : List Nat :=
  let text (i : Nat) : List Char := (lines.getD i default).text
  let middle := min (first + 4) last
  let candidates := (List.range (middle - first)).map (first + ·)
  let limit := ((candidates.filter fun i => !isIdleLine (text i)).getLast?.map (· + 1)).getD first
  let near := (List.range (limit - (first + 1))).map (first + 1 + ·)
  let before := last - 1
  near ++ (if middle < before ∧ ¬ isIdleLine (text before) then [before] else [])

/-- The rows from the line after `previous` on to the listed lines; long gaps are left out. -/
def Frame.barredRows (f : Frame) (previous : Nat) : List Nat → List String
  | [] => []
  | line :: rest =>
    let gap :=
      if previous + 2 < line then ["..." ++ blanks f.width ++ "|"]
      else if previous + 2 = line then [f.sourceRow (previous + 1) "|"]
      else []
    gap ++ f.sourceRow line "|" :: f.barredRows line rest

/-- The rows of a span of several lines. -/
def Frame.multiLine (f : Frame) (start stop : Place) (label : String) : List String :=
  let first := (f.lines.getD start.line default).text
  let head :=
    if (first.take start.char).all isBlank then [f.sourceRow start.line "/"]
    else [f.sourceRow start.line " ",
      f.gutter ++ "  " ++ repeated '_' (start.display + 1) ++ "^"]
  let rows := f.barredRows start.line (middleLines f.lines start.line stop.line ++ [stop.line])
  let tail := labelled (f.gutter ++ " |" ++ repeated '_' (stop.display - 1 + 1) ++ "^") label
  head ++ rows ++ [tail]

/-! ## Errors -/

/-- What is said behind the underline. -/
def labelOf : CompileError → String
  | .malformed _ m _ | .unsupportedShape _ m _ | .message _ m _ => m
  | _ => ""

/-- The number of the last line that counts for the width of the numbers. -/
def lastNumber (source : List Char) (stop : Nat) : Nat :=
  1 + ((linesFrom 0 ((takeBytes stop source).splitOn '\n')).length - 1)

/-- The error over its source text; without a span it is its text alone. -/
def render (error : CompileError) (source : String) : String :=
  match error.span with
  | none => error.text
  | some span =>
    let cs := source.toList
    let size := byteLength cs
    let start := min span.start.offset size
    let stop := max (min span.stop.offset size) start
    let lines := linesOf cs
    let opening := startPlace lines start
    let closing := if start = stop then opening else stopPlace lines opening stop
    let f : Frame := ⟨lines, (toString (lastNumber cs stop)).length⟩
    let rows :=
      if opening.line = closing.line then f.singleLine opening closing (labelOf error)
      else f.multiLine opening closing (labelOf error)
    let place := blanks f.width ++ "--> " ++ error.filename ++ ":" ++ toString (opening.line + 1) ++
      ":" ++ toString (opening.char + 1)
    "\n".intercalate (["error: " ++ error.text, place, f.gutter] ++ rows)

end MessageCatalog.Excerpt
