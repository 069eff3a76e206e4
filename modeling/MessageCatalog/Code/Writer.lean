/-
Writing generated code. The writer appends text, keeps the line and the column of its end, indents
new lines by two spaces a level, and records where a stretch of code comes from when it keeps a map.
-/
import MessageCatalog.SourceMap.Builder
import MessageCatalog.Text.Position

namespace MessageCatalog.Code

open MessageCatalog.Text

/-- The line and column behind a text that starts at a line and column, both counting from 0. -/
def advance (place : Nat × Nat) : List Char → Nat × Nat
  | [] => place
  | c :: cs => advance (if c = '\n' then (place.1 + 1, 0) else (place.1, place.2 + unitsOf c)) cs

/-- The written code, the place of its end, and the map with the number of its one source. -/
structure Writer where
  code : String
  line : Nat
  column : Nat
  level : Nat
  map : Option (SourceMapBuilder × Nat)
  deriving Inhabited

namespace Writer

/-- A writer without code; with a map its one source is the named file. -/
def new (source filename : String) (sourceMap : Bool) : Writer where
  code := ""
  line := 0
  column := 0
  level := 0
  map :=
    if sourceMap then
      let (id, b) := (SourceMapBuilder.new none).addSource filename
      some (b.setContent id source, id)
    else none

def push (w : Writer) (code : String) : Writer :=
  let place := advance (w.line, w.column) code.toList
  { w with code := w.code ++ code, line := place.1, column := place.2 }

/-- Writes code that comes from a position, under a name if it has one. -/
def pushMapped (w : Writer) (code : String) (origin : Position) (name : Option String) : Writer :=
  let map := w.map.map fun (b, id) =>
    (b.addMapping w.line w.column id (origin.line - 1) origin.column name, id)
  { w with map }.push code

/-- The blanks at the start of a line. -/
def indentation (level : Nat) : String := String.ofList (List.replicate (2 * level) ' ')

def newline (w : Writer) : Writer := (w.push "\n").push (indentation w.level)

def pushLine (w : Writer) (code : String) : Writer := (w.push code).newline

def indent (w : Writer) : Writer := { w with level := w.level + 1 }.newline

/-- One level out; the outermost level stays. -/
def deindent (w : Writer) : Writer := { w with level := w.level - 1 }.newline

def finish (w : Writer) : String × Option SourceMap := (w.code, w.map.map fun (b, _) => b.build)

end Writer

end MessageCatalog.Code
