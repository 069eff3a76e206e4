/-
A cursor over YAML text: what is left of it, the mark of the next character, and how far the text
has been looked at. The end of the text reads as the character zero, and that character ends the
text.
-/
import MessageCatalog.Text.CharClass
import MessageCatalog.Text.Measure

namespace MessageCatalog.Yaml

open MessageCatalog.Text

/-! ## Characters -/

def endOfText : Char := '\x00'

def isBreak (c : Char) : Bool := c = '\n' || c = '\r'

def isSpace (c : Char) : Bool := c = ' ' || c = '\t'

def isLineEnd (c : Char) : Bool := isBreak c || c = endOfText

def isGap (c : Char) : Bool := isSpace c || isLineEnd c

/-- The indicators that structure a flow collection. -/
def isFlowIndicator (c : Char) : Bool := [',', '[', ']', '\x7b', '\x7d'].contains c

def isNameChar (c : Char) : Bool :=
  isAsciiDigit c || ('a' ≤ c && c ≤ 'z') || ('A' ≤ c && c ≤ 'Z') || c = '_' || c = '-'

def isAnchorChar (c : Char) : Bool :=
  !isGap c && !isFlowIndicator c && c.toNat ≠ 0xFEFF

def isUriChar (c : Char) : Bool := isNameChar c || "#;/?:@&=+$,_.!~*'()[]%".toList.contains c

def isTagChar (c : Char) : Bool := isUriChar c && !isFlowIndicator c && c ≠ '!'

/-! ## Cursors -/

/-- A place of the text: characters before it, lines before it, characters before it on its line. -/
structure Mark where
  index : Nat
  line : Nat
  column : Nat
  deriving DecidableEq, Repr, Inhabited

def Mark.start : Mark := ⟨0, 0, 0⟩

structure Cursor where
  rest : List Char
  mark : Mark
  /-- The number of next characters that have been looked at. -/
  ahead : Nat
  /-- Only blanks so far on this line. -/
  leading : Bool
  deriving Repr, Inhabited

namespace Cursor

def ofText (text : List Char) : Cursor := ⟨text, .start, 0, true⟩

/-- The next character but `n`. -/
def charAt (c : Cursor) (n : Nat) : Char := c.rest.getD n endOfText

def char (c : Cursor) : Char := c.charAt 0

/-- Looks at the next `n` characters. -/
def look (n : Nat) (c : Cursor) : Cursor := { c with ahead := max c.ahead n }

/-- Past the next `n` characters, none of which ends a line or is content. -/
def skipBlanks (n : Nat) (c : Cursor) : Cursor :=
  { c with
    rest := c.rest.drop n
    mark := { c.mark with index := c.mark.index + n, column := c.mark.column + n }
    ahead := c.ahead - n }

/-- Past the next `n` characters of content. -/
def skip (n : Nat) (c : Cursor) : Cursor :=
  if n = 0 then c else { c.skipBlanks n with leading := false }

/-- Past the characters of content that satisfy a condition, and one look further. -/
def skipWhile (p : Char → Bool) (c : Cursor) : Cursor :=
  (c.skip (c.rest.takeWhile p).length).look 1

/-- Past a line break, if there is one; a carriage return with a line feed is one break. -/
def skipBreak (c : Cursor) : Cursor :=
  let width :=
    match c.rest with
    | '\r' :: '\n' :: _ => 2
    | a :: _ => if isBreak a then 1 else 0
    | [] => 0
  if width = 0 then c
  else
    { rest := c.rest.drop width
      mark := ⟨c.mark.index + width, c.mark.line + 1, 0⟩
      ahead := c.ahead - width
      leading := true }

/-- Three equal characters and a gap. -/
def isIndicator (indicator : Char) (c : Cursor) : Bool :=
  c.charAt 0 = indicator && c.charAt 1 = indicator && c.charAt 2 = indicator && isGap (c.charAt 3)

/-- A document starts or ends at the cursor. -/
def atDocumentIndicator (c : Cursor) : Bool :=
  c.mark.column = 0 && (c.isIndicator '-' || c.isIndicator '.')

end Cursor

/-! ## Lexers -/

/-- A step over the text; a fault is the index of the character it is found at. -/
abbrev Lexer (α : Type) := StateT Cursor (Except Nat) α

namespace Lexer

def char : Lexer Char := return (← get).char

def charAt (n : Nat) : Lexer Char := return (← get).charAt n

def mark : Lexer Mark := return (← get).mark

def faultAt {α : Type} (mark : Mark) : Lexer α := throw mark.index

def fault {α : Type} : Lexer α := do throw (← mark).index

def look (n : Nat) : Lexer Unit := modify (·.look n)

def skip (n : Nat) : Lexer Unit := modify (·.skip n)

def skipBlank : Lexer Unit := modify (·.skipBlanks 1)

def skipBreak : Lexer Unit := modify fun c => (c.look 2).skipBreak

/-- Takes the characters of content that satisfy a condition. -/
def takeWhile (p : Char → Bool) : Lexer (List Char) := do
  let text := (← get).rest.takeWhile p
  modify (·.skipWhile p)
  return text

/-- Repeats a body while it says so; the fuel is the most rounds there can be. -/
def repeatWhile {α : Type} (body : α → Lexer (α × Bool)) : Nat → α → Lexer α
  | 0, a => return a
  | fuel + 1, a => do
    let (a, again) ← body a
    if again then repeatWhile body fuel a else return a

/-- Repeats a body that passes at least one character in every round but the last. -/
def loop {α : Type} (start : α) (body : α → Lexer (α × Bool)) : Lexer α := do
  repeatWhile body ((← get).rest.length + 1) start

/-- What stands between two things on a line. -/
structure Separation where
  tab : Bool
  space : Bool

/-- Skips spaces and a comment up to the end of the line; a comment needs a blank in front of it. -/
def separation (tabs : Bool) : Lexer Separation :=
  loop ⟨false, false⟩ fun found => do
    look 1
    let c ← char
    if c = ' ' then
      skipBlank
      return (⟨found.tab, true⟩, true)
    else if c = '\t' && tabs then
      skipBlank
      return (⟨true, found.space⟩, true)
    else if c = '#' then
      if !found.tab && !found.space then fault
      modify (·.skipWhile (!isLineEnd ·))
      return (found, true)
    else return (found, false)

end Lexer

end MessageCatalog.Yaml
