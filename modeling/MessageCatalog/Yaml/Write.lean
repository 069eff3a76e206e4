/-
Writing YAML in block style. A string is plain where that reads back as the string; otherwise it is
put between quotes, or into a literal block if it has more than one line. Lines have any length.
-/
import MessageCatalog.Json.Write
import MessageCatalog.Number.Decimal
import MessageCatalog.Text.CharClass
import MessageCatalog.Text.Measure

namespace MessageCatalog.Yaml

open MessageCatalog.Text

/-! ## Strings that read as something else -/

/-- Digits of a base behind a prefix, for a number within 128 bits. -/
def isPrefixedWhole (text : List Char) : Bool :=
  let inBase (base : Nat) (isDigit : Char → Bool) (digits : List Char) : Bool :=
    digits ≠ [] && digits.all isDigit && digitsValue base digits < Nat.pow 2 128
  match text with
  | '0' :: 'x' :: digits => inBase 16 isHexDigit digits
  | '0' :: 'o' :: digits => inBase 8 (fun c => '0' ≤ c && c ≤ '7') digits
  | '0' :: 'b' :: digits => inBase 2 (fun c => c = '0' || c = '1') digits
  | _ => false

/-- The same behind a minus sign, within a signed number of 128 bits. -/
def isNegativePrefixedWhole (text : List Char) : Bool :=
  match text with
  | '-' :: '0' :: c :: digits =>
    let base := if c = 'x' then 16 else if c = 'o' then 8 else 2
    isPrefixedWhole ('0' :: c :: digits) && digitsValue base digits ≤ Nat.pow 2 127
  | _ => false

/-- A number with zeros in front, which some readers take for one. -/
def isZeroPadded (text : List Char) : Bool :=
  match (Double.splitSign text).2 with
  | '0' :: c :: rest => (c :: rest).all isAsciiDigit
  | _ => false

def isFiniteNumber (text : List Char) : Bool :=
  match Double.read? text with
  | some (.finite ..) => true
  | _ => false

/-- The words for null, the booleans and the numbers that are not finite. -/
def reservedWords : List String :=
  ["", "~", "null", "Null", "NULL", "true", "True", "TRUE", "false", "False", "FALSE",
    ".inf", ".Inf", ".INF", "+.inf", "+.Inf", "+.INF", "-.inf", "-.Inf", "-.INF",
    ".nan", ".NaN", ".NAN"]

/-- Whether a plain string reads back as another value. -/
def isAmbiguous (text : String) : Bool :=
  let cs := text.toList
  let unsigned :=
    match cs with
    | '+' :: rest => rest
    | _ => cs
  reservedWords.contains text || isPrefixedWhole unsigned || isNegativePrefixedWhole cs ||
    isZeroPadded cs || isFiniteNumber cs

/-! ## Styles -/

def isWrittenBreak (c : Char) : Bool :=
  c = '\n' || c = '\r' || c.toNat = 0x85 || c.toNat = 0x2028 || c.toNat = 0x2029

def isPrintable (c : Char) : Bool :=
  let n := c.toNat
  n = 0x0A || (0x20 ≤ n && n ≤ 0x7E) || (0xA0 ≤ n && n ≤ 0xFFFD && n ≠ 0xFEFF) || 0x10000 ≤ n

/-- Whether the text goes on with a blank, or ends. -/
def startsBlank : List Char → Bool
  | [] => true
  | c :: _ => c = ' ' || c = '\t' || c = '\x00' || isWrittenBreak c

/-- Whether two neighbours satisfy two conditions. -/
def hasNeighbours (p q : Char → Bool) : List Char → Bool
  | a :: b :: rest => (p a && q b) || hasNeighbours p q (b :: rest)
  | _ => false

/-- Whether a colon in front of a blank, or a number sign behind one, is in the text. -/
def hasInnerIndicator : List Char → Bool
  | [] => false
  | c :: rest =>
    (c = ':' && startsBlank rest) || (startsBlank [c] && rest.head? = some '#') ||
      hasInnerIndicator rest

/-- Whether the first characters mean something to YAML. -/
def hasLeadingIndicator (text : List Char) : Bool :=
  match text with
  | [] => false
  | c :: rest =>
    "#,[]\x7b\x7d&*!|>'\"%@".toList.contains c || c.toNat = 0x60 ||
      ((c = '?' || c = '-') && startsBlank rest) ||
      ['-', '-', '-'].isPrefixOf text || ['.', '.', '.'].isPrefixOf text

def isBlankEdge (c : Option Char) : Bool :=
  match c with
  | some c => c = ' ' || isWrittenBreak c
  | none => false

/-- All characters are printable, and no line ends in a space. -/
def isClean (text : List Char) : Bool :=
  text.all isPrintable && !hasNeighbours (· = ' ') isWrittenBreak text

def allowsPlain (text : List Char) : Bool :=
  isClean text && !isBlankEdge text.head? && !isBlankEdge text.getLast? &&
    !text.any isWrittenBreak && !hasLeadingIndicator text && !hasInnerIndicator text

def allowsSingleQuotes (text : List Char) : Bool :=
  isClean text && !hasNeighbours isWrittenBreak (· = ' ') text

def allowsLiteral (text : List Char) : Bool := isClean text && text.getLast? ≠ some ' '

inductive WrittenStyle where
  | plain
  | singleQuoted
  | doubleQuoted
  | literal
  deriving DecidableEq, Repr

/-- The style of a string. -/
def styleOf (text : String) : WrittenStyle :=
  let cs := text.toList
  if cs.contains '\n' then if allowsLiteral cs then .literal else .doubleQuoted
  else if !isAmbiguous text && allowsPlain cs then .plain
  else if allowsSingleQuotes cs then .singleQuoted
  else .doubleQuoted

/-! ## Strings -/

def pad (indent : Nat) : List Char := List.replicate indent ' '

/-- Text whose lines are indented; a line is indented once its first character is there. -/
def indented (indent : Nat) : Bool → List Char → List Char
  | _, [] => []
  | fresh, c :: rest =>
    if isWrittenBreak c then c :: indented indent true rest
    else if fresh then pad indent ++ c :: indented indent false rest
    else c :: indented indent false rest

def endsLine (text : List Char) : Bool := text.getLast?.any isWrittenBreak

def singleQuoted (indent : Nat) (text : List Char) : List Char :=
  let body := text.flatMap fun c => if c = '\'' then ['\'', '\''] else [c]
  '\'' :: indented indent false body ++ (if endsLine text then pad indent else []) ++ ['\'']

def upperHexDigit (n : Nat) : Char := (Json.hexDigit n).toUpper

/-- The last digits of a number in base sixteen. -/
def hexDigits : Nat → Nat → List Char
  | 0, _ => []
  | count + 1, n => hexDigits count (n / 16) ++ [upperHexDigit n]

/-- What stands for a character behind a backslash. -/
def escapeText (c : Char) : List Char :=
  match c.toNat with
  | 0x00 => ['0']
  | 0x07 => ['a']
  | 0x08 => ['b']
  | 0x09 => ['t']
  | 0x0A => ['n']
  | 0x0B => ['v']
  | 0x0C => ['f']
  | 0x0D => ['r']
  | 0x1B => ['e']
  | 0x22 => ['"']
  | 0x5C => ['\\']
  | 0x85 => ['N']
  | 0xA0 => ['_']
  | 0x2028 => ['L']
  | 0x2029 => ['P']
  | n =>
    if n ≤ 0xFF then 'x' :: hexDigits 2 n
    else if n ≤ 0xFFFF then 'u' :: hexDigits 4 n
    else 'U' :: hexDigits 8 n

def doubleQuoted (text : List Char) : List Char :=
  let body := text.flatMap fun c =>
    if !isPrintable c || isWrittenBreak c || c = '"' || c = '\\' then '\\' :: escapeText c else [c]
  '"' :: body ++ ['"']

/-- What the header of a literal says about its first and last lines. -/
def literalHints (text : List Char) : List Char :=
  let first := if isBlankEdge text.head? then ['2'] else []
  let last :=
    match text.reverse with
    | [] => ['-']
    | [c] => if isWrittenBreak c then ['+'] else ['-']
    | c :: d :: _ =>
      if !isWrittenBreak c then ['-'] else if isWrittenBreak d then ['+'] else []
  first ++ last

/-- A string whose lines after the first are indented. -/
def stringText (indent : Nat) (text : String) : List Char :=
  let cs := text.toList
  match styleOf text with
  | .plain => cs
  | .singleQuoted => singleQuoted indent cs
  | .doubleQuoted => doubleQuoted cs
  | .literal => '|' :: literalHints cs ++ '\n' :: indented indent true cs

/-! ## Values -/

/-- Numbers have a point or an exponent, whose plus sign is left out. -/
def numberLayout : Double.Layout where
  positional := some (-4, 16)
  wholeFraction := true
  plusSign := false
  tie := .even

def numberText : JsonNumber → String
  | .whole n => toString n
  | .double (.finite s x) => (if s then "-" else "") ++ numberLayout.magnitude x
  | .double (.infinite s) => if s then "-.inf" else ".inf"
  | .double .nan => ".nan"

/-- The bytes that a key may have in front of its colon. -/
def keyLimit : Nat := 128

def isSimpleKey (key : String) : Bool :=
  let cs := key.toList
  !cs.any isWrittenBreak && byteLength cs ≤ keyLimit

/-- Ends the line if it is not ended, and indents the next one. -/
def nextLine (indent : Nat) (text : List Char) : List Char :=
  text ++ (if endsLine text then [] else ['\n']) ++ pad indent

/-- Parts on lines of their own. -/
def onLines (indent : Nat) : List (List Char) → List Char
  | [] => []
  | [part] => part
  | part :: rest => nextLine indent part ++ onLines indent rest

/-- Where the items of a nested collection begin. -/
inductive Nesting where
  | none
  /-- On the next line, below the key. -/
  | level
  /-- On the next line, further in. -/
  | deeper

def nestingOf : Json → Nesting
  | .array (_ :: _) => .level
  | .object (_ :: _) => .deeper
  | _ => .none

mutual

/-- A value whose text starts on the current line; its further lines are indented. -/
def valueText (indent : Nat) : Json → List Char
  | .null => "null".toList
  | .bool b => if b then "true".toList else "false".toList
  | .number n => (numberText n).toList
  | .string s => stringText indent s
  | .array [] => ['[', ']']
  | .object [] => ['\x7b', '\x7d']
  | .array items => onLines indent (itemTexts indent items)
  | .object members => onLines indent (memberTexts indent members)

def itemTexts (indent : Nat) : List Json → List (List Char)
  | [] => []
  | item :: rest => ('-' :: ' ' :: valueText (indent + 2) item) :: itemTexts indent rest

def memberTexts (indent : Nat) : List (String × Json) → List (List Char)
  | [] => []
  | (key, value) :: rest =>
    let name := stringText (indent + 2) key
    let text :=
      if isSimpleKey key then
        match nestingOf value with
        | .none => name ++ ':' :: ' ' :: valueText (indent + 2) value
        | .level => nextLine indent (name ++ [':']) ++ valueText indent value
        | .deeper => nextLine (indent + 2) (name ++ [':']) ++ valueText (indent + 2) value
      else nextLine indent ('?' :: ' ' :: name) ++ ':' :: ' ' :: valueText (indent + 2) value
    text :: memberTexts indent rest

end

/-- The YAML text of a value. -/
def write (value : Json) : String :=
  let indent :=
    match nestingOf value with
    | .none => 2
    | _ => 0
  String.ofList (nextLine 0 (valueText indent value))

end MessageCatalog.Yaml
