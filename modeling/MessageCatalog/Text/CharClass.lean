/-
Character classes of the notations read here: blanks, alphanumerics, word characters, and the
characters that start and continue an identifier of a script. All follow the character database;
below U+0080 each is decided without a table.
-/
import MessageCatalog.Text.LetterTable
import MessageCatalog.Text.MarkTable

namespace MessageCatalog.Text

/-- The code point lies in one of the closed ranges. -/
def inRanges (ranges : List (Nat × Nat)) (c : Char) : Bool :=
  ranges.any fun (low, high) => low ≤ c.toNat && c.toNat ≤ high

/-! ## Blanks -/

/-- The `White_Space` property; the byte order mark is not in it. -/
def blankRanges : List (Nat × Nat) := [
    (0x9, 0xD), (0x20, 0x20), (0x85, 0x85), (0xA0, 0xA0), (0x1680, 0x1680), (0x2000, 0x200A),
    (0x2028, 0x2029), (0x202F, 0x202F), (0x205F, 0x205F), (0x3000, 0x3000)]

def isBlank (c : Char) : Bool := inRanges blankRanges c

def trimStart (cs : List Char) : List Char := cs.dropWhile isBlank

def trimEnd (cs : List Char) : List Char := (cs.reverse.dropWhile isBlank).reverse

def trim (cs : List Char) : List Char := trimEnd (trimStart cs)

/-! ## Letters and digits -/

def isAsciiAlpha (c : Char) : Bool :=
  ('a' ≤ c && c ≤ 'z') || ('A' ≤ c && c ≤ 'Z')

def isAsciiDigit (c : Char) : Bool := '0' ≤ c && c ≤ '9'

def isHexDigit (c : Char) : Bool :=
  isAsciiDigit c || ('a' ≤ c && c ≤ 'f') || ('A' ≤ c && c ≤ 'F')

/-- The value of a hexadecimal digit; of another character, zero. -/
def hexValue (c : Char) : Nat :=
  if isAsciiDigit c then c.toNat - 48
  else if 'a' ≤ c && c ≤ 'f' then c.toNat - 87
  else if 'A' ≤ c && c ≤ 'F' then c.toNat - 55
  else 0

/-- The number that a digit string denotes in a base. -/
def digitsValue (base : Nat) (cs : List Char) : Nat :=
  cs.foldl (fun n c => n * base + hexValue c) 0

def isLetter (c : Char) : Bool :=
  if c.toNat < 128 then isAsciiAlpha c else inRanges letterRanges c

def isAlphabetic (c : Char) : Bool :=
  isLetter c || (128 ≤ c.toNat && inRanges otherAlphabeticRanges c)

def isMark (c : Char) : Bool := 128 ≤ c.toNat && inRanges markRanges c

def isDecimalDigit (c : Char) : Bool :=
  if c.toNat < 128 then isAsciiDigit c else inRanges decimalDigitRanges c

/-- Alphabetic, or of one of the number categories. -/
def isAlphanumeric (c : Char) : Bool :=
  isAlphabetic c || isDecimalDigit c || (128 ≤ c.toNat && inRanges otherNumberRanges c)

def isConnector (c : Char) : Bool :=
  inRanges [(0x5F, 0x5F), (0x203F, 0x2040), (0x2054, 0x2054), (0xFE33, 0xFE34),
    (0xFE4D, 0xFE4F), (0xFF3F, 0xFF3F)] c

def isEnclosingMark (c : Char) : Bool :=
  inRanges [(0x488, 0x489), (0x1ABE, 0x1ABE), (0x20DD, 0x20E0), (0x20E2, 0x20E4),
    (0xA670, 0xA672)] c

/-- A word character: alphabetic, a mark, a decimal digit, a connector or a join control. -/
def isWord (c : Char) : Bool :=
  isAlphabetic c || isMark c || isEnclosingMark c || isDecimalDigit c || isConnector c ||
    c.toNat = 0x200C || c.toNat = 0x200D

/-! ## Identifiers of scripts -/

/-- A character that starts an identifier: `$`, `_` and the `ID_Start` property. -/
def isIdentifierStart (c : Char) : Bool :=
  c = '$' || c = '_' || (isLetter c && c.toNat ≠ 0x2E2F) ||
    inRanges [(0x1885, 0x1886), (0x2118, 0x2118), (0x212E, 0x212E), (0x309B, 0x309C)] c

/-- A character that continues an identifier: `$`, join controls and the `ID_Continue` property. -/
def isIdentifierPart (c : Char) : Bool :=
  isIdentifierStart c || isDecimalDigit c || isMark c || isConnector c ||
    c.toNat = 0x200C || c.toNat = 0x200D ||
    inRanges [(0xB7, 0xB7), (0x387, 0x387), (0x1369, 0x1371), (0x19DA, 0x19DA), (0x30FB, 0x30FB),
      (0xFF65, 0xFF65)] c

end MessageCatalog.Text
