/-
Escapes of strings and templates. A string's value is Unicode text; a surrogate that has no partner
is written as U+FFFD and its four hexadecimal digits, and in a text with such a surrogate U+FFFD
itself is written so too.
-/
import MessageCatalog.Json.Read
import MessageCatalog.Json.Write
import MessageCatalog.Text.CharClass

namespace MessageCatalog.Script

open MessageCatalog.Text

/-! ## Pieces of a value -/

/-- What one character or escape of a string stands for. -/
inductive CodeUnit where
  | char (c : Char)
  | loneSurrogate (code : Nat)
  deriving DecidableEq, Repr

def CodeUnit.isLone : CodeUnit → Bool
  | .loneSurrogate _ => true
  | .char _ => false

def replacement : Char := '\ufffd'

/-- Four hexadecimal digits in lower case. -/
def hex4 (n : Nat) : List Char :=
  [n / 4096, n / 256, n / 16, n].map Json.hexDigit

/-- The text of units, which mark lone surrogates if there are any. -/
def unitsText (us : List CodeUnit) : List Char :=
  let marked := us.any CodeUnit.isLone
  us.flatMap fun u =>
    match u with
    | .char c => if marked && c = replacement then replacement :: hex4 0xFFFD else [c]
    | .loneSurrogate n => replacement :: hex4 n

/-! ## Escapes -/

/-- An escape that was read: its units, or `none` if it is invalid, and the rest of the text. -/
structure EscapeRead where
  units : Option (List CodeUnit)
  rest : List Char

/-- The unit of a code point; surrogates are lone. -/
def unitOfCode (n : Nat) : CodeUnit :=
  if 0xD800 ≤ n ∧ n ≤ 0xDFFF then .loneSurrogate n else .char (Char.ofNat n)

/-- The escape behind `\u`: a code point in braces, four digits, or a surrogate pair. -/
def readUnicodeEscape (cs : List Char) : EscapeRead :=
  match cs with
  | '\x7b' :: body =>
    let digits := body.takeWhile isHexDigit
    match body.dropWhile isHexDigit with
    | '\x7d' :: rest =>
      let n := digitsValue 16 digits
      if digits ≠ [] ∧ n ≤ 0x10FFFF then ⟨some [unitOfCode n], rest⟩ else ⟨none, rest⟩
    | rest => ⟨none, rest⟩
  | _ =>
    match Json.readHex4? cs with
    | none => ⟨none, cs.drop ((cs.take 4).takeWhile isHexDigit).length⟩
    | some (n, rest) =>
      if Json.isHighSurrogate n then
        match rest with
        | '\\' :: 'u' :: tail =>
          match Json.readHex4? tail with
          | some (m, tail) =>
            if Json.isLowSurrogate m then ⟨some [.char (Json.joinSurrogates n m)], tail⟩
            else ⟨some [.loneSurrogate n], rest⟩
          | none => ⟨some [.loneSurrogate n], rest⟩
        | _ => ⟨some [.loneSurrogate n], rest⟩
      else ⟨some [unitOfCode n], rest⟩

def isOctalDigit (c : Char) : Bool := '0' ≤ c && c ≤ '7'

/-- An octal escape whose first digit is `d`: up to three digits, two if it starts above 3. -/
def readOctalEscape (d : Char) (cs : List Char) : EscapeRead :=
  let more := (cs.take (if d ≤ '3' then 2 else 1)).takeWhile isOctalDigit
  ⟨some [.char (Char.ofNat (digitsValue 8 (d :: more)))], cs.drop more.length⟩

def isLineEnd (c : Char) : Bool := c = '\n' || c = '\r' || c = '\u2028' || c = '\u2029'

/-- The escape behind a backslash. Templates know no octal escapes. -/
def readEscape (template : Bool) (cs : List Char) : EscapeRead :=
  match cs with
  | [] => ⟨none, []⟩
  | '\r' :: '\n' :: rest => ⟨some [], rest⟩
  | c :: rest =>
    if isLineEnd c then ⟨some [], rest⟩
    else match c with
    | 'b' => ⟨some [.char '\x08'], rest⟩
    | 't' => ⟨some [.char '\t'], rest⟩
    | 'n' => ⟨some [.char '\n'], rest⟩
    | 'v' => ⟨some [.char '\x0b'], rest⟩
    | 'f' => ⟨some [.char '\x0c'], rest⟩
    | 'r' => ⟨some [.char '\r'], rest⟩
    | 'x' =>
      match rest with
      | a :: b :: tail =>
        if isHexDigit a ∧ isHexDigit b then
          ⟨some [.char (Char.ofNat (digitsValue 16 [a, b]))], tail⟩
        else ⟨none, rest.drop ((rest.take 2).takeWhile isHexDigit).length⟩
      | _ => ⟨none, rest.drop ((rest.take 2).takeWhile isHexDigit).length⟩
    | 'u' => readUnicodeEscape rest
    | c =>
      let digitNext := (rest.head?.map isAsciiDigit).getD false
      if c = '0' ∧ ¬ digitNext then ⟨some [.char '\x00'], rest⟩
      else if isAsciiDigit c ∧ template then ⟨none, rest⟩
      else if isOctalDigit c then readOctalEscape c rest
      else ⟨some [.char c], rest⟩

end MessageCatalog.Script
