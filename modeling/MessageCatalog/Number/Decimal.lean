/-
Reading numbers: decimal text with a fraction and an exponent, the names of the infinities and of
the absent number, and digit strings in a power-of-two base.
-/
import MessageCatalog.Number.Double
import MessageCatalog.Text.CharClass

namespace MessageCatalog.Double

open MessageCatalog.Text

/-- The value of `whole.fraction · 10 ^ exponent`, the parts being decimal digits. -/
def ofParts (negative : Bool) (whole fraction : List Char) (exponent : Int) : Double :=
  ofDecimal negative (digitsValue 10 (whole ++ fraction)) (exponent - fraction.length)

/-- Splits a sign off a text: whether it is negative, and the rest. -/
def splitSign : List Char → Bool × List Char
  | '+' :: cs => (false, cs)
  | '-' :: cs => (true, cs)
  | cs => (false, cs)

/-- The exponent part, `e` or `E` and a signed run of digits; no text is exponent zero. -/
def exponentPart? : List Char → Option Int
  | [] => some 0
  | c :: cs =>
    if c = 'e' ∨ c = 'E' then
      let (negative, digits) := splitSign cs
      if digits ≠ [] ∧ digits.all isAsciiDigit then
        let n : Int := digitsValue 10 digits
        some (if negative then -n else n)
      else none
    else none

/--
Reads a number: an optional sign, then `inf`, `infinity` or `nan` in any case, or digits with an
optional fraction, of which at least one digit, and an optional exponent.
-/
def read? (text : List Char) : Option Double :=
  let (negative, body) := splitSign text
  let lower := String.ofList (body.map Char.toLower)
  if lower = "inf" ∨ lower = "infinity" then some (.infinite negative)
  else if lower = "nan" then some .nan
  else
    let (whole, rest) := (body.takeWhile isAsciiDigit, body.dropWhile isAsciiDigit)
    let (fraction, rest) :=
      match rest with
      | '.' :: tail => (tail.takeWhile isAsciiDigit, tail.dropWhile isAsciiDigit)
      | _ => ([], rest)
    if whole = [] ∧ fraction = [] then none
    else (exponentPart? rest).map (ofParts negative whole fraction)

end MessageCatalog.Double
