/-
What the text of a plain scalar denotes: the core schema of YAML 1.2. Null, booleans and the numbers
that are not finite are fixed words, numbers are decimal, octal or hexadecimal, and the rest is
text.
-/
import MessageCatalog.Number.Decimal
import MessageCatalog.Resource.Node

namespace MessageCatalog.Yaml

open MessageCatalog.Text

/-- The words that denote a value. -/
def word? (text : String) : Option ScalarValue :=
  if ["", "~", "null", "Null", "NULL"].contains text then some .null
  else if ["true", "True", "TRUE"].contains text then some (.bool true)
  else if ["false", "False", "FALSE"].contains text then some (.bool false)
  else if [".inf", ".Inf", ".INF", "+.inf", "+.Inf", "+.INF"].contains text then
    some (.number (.infinite false))
  else if ["-.inf", "-.Inf", "-.INF"].contains text then some (.number (.infinite true))
  else if [".nan", ".NaN", ".NAN"].contains text then some (.number .nan)
  else none

/-- A decimal number: one that starts with a digit or a point behind its sign. -/
def decimal? (text : List Char) : Option Double :=
  match (Double.splitSign text).2 with
  | c :: _ => if isAsciiDigit c || c = '.' then Double.read? text else none
  | [] => none

/-- Numbers of this magnitude and more in another base than ten are text. -/
def wholeLimit : Nat := Nat.pow 2 63

/-- A number behind a prefix, in a base whose digits are given. -/
def inBase? (base : Nat) (isDigit : Char → Bool) (digits : List Char) : Option Double :=
  if digits = [] || !digits.all isDigit then none
  else
    let n := digitsValue base digits
    if n < wholeLimit then some (.ofDecimal false n 0) else none

def isOctalDigit (c : Char) : Bool := '0' ≤ c && c ≤ '7'

def number? (text : List Char) : Option Double :=
  match text with
  | '0' :: 'o' :: digits => inBase? 8 isOctalDigit digits
  | '0' :: 'x' :: digits => inBase? 16 isHexDigit digits
  | _ => decimal? text

/-- The value of a plain scalar. -/
def resolvePlain (text : String) : ScalarValue :=
  match word? text with
  | some value => value
  | none =>
    match number? text.toList with
    | some d => .number d
    | none => .string text

end MessageCatalog.Yaml
