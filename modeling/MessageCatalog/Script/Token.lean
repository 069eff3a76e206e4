/-
Tokens of script text. A token knows where it starts and ends, whether a line ended in front of it,
and the text from its start on, so that it can be cut again where the grammar asks for another
reading. Faults of single tokens are reported beside them as byte offsets.
-/
import MessageCatalog.Script.Escape
import MessageCatalog.Number.Decimal
import MessageCatalog.Text.Measure

namespace MessageCatalog.Script

open MessageCatalog.Text

/-! ## Kinds -/

inductive TokenKind where
  /-- An identifier or a keyword. -/
  | name (text : String)
  | privateName
  | punctuator (text : String)
  | number (value : Double)
  | bigint
  | string (value : String)
  /-- A template without substitutions, or the end of one. -/
  | templateEnd (cooked : Option String)
  /-- The part of a template in front of a substitution. -/
  | templatePart (cooked : Option String)
  | regex
  | hashbang
  | endOfText
  /-- Text that is no token; the fault has been reported. -/
  | unknown
  deriving DecidableEq, Repr, Inhabited

structure Token where
  kind : TokenKind
  start : Nat
  stop : Nat
  /-- A line ended between the token before and this one. -/
  onNewLine : Bool
  /-- The text from the start of the token on. -/
  text : List Char
  deriving Inhabited

/-- A cut token: its kind, the text behind it, and the faults found in it. -/
structure Cut where
  kind : TokenKind
  rest : List Char
  faults : List Nat

/-! ## Trivia -/

/-- Blanks of script text besides line ends. -/
def isScriptBlank (c : Char) : Bool :=
  c = ' ' || c = '\t' || c = '\x0b' || c = '\x0c' || c.toNat = 0xFEFF || c.toNat = 0x200B ||
    (isBlank c && !isLineEnd c)

/-- The text behind a comment that is in its body; `none` if it does not end. -/
def skipBlockComment (newLine : Bool) : List Char → Option (Bool × List Char)
  | [] => none
  | '*' :: '/' :: rest => some (newLine, rest)
  | c :: rest => skipBlockComment (newLine || isLineEnd c) rest

/-- What precedes a token: whether a line ended, the text of the token, or an unclosed comment. -/
inductive Trivia where
  | skipped (newLine : Bool) (rest : List Char)
  | unclosedComment (newLine : Bool) (comment : List Char)

/-- Skips blanks, line ends and comments; the fuel bounds the number of steps. -/
def skipTrivia (newLine : Bool) : Nat → List Char → Trivia
  | 0, cs => .skipped newLine cs
  | fuel + 1, cs =>
    match cs with
    | '/' :: '/' :: rest => skipTrivia newLine fuel (rest.dropWhile (!isLineEnd ·))
    | '/' :: '*' :: rest =>
      match skipBlockComment newLine rest with
      | some (newLine, rest) => skipTrivia newLine fuel rest
      | none => .unclosedComment newLine cs
    | c :: rest =>
      if isLineEnd c then skipTrivia true fuel rest
      else if isScriptBlank c then skipTrivia newLine fuel rest
      else .skipped newLine cs
    | [] => .skipped newLine []

/-! ## Names -/

/-- The characters of a name, escapes decoded, and the rest; `none` where an escape is invalid. -/
def readName (first : Bool) : Nat → List Char → Option (List Char) × List Char
  | 0, cs => (some [], cs)
  | fuel + 1, cs =>
    match cs with
    | '\\' :: 'u' :: body =>
      let read := readUnicodeEscape body
      match read.units with
      | some [.char c] =>
        if (if first then isIdentifierStart c else isIdentifierPart c) then
          let (tail, rest) := readName false fuel read.rest
          (tail.map (c :: ·), rest)
        else (none, read.rest)
      | _ => (none, read.rest)
    | '\\' :: rest => (none, rest)
    | c :: rest =>
      if (if first then isIdentifierStart c else isIdentifierPart c) then
        let (tail, rest) := readName false fuel rest
        (tail.map (c :: ·), rest)
      else (some [], cs)
    | [] => (some [], [])

/-! ## Numbers -/

/-- Digits of a class with single separators between them: digits, rest, and a misplaced one. -/
def readDigits (isDigit : Char → Bool) :
    Nat → List Char → List Char × List Char × Option (List Char)
  | 0, cs => ([], cs, none)
  | fuel + 1, cs =>
    match cs with
    | '_' :: rest =>
      match rest with
      | c :: _ =>
        if isDigit c then readDigits isDigit fuel rest else ([], rest, some rest)
      | [] => ([], [], some [])
    | c :: rest =>
      if isDigit c then
        let (digits, tail, fault) := readDigits isDigit fuel rest
        (c :: digits, tail, fault)
      else ([], cs, none)
    | [] => ([], [], none)

/-- The value of digits in a base; past 64 bits every further digit is rounded in. -/
def baseValue (base bits : Nat) (digits : List Char) : Double :=
  if digitsValue base digits < Nat.pow 2 64 ∨ bits = 0 then .ofNat (digitsValue base digits)
  else
    digits.foldl (fun d c =>
      match d with
      | .finite _ x =>
        let scale := (-x.exponent).toNat
        let grown :=
          x.mantissa * Nat.pow 2 x.exponent.toNat * base + hexValue c * Nat.pow 2 scale
        .ofRatio false grown (Nat.pow 2 scale)
      | other => other) Double.zero

/-- Offsets of positions in a text: `offset rest` is where `rest` begins. -/
abbrev OffsetOf := List Char → Nat

/-- A number directly followed by a name or a digit is no token. -/
def finishNumber (offset : OffsetOf) (kind : TokenKind) (rest : List Char) (faults : List Nat) :
    Cut :=
  match rest with
  | c :: tail =>
    if isIdentifierStart c || isAsciiDigit c || c = '\\' then
      ⟨.unknown, tail.dropWhile isIdentifierStart, faults ++ [offset rest]⟩
    else ⟨kind, rest, faults⟩
  | [] => ⟨kind, [], faults⟩

def misplaced (offset : OffsetOf) : Option (List Char) → List Nat
  | some rest => [offset rest]
  | none => []

/-- A number in base 2, 8 or 16 behind its mark. -/
def readBased (offset : OffsetOf) (base : Nat) (isDigit : Char → Bool) (cs : List Char) : Cut :=
  match cs with
  | c :: _ =>
    if isDigit c then
      let (digits, rest, fault) := readDigits isDigit (cs.length + 1) cs
      let faults := misplaced offset fault
      match rest with
      | 'n' :: rest => finishNumber offset .bigint rest faults
      | _ => finishNumber offset (.number (baseValue base 64 digits)) rest faults
    else ⟨.unknown, cs, [offset cs]⟩
  | [] => ⟨.unknown, [], [offset []]⟩

/-- The exponent of a number, if there is one: value, rest, faults. -/
def readExponent (offset : OffsetOf) (cs : List Char) : Option (Int × List Char × List Nat) :=
  match cs with
  | c :: rest =>
    if c = 'e' ∨ c = 'E' then
      let (negative, body) := Double.splitSign rest
      match body with
      | d :: _ =>
        if isAsciiDigit d then
          let (digits, tail, fault) := readDigits isAsciiDigit (body.length + 1) body
          let n : Int := digitsValue 10 digits
          some (if negative then -n else n, tail, misplaced offset fault)
        else some (0, body, [offset body])
      | [] => some (0, [], [offset []])
    else none
  | [] => none

/-- Fraction and exponent behind the whole digits of a decimal number. -/
def readDecimalTail (offset : OffsetOf) (whole : List Char) (cs : List Char) (faults : List Nat) :
    Cut :=
  let (fraction, rest, faults) :=
    match cs with
    | '.' :: tail =>
      match tail with
      | d :: _ =>
        if isAsciiDigit d then
          let (digits, rest, fault) := readDigits isAsciiDigit (tail.length + 1) tail
          (digits, rest, faults ++ misplaced offset fault)
        else ([], tail, faults)
      | [] => ([], [], faults)
    | _ => ([], cs, faults)
  match readExponent offset rest with
  | some (exponent, rest, more) =>
    finishNumber offset (.number (.ofParts false whole fraction exponent)) rest (faults ++ more)
  | none => finishNumber offset (.number (.ofParts false whole fraction 0)) rest faults

/-- A number that starts with a digit. -/
def readNumber (offset : OffsetOf) (cs : List Char) : Cut :=
  match cs with
  | '0' :: 'x' :: rest | '0' :: 'X' :: rest => readBased offset 16 isHexDigit rest
  | '0' :: 'o' :: rest | '0' :: 'O' :: rest => readBased offset 8 isOctalDigit rest
  | '0' :: 'b' :: rest | '0' :: 'B' :: rest =>
    readBased offset 2 (fun c => c = '0' || c = '1') rest
  | '0' :: 'n' :: rest => finishNumber offset .bigint rest []
  | '0' :: rest =>
    let digits := rest.takeWhile isAsciiDigit
    let tail := rest.dropWhile isAsciiDigit
    if digits = [] then readDecimalTail offset ['0'] tail []
    else if digits.all isOctalDigit then
      finishNumber offset (.number (baseValue 8 64 digits)) tail []
    else readDecimalTail offset digits tail []
  | _ =>
    let (digits, rest, fault) := readDigits isAsciiDigit (cs.length + 1) cs
    let faults := misplaced offset fault
    match rest with
    | 'n' :: rest => finishNumber offset .bigint rest faults
    | _ => readDecimalTail offset digits rest faults

/-! ## Strings and templates -/

/-- A body that was read: its units, whether all escapes are valid, the rest, and the faults. -/
structure BodyRead where
  units : List CodeUnit
  valid : Bool
  rest : List Char
  faults : List Nat

/-- The body of a string up to its quote; `none` if the line or the text ends first. -/
def readStringBody (offset : OffsetOf) (quote : Char) : Nat → List Char → Option BodyRead
  | 0, _ => none
  | fuel + 1, cs =>
    match cs with
    | [] => none
    | '\\' :: body => do
      let read := readEscape false body
      let tail ← readStringBody offset quote fuel read.rest
      match read.units with
      | some us => return { tail with units := us ++ tail.units }
      | none => return { tail with valid := false, faults := offset cs :: tail.faults }
    | c :: rest =>
      if c = quote then some ⟨[], true, rest, []⟩
      else if c = '\n' ∨ c = '\r' then none
      else do
        let tail ← readStringBody offset quote fuel rest
        return { tail with units := .char c :: tail.units }

/-- The body of a template up to its end or a substitution, which the flag tells apart. -/
def readTemplateBody : Nat → List Char → Option (BodyRead × Bool)
  | 0, _ => none
  | fuel + 1, cs =>
    match cs with
    | [] => none
    | '\x60' :: rest => some (⟨[], true, rest, []⟩, true)
    | '$' :: '\x7b' :: rest => some (⟨[], true, rest, []⟩, false)
    | '\\' :: body => do
      let read := readEscape true body
      let (tail, ended) ← readTemplateBody fuel read.rest
      match read.units with
      | some us => return ({ tail with units := us ++ tail.units }, ended)
      | none => return ({ tail with valid := false }, ended)
    | '\r' :: '\n' :: rest | '\r' :: rest => do
      let (tail, ended) ← readTemplateBody fuel rest
      return ({ tail with units := .char '\n' :: tail.units }, ended)
    | c :: rest => do
      let (tail, ended) ← readTemplateBody fuel rest
      return ({ tail with units := .char c :: tail.units }, ended)

def cutString (offset : OffsetOf) (start : Nat) (quote : Char) (body : List Char) : Cut :=
  match readStringBody offset quote (body.length + 1) body with
  | some read => ⟨.string (String.ofList (unitsText read.units)), read.rest, read.faults⟩
  | none => ⟨.unknown, body.dropWhile fun c => c ≠ '\n' ∧ c ≠ '\r', [start]⟩

/-- The part of a template behind a backtick or the brace that closes a substitution. -/
def cutTemplate (start : Nat) (body : List Char) : Cut :=
  match readTemplateBody (body.length + 1) body with
  | some (read, ended) =>
    let cooked := if read.valid then some (String.ofList (unitsText read.units)) else none
    ⟨if ended then .templateEnd cooked else .templatePart cooked, read.rest, []⟩
  | none => ⟨.unknown, [], [start]⟩

/-! ## Regular expressions -/

/-- The text behind the pattern of a regular expression; `none` if the line ends first. -/
def skipPattern (inClass : Bool) : List Char → Option (List Char)
  | [] => none
  | '\\' :: c :: rest => if isLineEnd c then none else skipPattern inClass rest
  | c :: rest =>
    if isLineEnd c then none
    else if c = '/' ∧ ¬ inClass then some rest
    else if c = '[' then skipPattern true rest
    else if c = ']' then skipPattern false rest
    else skipPattern inClass rest

/-- Flags of a regular expression, each valid and given once: the rest and the faults. -/
def readFlags (offset : OffsetOf) (seen : List Char) : List Char → List Char × List Nat
  | [] => ([], [])
  | c :: rest =>
    if isIdentifierPart c then
      let (tail, faults) := readFlags offset (c :: seen) rest
      let bad := seen.contains c || !("dgimsuvy".toList.contains c)
      (tail, if bad then offset (c :: rest) :: faults else faults)
    else (c :: rest, [])

/-- A regular expression behind its opening slash. -/
def cutRegex (offset : OffsetOf) (start : Nat) (body : List Char) : Cut :=
  match skipPattern false body with
  | some rest =>
    let (rest, faults) := readFlags offset [] rest
    ⟨.regex, rest, faults⟩
  | none => ⟨.unknown, body.dropWhile (!isLineEnd ·), [start]⟩

/-! ## Punctuators -/

/--
Punctuators, longer ones before their beginnings. A closing angle bracket is always cut alone.
-/
def punctuators : List String :=
  ["...", "===", "!==", "**=", "<<=", "&&=", "||=", "??=", "=>", "==", "!=", "++", "--", "+=", "-=",
    "**", "*=", "/=", "%=", "<<", "<=", "&&", "||", "&=", "|=", "^=", "??", "?.", "\x7b", "\x7d",
    "(", ")", "[", "]", ";", ",", "<", ">", "+", "-", "*", "/", "%", "&", "|", "^", "!", "~", "?",
    ":", "=", ".", "@"]

/-- The punctuator at the front of a text; `?.` in front of a digit is only `?`. -/
def punctuator? (cs : List Char) : Option String :=
  match punctuators.find? (fun p => p.toList.isPrefixOf cs) with
  | some "?." =>
    if ((cs.drop 2).head?.map isAsciiDigit).getD false then some "?" else some "?."
  | found => found

/-- Punctuators that start with a closing angle bracket, where an operator is expected. -/
def angleOperators : List String := [">>>=", ">>>", ">>=", ">>", ">=", ">"]

/-! ## The next token -/

/-- The token at the front of a text that starts with neither a blank nor a comment. -/
def cutToken (offset : OffsetOf) (atStart : Bool) (cs : List Char) : Cut :=
  let start := offset cs
  match cs with
  | [] => ⟨.endOfText, [], []⟩
  | '"' :: body => cutString offset start '"' body
  | '\'' :: body => cutString offset start '\'' body
  | '\x60' :: body => cutTemplate start body
  | '#' :: body =>
    if atStart ∧ body.head? = some '!' then
      ⟨.hashbang, body.dropWhile (!isLineEnd ·), []⟩
    else
      match readName true (body.length + 1) body with
      | (some (_ :: _), rest) => ⟨.privateName, rest, []⟩
      | (some [], rest) => ⟨.unknown, rest, [offset body]⟩
      | (none, rest) => ⟨.unknown, rest, [offset body]⟩
  | '.' :: d :: _ =>
    if isAsciiDigit d then readDecimalTail offset [] cs []
    else
      match punctuator? cs with
      | some p => ⟨.punctuator p, cs.drop p.length, []⟩
      | none => ⟨.unknown, cs.drop 1, [start]⟩
  | c :: tail =>
    if isAsciiDigit c then readNumber offset cs
    else if isIdentifierStart c || c = '\\' then
      match readName true (cs.length + 1) cs with
      | (some text, rest) => ⟨.name (String.ofList text), rest, []⟩
      | (none, rest) => ⟨.unknown, rest, [start]⟩
    else
      match punctuator? cs with
      | some p => ⟨.punctuator p, cs.drop p.length, []⟩
      | none => ⟨.unknown, tail, [start]⟩

/-- The next token of a text, the text behind it, and the faults of the token. -/
def nextToken (offset : OffsetOf) (cs : List Char) : Token × List Char × List Nat :=
  let startOfText := offset cs = 0
  match skipTrivia false (cs.length + 1) cs with
  | .skipped newLine text =>
    let start := offset text
    let cut := cutToken offset (startOfText && start = 0) text
    (⟨cut.kind, start, offset cut.rest, newLine, text⟩, cut.rest, cut.faults)
  | .unclosedComment newLine text =>
    (⟨.unknown, offset text, offset [], newLine, text⟩, [], [offset text])

/-! ## Where tokens stand -/

/-- Offsets in a text of a size, of which only the rest is at hand. -/
def offsetIn (size : Nat) : OffsetOf := fun rest => size - byteLength rest

/-- A text that starts with a string of a value, and the text behind the string. -/
inductive StartsWithString : List Char → String → List Char → Prop where
  | intro {offset : OffsetOf} {quote : Char} {body : List Char} {read : BodyRead}
    (quotes : quote = '"' ∨ quote = '\'')
    (reads : readStringBody offset quote (body.length + 1) body = some read) :
    StartsWithString (quote :: body) (String.ofList (unitsText read.units)) read.rest

/-- A token stands in a source in front of a rest: its extent and its value are those of its text. -/
structure Token.Stands (source : List Char) (t : Token) (rest : List Char) : Prop where
  inSource : t.text <:+ source
  inText : rest <:+ t.text
  start : t.start = byteLength source - byteLength t.text
  stop : t.stop = byteLength source - byteLength rest
  string : ∀ value, t.kind = .string value → StartsWithString t.text value rest

end MessageCatalog.Script
