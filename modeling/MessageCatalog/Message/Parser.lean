/-
Reading messages. A message is first cut into tokens, which are single characters of text, whole
items, and bars; then the tokens are gathered into plural cases, blanks around a bar belonging to
neither side. Every fault is found while tokens are cut, so the first one is the one reported.
-/
import MessageCatalog.Message.Basic
import MessageCatalog.Text.CharClass
import MessageCatalog.Text.Measure

namespace MessageCatalog.Message

open MessageCatalog.Text

/-! ## Placeholders -/

/-- A quoted literal up to its closing quote, and the rest; it stays on one line. -/
def quotedLiteral : List Char → Option (List Char × List Char)
  | [] => none
  | '\'' :: rest => some ([], rest)
  | '\n' :: _ => none
  | '\\' :: '\'' :: rest => (quotedLiteral rest).map fun (s, r) => ('\'' :: s, r)
  | '\\' :: '\\' :: rest => (quotedLiteral rest).map fun (s, r) => ('\\' :: s, r)
  | c :: rest => (quotedLiteral rest).map fun (s, r) => (c :: s, r)

theorem quotedLiteral_length {cs s rest : List Char} (h : quotedLiteral cs = some (s, rest)) :
    rest.length < cs.length := by
  induction cs using quotedLiteral.induct generalizing s with
  | case1 => simp [quotedLiteral] at h
  | case2 r => simp [quotedLiteral] at h; simp [h.2]
  | case3 => simp [quotedLiteral] at h
  | case4 r ih =>
    simp only [quotedLiteral, Option.map_eq_some_iff, Prod.mk.injEq] at h
    obtain ⟨⟨s', r'⟩, hr, -, rfl⟩ := h
    have := ih hr
    simp only [List.length_cons] at this ⊢
    omega
  | case5 r ih =>
    simp only [quotedLiteral, Option.map_eq_some_iff, Prod.mk.injEq] at h
    obtain ⟨⟨s', r'⟩, hr, -, rfl⟩ := h
    have := ih hr
    simp only [List.length_cons] at this ⊢
    omega
  | case6 c r h1 h2 h3 h4 ih =>
    rw [quotedLiteral] at h
    · simp only [Option.map_eq_some_iff, Prod.mk.injEq] at h
      obtain ⟨⟨s', r'⟩, hr, -, rfl⟩ := h
      have := ih hr
      simp only [List.length_cons] at this ⊢
      omega
    all_goals assumption

/-- A name starts with an ASCII letter, `_` or `$`. -/
def isNameStart (c : Char) : Bool := isAsciiAlpha c || c = '_' || c = '$'

def isNamePart (c : Char) : Bool := isNameStart c || isAsciiDigit c || c = '-'

def isName : List Char → Bool
  | [] => false
  | c :: cs => isNameStart c && cs.all isNamePart

/-- The greatest index of a list placeholder: indices are words of 32 bits. -/
def maxListIndex : Nat := 4294967295

/-- What stands between the braces of a placeholder without quotes. -/
def placeholderPart (content : List Char) : Except Fault Part :=
  if content = [] then .error .emptyPlaceholder
  else if content.all isAsciiDigit then
    let n := digitsValue 10 content
    if n ≤ maxListIndex then .ok (.list n) else .error (.listIndexOutOfRange content)
  else if isName content then .ok (.named content)
  else .error (.invalidPlaceholder content)

def isBrace (c : Char) : Bool := c = '\x7b' || c = '\x7d'

/-- The placeholder whose opening brace is at byte `opening`, given the text after the brace. -/
def placeholder (opening : Nat) (cs : List Char) : Except Error (Part × List Char) :=
  match cs.dropWhile isBlank with
  | '\'' :: rest =>
    let quote := opening + 1 + byteLength (cs.takeWhile isBlank)
    match quotedLiteral rest with
    | none => .error ⟨.unterminatedLiteral, quote⟩
    | some (s, rest) =>
      match rest.dropWhile isBlank with
      | '\x7d' :: rest => .ok (.literal s, rest)
      | _ => .error ⟨.unterminatedPlaceholder, opening⟩
  | body =>
    match body.dropWhile (!isBrace ·) with
    | '\x7d' :: rest =>
      match placeholderPart (trim (body.takeWhile (!isBrace ·))) with
      | .ok part => .ok (part, rest)
      | .error fault => .error ⟨fault, opening⟩
    | _ => .error ⟨.unterminatedPlaceholder, opening⟩

/-! ## Linked messages -/

/-- After `@`: the modifier and the text behind the colon, if a linked message starts here. -/
def linkHead? : List Char → Option (Option (List Char) × List Char)
  | ':' :: rest => some (none, rest)
  | '.' :: rest =>
    match rest.takeWhile isAsciiAlpha, rest.dropWhile isAsciiAlpha with
    | c :: modifier, ':' :: rest => some (some (c :: modifier), rest)
    | _, _ => none
  | _ => none

def isLinkKeyChar (c : Char) : Bool :=
  isAlphanumeric c || c = '_' || c = '-' || c = '.' || c = '$'

/-- A text without the dots at its end. -/
def dropDots (cs : List Char) : List Char := (cs.reverse.dropWhile (· = '.')).reverse

/--
The key after the colon, in parentheses or bare; a dot that ends a sentence is not part of it.
-/
def linkKey (cs : List Char) : Except Fault (List Char × List Char) :=
  match cs with
  | '(' :: body =>
    match body.dropWhile (· ≠ ')') with
    | ')' :: rest => .ok (trim (body.takeWhile (· ≠ ')')), rest)
    | _ => .error .unterminatedLink
  | _ =>
    let key := dropDots (cs.takeWhile isLinkKeyChar)
    .ok (key, cs.drop key.length)

/-- The linked message at byte `opening`, given its modifier and the text behind the colon. -/
def linked (opening : Nat) (modifier : Option (List Char)) (cs : List Char) :
    Except Error (Part × List Char) :=
  match linkKey cs with
  | .error fault => .error ⟨fault, opening⟩
  | .ok (key, rest) =>
    if key = [] then .error ⟨.emptyLinkKey, opening⟩ else .ok (.linked key modifier, rest)

/-! ## Every item takes text -/

theorem length_dropWhile_le (p : Char → Bool) (cs : List Char) :
    (cs.dropWhile p).length ≤ cs.length := (List.dropWhile_suffix p).length_le

theorem placeholder_length {opening : Nat} {cs rest : List Char} {part : Part}
    (h : placeholder opening cs = .ok (part, rest)) : rest.length < cs.length := by
  have hb := length_dropWhile_le isBlank cs
  unfold placeholder at h
  split at h
  · rename_i body hbody
    rw [hbody] at hb
    simp only [List.length_cons] at hb
    split at h
    · simp at h
    · rename_i s r hq
      have hl := quotedLiteral_length hq
      have hr := length_dropWhile_le isBlank r
      split at h
      · rename_i r' hr'
        rw [hr'] at hr
        simp only [List.length_cons] at hr
        simp only [Except.ok.injEq, Prod.mk.injEq] at h
        rw [← h.2]
        omega
      · simp at h
  · have hd := length_dropWhile_le (!isBrace ·) (cs.dropWhile isBlank)
    split at h
    · rename_i r' hr'
      rw [hr'] at hd
      simp only [List.length_cons] at hd
      split at h
      · simp only [Except.ok.injEq, Prod.mk.injEq] at h
        rw [← h.2]
        omega
      · simp at h
    · simp at h

theorem linkHead?_length {cs rest : List Char} {modifier : Option (List Char)}
    (h : linkHead? cs = some (modifier, rest)) : rest.length < cs.length := by
  unfold linkHead? at h
  split at h
  · simp only [Option.some.injEq, Prod.mk.injEq] at h
    simp [h.2]
  · rename_i r
    have hd := length_dropWhile_le isAsciiAlpha r
    split at h
    · rename_i hr
      rw [hr] at hd
      simp only [List.length_cons] at hd
      simp only [Option.some.injEq, Prod.mk.injEq] at h
      simp only [List.length_cons, ← h.2]
      omega
    · simp at h
  · simp at h

theorem linked_length {opening : Nat} {modifier : Option (List Char)} {cs rest : List Char}
    {part : Part} (h : linked opening modifier cs = .ok (part, rest)) :
    rest.length ≤ cs.length := by
  unfold linked at h
  split at h
  · simp at h
  · rename_i key r hk
    split at h
    · simp at h
    · simp only [Except.ok.injEq, Prod.mk.injEq] at h
      rw [← h.2]
      unfold linkKey at hk
      split at hk
      · rename_i body
        have hd := length_dropWhile_le (· ≠ ')') body
        split at hk
        · rename_i r' hr'
          rw [hr'] at hd
          simp only [List.length_cons] at hd
          simp only [Except.ok.injEq, Prod.mk.injEq] at hk
          simp only [List.length_cons, ← hk.2]
          omega
        · simp at hk
      · simp only [Except.ok.injEq, Prod.mk.injEq] at hk
        rw [← hk.2]
        simp

/-! ## Tokens -/

inductive Token where
  | char (c : Char) (offset : Nat)
  | item (i : Item)
  | bar
  deriving DecidableEq, Repr

/-- The tokens of a text whose first character is at byte `pos` of the message. -/
def tokens (pos : Nat) (cs : List Char) : Except Error (List Token) :=
  match cs with
  | [] => .ok []
  | '\x7b' :: body =>
    match _h : placeholder pos body with
    | .error e => .error e
    | .ok (part, rest) => do
      let others ← tokens (pos + byteLength ('\x7b' :: body) - byteLength rest) rest
      return .item ⟨part, pos⟩ :: others
  | '|' :: rest => do
    let others ← tokens (pos + 1) rest
    return .bar :: others
  | '@' :: body =>
    match _hh : linkHead? body with
    | none => do
      let others ← tokens (pos + 1) body
      return .char '@' pos :: others
    | some (modifier, key) =>
      match _h : linked pos modifier key with
      | .error e => .error e
      | .ok (part, rest) => do
        let others ← tokens (pos + byteLength ('@' :: body) - byteLength rest) rest
        return .item ⟨part, pos⟩ :: others
  | c :: rest => do
    let others ← tokens (pos + c.utf8Size) rest
    return .char c pos :: others
termination_by cs.length
decreasing_by
  · have := placeholder_length _h
    simp only [List.length_cons]
    omega
  · simp
  · simp
  · have h1 := linkHead?_length _hh
    have h2 := linked_length _h
    simp only [List.length_cons]
    omega
  · simp

/-! ## Cases -/

/-- Puts a character in front of the items of a case, joining the text that it starts. -/
def consChar (c : Char) (offset : Nat) : Case → Case
  | ⟨.text s, _⟩ :: rest => ⟨.text (c :: s), offset⟩ :: rest
  | items => ⟨.text [c], offset⟩ :: items

/-- The items of the tokens up to the next bar. -/
def itemsOf : List Token → Case
  | [] => []
  | .char c offset :: rest => consChar c offset (itemsOf rest)
  | .item i :: rest => i :: itemsOf rest
  | .bar :: rest => itemsOf rest

def isBlankToken : Token → Bool
  | .char c _ => isBlank c
  | _ => false

/-- Drops the blank characters in front of a bar. -/
def dropTrailingBlanks (ts : List Token) : List Token :=
  (ts.reverse.dropWhile isBlankToken).reverse

/-- Drops the blank characters behind a bar. -/
def dropLeadingBlanks (ts : List Token) : List Token := ts.dropWhile isBlankToken

/-- The tokens between bars. -/
def splitBars : List Token → List (List Token)
  | [] => [[]]
  | .bar :: rest => [] :: splitBars rest
  | t :: rest =>
    match splitBars rest with
    | first :: others => (t :: first) :: others
    | [] => [[t]]

/-- The cases of what stands between bars, all of it behind one. -/
def casesBehind : List (List Token) → List Case
  | [] => []
  | [last] => [itemsOf (dropLeadingBlanks last)]
  | ts :: rest => itemsOf (dropTrailingBlanks (dropLeadingBlanks ts)) :: casesBehind rest

/-- The cases of what stands between bars; blanks next to a bar are in none. -/
def casesOf : List (List Token) → List Case
  | [] => []
  | [only] => [itemsOf only]
  | first :: rest => itemsOf (dropTrailingBlanks first) :: casesBehind rest

/-- The plural cases of a message. -/
def parse (message : List Char) : Except Error (List Case) := do
  let ts ← tokens 0 message
  return casesOf (splitBars ts)

end MessageCatalog.Message
