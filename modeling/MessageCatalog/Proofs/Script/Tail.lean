/-
What is left when a token is read is the end of the text that it was read from.
-/
import MessageCatalog.Script.Token

namespace MessageCatalog.Script

open MessageCatalog.Text

/-! ## Escapes -/

@[grind →] theorem readHex4?_suffix : ∀ {cs rest : List Char} {n : Nat},
    Json.readHex4? cs = some (n, rest) → rest <:+ cs
  | a :: b :: c :: d :: tail, rest, n, h => by
    simp only [Json.readHex4?] at h
    split at h
    · cases h
      exact ⟨[a, b, c, d], rfl⟩
    · cases h

@[grind →] theorem suffix_of_cons_suffix {c : Char} {a b : List Char} (h : c :: a <:+ b) : a <:+ b :=
  (List.suffix_cons c a).trans h

theorem readUnicodeEscape_suffix (cs : List Char) : (readUnicodeEscape cs).rest <:+ cs := by
  unfold readUnicodeEscape
  repeat' split
  all_goals grind [List.dropWhile_suffix, List.drop_suffix]

theorem readOctalEscape_suffix (first : Char) (cs : List Char) :
    (readOctalEscape first cs).rest <:+ cs := by
  unfold readOctalEscape
  grind [List.drop_suffix]

theorem readEscape_suffix (template : Bool) (cs : List Char) :
    (readEscape template cs).rest <:+ cs := by
  unfold readEscape
  repeat' split
  all_goals grind [List.drop_suffix, readUnicodeEscape_suffix, readOctalEscape_suffix]

/-! ## Trivia -/

@[grind →] theorem skipBlockComment_suffix : ∀ {newLine newLine' : Bool} {cs rest : List Char},
    skipBlockComment newLine cs = some (newLine', rest) → rest <:+ cs := by
  intro newLine newLine' cs rest h
  fun_induction skipBlockComment newLine cs <;> grind

/-- The text that a token starts with, or the comment that does not end. -/
def Trivia.rest : Trivia → List Char
  | .skipped _ rest => rest
  | .unclosedComment _ comment => comment

theorem skipTrivia_suffix (newLine : Bool) (fuel : Nat) (cs : List Char) :
    (skipTrivia newLine fuel cs).rest <:+ cs := by
  fun_induction skipTrivia newLine fuel cs <;>
    grind [Trivia.rest, List.dropWhile_suffix]

/-! ## Names and numbers -/

theorem readName_suffix (first : Bool) (fuel : Nat) (cs : List Char) :
    (readName first fuel cs).2 <:+ cs := by
  fun_induction readName first fuel cs <;> grind [readUnicodeEscape_suffix]

theorem readDigits_suffix (isDigit : Char → Bool) (fuel : Nat) (cs : List Char) :
    (readDigits isDigit fuel cs).2.1 <:+ cs := by
  fun_induction readDigits isDigit fuel cs <;> grind

theorem finishNumber_suffix (offset : OffsetOf) (kind : TokenKind) (rest : List Char)
    (faults : List Nat) : (finishNumber offset kind rest faults).rest <:+ rest := by
  unfold finishNumber
  repeat' split
  all_goals grind [List.dropWhile_suffix]

theorem readBased_suffix (offset : OffsetOf) (base : Nat) (isDigit : Char → Bool) (cs : List Char) :
    (readBased offset base isDigit cs).rest <:+ cs := by
  unfold readBased
  grind [readDigits_suffix, finishNumber_suffix]

theorem splitSign_suffix (cs : List Char) : (Double.splitSign cs).2 <:+ cs := by
  unfold Double.splitSign
  split <;> grind

@[grind →] theorem readExponent_suffix {offset : OffsetOf} {cs rest : List Char} {n : Int}
    {faults : List Nat}
    (h : readExponent offset cs = some (n, rest, faults)) : rest <:+ cs := by
  unfold readExponent at h
  grind [readDigits_suffix, splitSign_suffix]

theorem readDecimalTail_suffix (offset : OffsetOf) (whole cs : List Char) (faults : List Nat) :
    (readDecimalTail offset whole cs faults).rest <:+ cs := by
  unfold readDecimalTail
  grind [readDigits_suffix, finishNumber_suffix]

theorem readNumber_suffix (offset : OffsetOf) (cs : List Char) :
    (readNumber offset cs).rest <:+ cs := by
  unfold readNumber
  grind [readDigits_suffix, readBased_suffix, readDecimalTail_suffix, finishNumber_suffix,
    List.dropWhile_suffix]

/-! ## Strings, templates and regular expressions -/

@[grind →] theorem readStringBody_suffix {offset : OffsetOf} {quote : Char} {fuel : Nat}
    {cs : List Char}
    {read : BodyRead} (h : readStringBody offset quote fuel cs = some read) : read.rest <:+ cs := by
  fun_induction readStringBody offset quote fuel cs generalizing read <;>
    grind [readEscape_suffix, Option.bind_eq_bind, Option.bind_eq_some_iff, Option.pure_def]

@[grind →] theorem readTemplateBody_suffix {fuel : Nat} {cs : List Char} {read : BodyRead × Bool}
    (h : readTemplateBody fuel cs = some read) : read.1.rest <:+ cs := by
  fun_induction readTemplateBody fuel cs generalizing read <;>
    grind [readEscape_suffix, Option.bind_eq_bind, Option.bind_eq_some_iff, Option.pure_def]

theorem cutString_suffix (offset : OffsetOf) (start : Nat) (quote : Char) (body : List Char) :
    (cutString offset start quote body).rest <:+ body := by
  unfold cutString
  grind [List.dropWhile_suffix]

theorem cutTemplate_suffix (start : Nat) (body : List Char) :
    (cutTemplate start body).rest <:+ body := by
  unfold cutTemplate
  grind

@[grind →] theorem skipPattern_suffix {inClass : Bool} {cs rest : List Char}
    (h : skipPattern inClass cs = some rest) : rest <:+ cs := by
  fun_induction skipPattern inClass cs <;> grind

theorem readFlags_suffix (offset : OffsetOf) (seen cs : List Char) :
    (readFlags offset seen cs).1 <:+ cs := by
  fun_induction readFlags offset seen cs <;> grind

theorem cutRegex_suffix (offset : OffsetOf) (start : Nat) (body : List Char) :
    (cutRegex offset start body).rest <:+ body := by
  unfold cutRegex
  grind [readFlags_suffix, List.dropWhile_suffix]

theorem cutToken_suffix (offset : OffsetOf) (atStart : Bool) (cs : List Char) :
    (cutToken offset atStart cs).rest <:+ cs := by
  unfold cutToken
  grind [cutString_suffix, cutTemplate_suffix, readName_suffix, readDecimalTail_suffix,
    readNumber_suffix, List.dropWhile_suffix, List.drop_suffix]

/-! ## Strings among tokens -/

/-- A cut that is no string. -/
def Cut.NoString (cut : Cut) : Prop := ∀ value, cut.kind ≠ .string value

theorem finishNumber_noString {offset : OffsetOf} {kind : TokenKind} {rest : List Char}
    {faults : List Nat} (h : ∀ value, kind ≠ .string value) :
    (finishNumber offset kind rest faults).NoString := by
  unfold finishNumber
  grind [Cut.NoString]

theorem readBased_noString (offset : OffsetOf) (base : Nat) (isDigit : Char → Bool) (cs : List Char) :
    (readBased offset base isDigit cs).NoString := by
  unfold readBased
  grind [finishNumber_noString, Cut.NoString]

theorem readDecimalTail_noString (offset : OffsetOf) (whole cs : List Char) (faults : List Nat) :
    (readDecimalTail offset whole cs faults).NoString := by
  unfold readDecimalTail
  grind [finishNumber_noString]

theorem readNumber_noString (offset : OffsetOf) (cs : List Char) :
    (readNumber offset cs).NoString := by
  unfold readNumber
  grind [finishNumber_noString, readBased_noString, readDecimalTail_noString]

theorem cutTemplate_noString (start : Nat) (body : List Char) : (cutTemplate start body).NoString := by
  unfold cutTemplate
  grind [Cut.NoString]

theorem cutRegex_noString (offset : OffsetOf) (start : Nat) (body : List Char) :
    (cutRegex offset start body).NoString := by
  unfold cutRegex
  grind [Cut.NoString]

theorem cutString_string {offset : OffsetOf} {start : Nat} {quote : Char} {body : List Char}
    {value : String} (hquote : quote = '"' ∨ quote = '\'')
    (h : (cutString offset start quote body).kind = .string value) :
    StartsWithString (quote :: body) value (cutString offset start quote body).rest := by
  unfold cutString at h ⊢
  cases hread : readStringBody offset quote (body.length + 1) body with
  | none => rw [hread] at h; cases h
  | some read =>
    rw [hread] at h
    cases h
    exact .intro hquote hread

/-- A token is a string only where its text starts with one. -/
theorem cutToken_string {offset : OffsetOf} {atStart : Bool} {cs : List Char} {value : String}
    (h : (cutToken offset atStart cs).kind = .string value) :
    StartsWithString cs value (cutToken offset atStart cs).rest := by
  unfold cutToken at h ⊢
  grind [cutString_string, cutTemplate_noString, readDecimalTail_noString, readNumber_noString,
    Cut.NoString]

/-! ## The next token -/

/-- The next token of the end of a source stands in the source. -/
theorem nextToken_stands {source cs : List Char} {size : Nat} (hsize : size = byteLength source)
    (h : cs <:+ source) :
    (nextToken (offsetIn size) cs).1.Stands source (nextToken (offsetIn size) cs).2.1 := by
  subst hsize
  have htrivia := skipTrivia_suffix false (cs.length + 1) cs
  unfold nextToken
  cases hskip : skipTrivia false (cs.length + 1) cs with
  | skipped newLine text =>
    rw [hskip] at htrivia
    exact ⟨htrivia.trans h, cutToken_suffix _ _ _, rfl, rfl, fun value => cutToken_string⟩
  | unclosedComment newLine comment =>
    rw [hskip] at htrivia
    exact ⟨htrivia.trans h, List.nil_suffix, rfl, rfl, nofun⟩

/-! ## Other cuts of a token -/

/-- Another way to cut the text of a token, which never makes a string of it. -/
structure Recut where
  cut : OffsetOf → Token → Cut
  suffix (offset : OffsetOf) (t : Token) : (cut offset t).rest <:+ t.text
  noString (offset : OffsetOf) (t : Token) : (cut offset t).NoString

/-- The brace behind a substitution goes on with its template. -/
def Recut.template : Recut where
  cut _ t := cutTemplate t.start (t.text.drop 1)
  suffix _ t := (cutTemplate_suffix _ _).trans (List.drop_suffix 1 t.text)
  noString _ _ := cutTemplate_noString _ _

/-- A slash starts a regular expression. -/
def Recut.regex : Recut where
  cut offset t := cutRegex offset t.start (t.text.drop 1)
  suffix _ t := (cutRegex_suffix _ _ _).trans (List.drop_suffix 1 t.text)
  noString _ _ := cutRegex_noString _ _ _

/-- A closing angle bracket starts an operator. -/
def Recut.angle : Recut where
  cut _ t :=
    match angleOperators.find? (fun p => p.toList.isPrefixOf t.text) with
    | some p => ⟨.punctuator p, t.text.drop p.length, []⟩
    | none => ⟨.punctuator ">", t.text.drop 1, []⟩
  suffix _ t := by split <;> exact List.drop_suffix _ t.text
  noString _ t := by
    intro value
    split <;> nofun

theorem Token.Stands.recut {source rest : List Char} {t : Token} (h : t.Stands source rest)
    {size : Nat} (hsize : size = byteLength source) (cut : Recut) :
    let c := cut.cut (offsetIn size) t
    Token.Stands source { t with kind := c.kind, stop := offsetIn size c.rest } c.rest where
  inSource := h.inSource
  inText := cut.suffix _ t
  start := h.start
  stop := by rw [hsize]; rfl
  string value hvalue := absurd hvalue (cut.noString _ t value)

end MessageCatalog.Script
