/-
Texts that are cut into one token each, whatever stands behind them or, for words and numbers, in
front of what ends them.
-/
import MessageCatalog.Proofs.Json.Quoted
import MessageCatalog.Proofs.Script.Facing
import MessageCatalog.Proofs.Script.Spelling

namespace MessageCatalog.Script

open MessageCatalog.Text

/-! ## Blanks in front of a token -/

/-- A character that starts neither a blank nor a comment. -/
def startsLexeme (c : Char) : Bool := !(isLineEnd c || isScriptBlank c || c = '/')

theorem leads_nil : Leads [] [] := by
  intro newLine fuel hfuel
  obtain ⟨n, rfl⟩ := Nat.exists_eq_add_of_le' hfuel
  exact ⟨newLine, rfl⟩

theorem skipTrivia_lexeme {c : Char} (h : startsLexeme c = true) (newLine : Bool) (fuel : Nat)
    (rest : List Char) : skipTrivia newLine (fuel + 1) (c :: rest) = .skipped newLine (c :: rest) := by
  simp only [startsLexeme, Bool.not_eq_true', Bool.or_eq_false_iff, decide_eq_false_iff_not] at h
  obtain ⟨⟨hline, hblank⟩, hslash⟩ := h
  unfold skipTrivia
  split
  · rename_i heq
    exact absurd (List.cons.inj heq).1 hslash
  · rename_i heq
    exact absurd (List.cons.inj heq).1 hslash
  · rename_i heq
    obtain ⟨rfl, rfl⟩ := List.cons.inj heq
    rw [hline, hblank]
    rfl
  · rename_i heq
    cases heq

theorem leads_lexeme {c : Char} {rest : List Char} (h : startsLexeme c = true) :
    Leads (c :: rest) (c :: rest) := by
  intro newLine fuel hfuel
  obtain ⟨n, rfl⟩ := Nat.exists_eq_add_of_le' hfuel
  exact ⟨newLine, skipTrivia_lexeme h newLine _ rest⟩

theorem leads_blank {c : Char} {cs text : List Char} (hc : c = ' ' ∨ c = '\n') (h : Leads cs text) :
    Leads (c :: cs) text := by
  intro newLine fuel hfuel
  obtain ⟨n, rfl⟩ := Nat.exists_eq_add_of_le' hfuel
  rcases hc with rfl | rfl
  · exact h newLine _ (Nat.lt_of_succ_lt_succ hfuel)
  · exact h true _ (Nat.lt_of_succ_lt_succ hfuel)

section

variable {offset : OffsetOf} {cs rest : List Char} {ps : List Piece}

theorem cuts_nil : Cuts offset [] [] := .done leads_nil

theorem Cuts.blank {c : Char} (hc : c = ' ' ∨ c = '\n') (h : Cuts offset cs ps) :
    Cuts offset (c :: cs) ps := by
  cases h with
  | done leads => exact .done (leads_blank hc leads)
  | token leads cut shorter behind => exact .token (leads_blank hc leads) cut shorter behind
  | code leads cut starts nonempty behind =>
    exact .code (leads_blank hc leads) cut starts nonempty behind

theorem Cuts.blanks {blanks : List Char} (hblanks : ∀ c ∈ blanks, c = ' ' ∨ c = '\n')
    (h : Cuts offset cs ps) : Cuts offset (blanks ++ cs) ps := by
  induction blanks with
  | nil => exact h
  | cons c blanks ih =>
    obtain ⟨hc, hblanks⟩ := List.forall_mem_cons.1 hblanks
    exact (ih hblanks).blank hc

/-! ## Tokens -/

/-- A text that is one token of a kind in front of a rest. -/
def IsLexeme (text : List Char) (kind : TokenKind) (rest : List Char) : Prop :=
  (∃ c tail, text = c :: tail ∧ startsLexeme c = true) ∧
    ∀ offset atStart, cutToken offset atStart (text ++ rest) = ⟨kind, rest, []⟩

theorem IsLexeme.cuts {text : List Char} {kind : TokenKind} (h : IsLexeme text kind rest)
    (behind : Cuts offset rest ps) : Cuts offset (text ++ rest) (.token kind :: ps) := by
  obtain ⟨⟨c, tail, rfl, hc⟩, hcut⟩ := h
  refine .token (leads_lexeme hc) (hcut offset) ?_ behind
  show rest.length < (c :: (tail ++ rest)).length
  rw [List.length_cons, List.length_append]
  omega

/-! ## Punctuators -/

/-- Brackets and separators, which are cut whatever follows. -/
def brackets : List Char := ['\x7b', '\x7d', '[', ']', '(', ')', ',', ':', ';']

theorem isLexeme_bracket {c : Char} (hc : c ∈ brackets) :
    IsLexeme [c] (.punctuator (String.ofList [c])) rest := by
  simp only [brackets, List.mem_cons, List.not_mem_nil, or_false] at hc
  rcases hc with rfl | rfl | rfl | rfl | rfl | rfl | rfl | rfl | rfl <;>
    exact ⟨⟨_, _, rfl, by decide⟩, fun _ _ => rfl⟩

theorem isLexeme_arrow (rest : List Char) : IsLexeme ['=', '>'] (.punctuator "=>") rest :=
  ⟨⟨_, _, rfl, by decide⟩, fun _ _ => rfl⟩

theorem punctuator?_of_find {cs : List Char} {p : String} (hp : p ≠ "?.")
    (h : punctuators.find? (fun p => p.toList.isPrefixOf cs) = some p) : punctuator? cs = some p := by
  unfold punctuator?
  rw [h]
  split
  · rename_i heq
    exact absurd (Option.some.inj heq) hp
  · rfl

section

variable {c : Char}

theorem punctuator?_minus (hminus : c ≠ '-') (hequals : c ≠ '=') :
    punctuator? ('-' :: c :: rest) = some "-" := by
  have h1 : ('-' == c) = false := beq_eq_false_iff_ne.2 hminus.symm
  have h2 : ('=' == c) = false := beq_eq_false_iff_ne.2 hequals.symm
  exact punctuator?_of_find (by decide) (by simp [punctuators, List.find?, List.isPrefixOf, h1, h2])

theorem punctuator?_equals (hequals : c ≠ '=') (hangle : c ≠ '>') :
    punctuator? ('=' :: c :: rest) = some "=" := by
  have h1 : ('=' == c) = false := beq_eq_false_iff_ne.2 hequals.symm
  have h2 : ('>' == c) = false := beq_eq_false_iff_ne.2 hangle.symm
  exact punctuator?_of_find (by decide) (by simp [punctuators, List.find?, List.isPrefixOf, h1, h2])

theorem punctuator?_dot (hdot : c ≠ '.') : punctuator? ('.' :: c :: rest) = some "." := by
  have h1 : ('.' == c) = false := beq_eq_false_iff_ne.2 hdot.symm
  exact punctuator?_of_find (by decide) (by simp [punctuators, List.find?, List.isPrefixOf, h1])

/-- An operator that longer ones start with, where it is not one of them. -/
theorem isLexeme_operator {operator : Char} (h : operator = '-' ∨ operator = '=')
    (hread : punctuator? (operator :: rest) = some (String.ofList [operator])) :
    IsLexeme [operator] (.punctuator (String.ofList [operator])) rest := by
  have hstarts : startsLexeme operator = true := by rcases h with rfl | rfl <;> decide
  have hdigit : isAsciiDigit operator = false := by rcases h with rfl | rfl <;> decide
  have hname : isIdentifierStart operator = false := by rcases h with rfl | rfl <;> decide
  refine ⟨⟨_, _, rfl, hstarts⟩, fun offset atStart => ?_⟩
  rcases h with rfl | rfl
  all_goals
    simp [cutToken, hread, hdigit, hname]
    rfl

/-- A minus sign in front of anything but another operator. -/
theorem isLexeme_minus (hminus : c ≠ '-') (hequals : c ≠ '=') :
    IsLexeme ['-'] (.punctuator "-") (c :: rest) :=
  isLexeme_operator (.inl rfl) (punctuator?_minus hminus hequals)

theorem isLexeme_equals (hequals : c ≠ '=') (hangle : c ≠ '>') :
    IsLexeme ['='] (.punctuator "=") (c :: rest) :=
  isLexeme_operator (.inr rfl) (punctuator?_equals hequals hangle)

/-- A dot in front of neither a fraction nor another dot. -/
theorem isLexeme_dot (hdot : c ≠ '.') (hdigit : isAsciiDigit c = false) :
    IsLexeme ['.'] (.punctuator ".") (c :: rest) := by
  refine ⟨⟨_, _, rfl, by decide⟩, fun offset atStart => ?_⟩
  have hread : punctuator? ('.' :: c :: rest) = some "." := punctuator?_dot hdot
  have hlength : ".".length = 1 := rfl
  simp [cutToken, hread, hdigit, hlength]

end

/-! ## Strings -/

/-- A spelled body between two quotes is one token, if it stays on its line. -/
theorem isLexeme_spelled {quote : Char} (hquote : quote ∈ ['"', '\'']) {raw literal : List Char}
    (h : Spelled quote raw literal) (hreturn : '\r' ∉ raw) :
    IsLexeme (quote :: (raw ++ [quote])) (.string (String.ofList literal)) rest := by
  have hlength : raw.length < (raw ++ quote :: rest).length + 1 := by
    rw [List.length_append]
    omega
  have hcut (offset : OffsetOf) (start : Nat) :
      cutString offset start quote (raw ++ quote :: rest) = ⟨.string (String.ofList literal), rest, []⟩ := by
    have hescape : quote ≠ '\\' := by
      rintro rfl
      exact absurd hquote (by decide)
    rw [cutString, readStringBody_of_spelled hescape h hreturn rest hlength]
    simp only [unitsText_chars]
  simp only [List.mem_cons, List.not_mem_nil, or_false] at hquote
  rcases hquote with rfl | rfl
  · refine ⟨⟨_, _, rfl, by decide⟩, fun offset atStart => ?_⟩
    rw [List.cons_append, List.append_assoc]
    exact hcut offset _
  · refine ⟨⟨_, _, rfl, by decide⟩, fun offset atStart => ?_⟩
    rw [List.cons_append, List.append_assoc]
    exact hcut offset _

/-- What is written for a character spells it. -/
theorem spelled_escapeChar (c : Char) : Spelled '"' (Json.escapeChar c) [c] := by
  unfold Json.escapeChar
  split
  · exact .single (.simple (by decide))
  · exact .single (.simple (by decide))
  · exact .single (.simple (by decide))
  · exact .single (.simple (by decide))
  · exact .single (.simple (by decide))
  · exact .single (.simple (by decide))
  · exact .single (.simple (by decide))
  · rename_i hquote hback _ _ hnewline _ _
    split
    · rename_i hcontrol
      obtain ⟨hhex, hvalue⟩ := Json.hexDigits_control c.toNat hcontrol
      obtain ⟨hhigh, hlow⟩ := Json.not_surrogate_control c.toNat hcontrol
      have hspells : Spells '"' _ _ := .unit rfl hhex (hvalue.symm ▸ hhigh) (hvalue.symm ▸ hlow)
      rw [hvalue, Char.ofNat_toNat] at hspells
      exact .single hspells
    · exact .single (.raw hquote hback hnewline)

theorem spelled_escape (text : List Char) : Spelled '"' (Json.escape text) text := by
  induction text with
  | nil => exact .nil
  | cons c text ih => exact (spelled_escapeChar c).append ih

/-- A written string is one token. -/
theorem isLexeme_quoted (text : String) : IsLexeme (Json.quoted text).toList (.string text) rest := by
  have hreturn : '\r' ∉ Json.escape text.toList := by
    intro h
    obtain ⟨c, -, hc⟩ := List.mem_flatMap.1 h
    exact Json.escapeChar_visible hc (by decide)
  have hlexeme : IsLexeme _ _ rest := isLexeme_spelled (by decide) (spelled_escape text.toList) hreturn
  rw [Json.toList_quoted]
  rwa [String.ofList_toList] at hlexeme

/-! ## Words -/

/-- Nothing behind a word goes on with it. -/
def EndsWord (rest : List Char) : Prop := ∀ c ∈ rest.head?, isIdentifierPart c = false ∧ c ≠ '\\'

theorem isIdentifierPart_of_start {c : Char} (h : isIdentifierStart c = true) :
    isIdentifierPart c = true := by
  simp [isIdentifierPart, h]

theorem readName_word {word : List Char} {fuel : Nat} (first : Bool) (hfuel : word.length < fuel)
    (hword : ∀ c ∈ word, isIdentifierStart c = true ∧ c ≠ '\\') (hrest : EndsWord rest) :
    readName first fuel (word ++ rest) = (some word, rest) := by
  induction word generalizing first fuel with
  | nil =>
    cases fuel with
    | zero => cases hfuel
    | succ fuel =>
      cases rest with
      | nil => rfl
      | cons c tail =>
        obtain ⟨hpart, hescape⟩ := hrest c rfl
        have hstart : isIdentifierStart c = false :=
          Bool.eq_false_iff.2 fun h => Bool.eq_false_iff.1 hpart (isIdentifierPart_of_start h)
        rw [List.nil_append, readName]
        · simp [hpart, hstart]
        · rintro _ rfl
          exact absurd rfl hescape
        · exact hescape
  | cons c word ih =>
    cases fuel with
    | zero => cases hfuel
    | succ fuel =>
      obtain ⟨⟨hstart, hescape⟩, hword⟩ := List.forall_mem_cons.1 hword
      rw [List.cons_append, readName]
      · simp [hstart, isIdentifierPart_of_start hstart, ih false (Nat.lt_of_succ_lt_succ hfuel) hword]
      · rintro _ rfl
        exact absurd rfl hescape
      · exact hescape

theorem cutToken_name {c : Char} {tail text : List Char} (hstart : isIdentifierStart c = true)
    (hdigit : isAsciiDigit c = false)
    (hread : readName true ((c :: tail).length + 1) (c :: tail) = (some text, rest)) :
    cutToken offset atStart (c :: tail) = ⟨.name (String.ofList text), rest, []⟩ := by
  unfold cutToken
  split
  case h_7 heq =>
    cases heq
    simp only [hdigit, hstart, hread, Bool.false_eq_true, if_false, Bool.true_or, if_true]
  case h_1 heq => cases heq
  -- no name starts with one of the characters that the other cases look for
  all_goals
    rename_i heq
    cases (List.cons.inj heq).1
    exact absurd hstart (by decide)

/-- A name that has neither digits nor escapes. -/
def isPlainWord (word : List Char) : Bool :=
  word ≠ [] && word.all fun c =>
    isIdentifierStart c && startsLexeme c && !isAsciiDigit c && c != '\\'

/-- A word is one token, if nothing behind it goes on with it. -/
theorem isLexeme_name {word : String} (hword : isPlainWord word.toList = true) (hrest : EndsWord rest) :
    IsLexeme word.toList (.name word) rest := by
  simp only [isPlainWord, Bool.and_eq_true, decide_eq_true_eq, List.all_eq_true, bne_iff_ne,
    Bool.not_eq_true'] at hword
  obtain ⟨hne, hall⟩ := hword
  obtain ⟨c, tail, hchars⟩ := List.exists_cons_of_ne_nil hne
  obtain ⟨⟨⟨hstart, hlexeme⟩, hdigit⟩, -⟩ := hall c (hchars ▸ List.mem_cons_self)
  have hread : readName true ((word.toList ++ rest).length + 1) (word.toList ++ rest) =
      (some word.toList, rest) := by
    refine readName_word true ?_ (fun c hc => ⟨(hall c hc).1.1.1, (hall c hc).2⟩) hrest
    rw [List.length_append]
    omega
  refine ⟨⟨c, tail, hchars, hlexeme⟩, fun offset atStart => ?_⟩
  rw [hchars, List.cons_append] at hread ⊢
  rw [cutToken_name hstart hdigit hread, ← hchars, String.ofList_toList]

/-- The words that written texts hold outside of strings. -/
def plainWords : List String := ["true", "false", "null", "NaN", "Infinity", "export", "default"]

theorem isLexeme_word {word : String} (hword : word ∈ plainWords) (hrest : EndsWord rest) :
    IsLexeme word.toList (.name word) rest := by
  have hall : plainWords.all (fun word => isPlainWord word.toList) = true := by decide
  exact isLexeme_name (List.all_eq_true.1 hall word hword) hrest

end

end MessageCatalog.Script
