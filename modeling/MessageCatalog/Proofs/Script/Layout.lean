/-
The text of a content: containers over several lines, indented by two spaces a level. It is cut into
just the pieces of the content, if the text of every number is.
-/
import MessageCatalog.Proofs.Script.Numeral
import MessageCatalog.Proofs.Script.ReadValue

namespace MessageCatalog.Script

open MessageCatalog.Text

/-! ## Text -/

section

variable (number : Double → List Char)

def scalarText : ScalarValue → List Char
  | .number d => number d
  | value => value.literal.toList

/-- A line break, and the blanks of a level. -/
def lineStart (level : Nat) : List Char := '\n' :: List.replicate (2 * level) ' '

mutual

def contentText (level : Nat) : Content → List Char
  | .mapping [] => ['\x7b', '\x7d']
  | .mapping (pair :: rest) =>
    '\x7b' :: (lineStart (level + 1) ++ (pairTexts (level + 1) (pair :: rest) ++
      (lineStart level ++ ['\x7d'])))
  | .sequence [] => ['[', ']']
  | .sequence (item :: rest) =>
    '[' :: (lineStart (level + 1) ++ (itemTexts (level + 1) (item :: rest) ++
      (lineStart level ++ [']'])))
  | .scalar value _ => scalarText number value
  | .verbatim code => code.toList

def pairTexts (level : Nat) : List (String × Content) → List Char
  | [] => []
  | (key, value) :: rest =>
    (Json.quoted key).toList ++ (':' :: ' ' :: (contentText level value ++ morePairTexts level rest))

/-- The pairs behind the first one, each on a line of its own. -/
def morePairTexts (level : Nat) : List (String × Content) → List Char
  | [] => []
  | (key, value) :: rest =>
    ',' :: (lineStart level ++ ((Json.quoted key).toList ++
      (':' :: ' ' :: (contentText level value ++ morePairTexts level rest))))

def itemTexts (level : Nat) : List Content → List Char
  | [] => []
  | item :: rest => contentText level item ++ moreItemTexts level rest

def moreItemTexts (level : Nat) : List Content → List Char
  | [] => []
  | item :: rest =>
    ',' :: (lineStart level ++ (contentText level item ++ moreItemTexts level rest))

end

end

/-! ## Pieces of the text -/

/-- What can stand directly behind a value: nothing, a comma or a line break. -/
def Stops (rest : List Char) : Prop := ∀ c ∈ rest.head?, c = ',' ∨ c = '\n'

theorem Stops.endsNumber {rest : List Char} (h : Stops rest) : EndsNumber rest := by
  constructor
  · intro c hc
    rcases h c hc with rfl | rfl <;> decide
  · intro hc
    rcases h _ hc with h | h <;> cases h

/-- The text of a number is cut into its pieces. -/
def CutsNumber (number : Double → List Char) (d : Double) : Prop :=
  ∀ {offset : OffsetOf} {rest : List Char} {ps : List Piece}, Stops rest → Cuts offset rest ps →
    Cuts offset (number d ++ rest) (numberPieces d ++ ps)

/-- A code starts with a token that a function can start with. -/
def StartsAsFunction (code : List Char) : Prop :=
  ∀ {rest : List Char}, Stops rest → (∃ c tail, code = c :: tail ∧ startsLexeme c = true) ∧
    ∀ offset, ∃ kind inner, startsFunction kind = true ∧
      ∀ atStart, cutToken offset atStart (code ++ rest) = ⟨kind, inner, []⟩

def Cuttable (number : Double → List Char) : Content → Prop :=
  Content.Every (fun value => ∀ d, value = .number d → CutsNumber number d)
    (fun code => StartsAsFunction code.toList)

section

variable {number : Double → List Char} {offset : OffsetOf} {rest : List Char} {ps : List Piece}

theorem Cuts.bracket {c : Char} (hc : c ∈ brackets) (h : Cuts offset rest ps) :
    Cuts offset (c :: rest) (.punctuator (String.ofList [c]) :: ps) :=
  (isLexeme_bracket hc).cuts h

theorem Cuts.lineStart (level : Nat) (h : Cuts offset rest ps) :
    Cuts offset (lineStart level ++ rest) ps :=
  (h.blanks fun _ hc => .inl (List.eq_of_mem_replicate hc)).blank (.inr rfl)

theorem stops_lineStart (level : Nat) (rest : List Char) : Stops (lineStart level ++ rest) := by
  rintro c ⟨⟩
  exact .inr rfl

theorem cuts_scalarText {value : ScalarValue}
    (hnumber : ∀ d, value = .number d → CutsNumber number d) (hrest : Stops rest)
    (h : Cuts offset rest ps) :
    Cuts offset (scalarText number value ++ rest) (scalarPieces value ++ ps) := by
  cases value with
  | string text => exact (isLexeme_quoted text).cuts h
  | number d => exact hnumber d rfl hrest h
  | bool b => cases b <;> exact (isLexeme_word (by decide) hrest.endsNumber.1).cuts h
  | null => exact (isLexeme_word (by decide) hrest.endsNumber.1).cuts h

theorem cuts_code {code : List Char} (hcode : StartsAsFunction code) (hrest : Stops rest)
    (h : Cuts offset rest ps) : Cuts offset (code ++ rest) (.code code :: ps) := by
  obtain ⟨⟨c, tail, rfl, hc⟩, hcut⟩ := hcode hrest
  obtain ⟨kind, inner, hstarts, hcut⟩ := hcut offset
  exact .code (leads_lexeme hc) hcut hstarts (List.cons_ne_nil c tail) h

theorem stops_morePairTexts (level : Nat) (pairs : List (String × Content)) (h : Stops rest) :
    Stops (morePairTexts number level pairs ++ rest) := by
  cases pairs with
  | nil => exact h
  | cons pair pairs =>
    rintro c ⟨⟩
    exact .inl rfl

theorem stops_moreItemTexts (level : Nat) (items : List Content) (h : Stops rest) :
    Stops (moreItemTexts number level items ++ rest) := by
  cases items with
  | nil => exact h
  | cons item items =>
    rintro c ⟨⟩
    exact .inl rfl

mutual

/-- The text of a content is cut into the pieces of the content. -/
theorem cuts_contentText : ∀ (c : Content) (level : Nat) {rest : List Char} {ps : List Piece},
    Cuttable number c → Stops rest → Cuts offset rest ps →
    Cuts offset (contentText number level c ++ rest) (contentPieces c ++ ps)
  | .mapping [], _, _, _, _, _, h => .bracket (c := '\x7b') (by decide) (.bracket (c := '\x7d') (by decide) h)
  | .mapping ((key, value) :: pairs), level, rest, ps, hc, hrest, h => by
    cases hc with
    | mapping hvalues =>
    obtain ⟨hvalue, hpairs⟩ := List.forall_mem_cons.1 hvalues
    -- the cuts are put together from the end of the text: the closing bracket, the lines, the opening one
    have hend : Cuts offset ('\x7d' :: rest) (.punctuator "\x7d" :: ps) :=
      .bracket (c := '\x7d') (by decide) h
    have hmore := cuts_morePairTexts pairs (level + 1) hpairs (stops_lineStart level _) (hend.lineStart level)
    have hfirst := cuts_pair key value (level + 1) hvalue
      (stops_morePairTexts (level + 1) pairs (stops_lineStart level _)) hmore
    have hall := Cuts.bracket (c := '\x7b') (by decide) (hfirst.lineStart (level + 1))
    simpa [contentText, pairTexts, contentPieces, pairPieces] using hall
  | .sequence [], _, _, _, _, _, h => .bracket (c := '[') (by decide) (.bracket (c := ']') (by decide) h)
  | .sequence (item :: items), level, rest, ps, hc, hrest, h => by
    cases hc with
    | sequence hvalues =>
    obtain ⟨hitem, hitems⟩ := List.forall_mem_cons.1 hvalues
    have hend : Cuts offset (']' :: rest) (.punctuator "]" :: ps) := .bracket (c := ']') (by decide) h
    have hmore := cuts_moreItemTexts items (level + 1) hitems (stops_lineStart level _) (hend.lineStart level)
    have hfirst := cuts_contentText item (level + 1) hitem
      (stops_moreItemTexts (level + 1) items (stops_lineStart level _)) hmore
    have hall := Cuts.bracket (c := '[') (by decide) (hfirst.lineStart (level + 1))
    simpa [contentText, itemTexts, contentPieces, itemPieces] using hall
  | .scalar value _, _, _, _, hc, hrest, h => by
    cases hc with
    | scalar hnumber => exact cuts_scalarText hnumber hrest h
  | .verbatim code, _, _, _, hc, hrest, h => by
    cases hc with
    | verbatim hcode => exact cuts_code hcode hrest h

theorem cuts_pair : ∀ (key : String) (value : Content) (level : Nat) {rest : List Char} {ps : List Piece},
    Cuttable number value → Stops rest → Cuts offset rest ps →
    Cuts offset ((Json.quoted key).toList ++ ':' :: ' ' :: (contentText number level value ++ rest))
      (.token (.string key) :: .punctuator ":" :: (contentPieces value ++ ps))
  | key, value, level, _, _, hvalue, hrest, h =>
    (isLexeme_quoted key).cuts (.bracket (c := ':') (by decide)
      ((cuts_contentText value level hvalue hrest h).blank (.inl rfl)))

theorem cuts_morePairTexts : ∀ (pairs : List (String × Content)) (level : Nat) {rest : List Char}
    {ps : List Piece}, (∀ pair ∈ pairs, Cuttable number pair.2) → Stops rest → Cuts offset rest ps →
    Cuts offset (morePairTexts number level pairs ++ rest) (morePairPieces pairs ++ ps)
  | [], _, _, _, _, _, h => h
  | (key, value) :: pairs, level, rest, ps, hall, hrest, h => by
    obtain ⟨hvalue, hpairs⟩ := List.forall_mem_cons.1 hall
    have hmore := cuts_morePairTexts pairs level hpairs hrest h
    have hfirst := cuts_pair key value level hvalue (stops_morePairTexts level pairs hrest) hmore
    have hcomma := Cuts.bracket (c := ',') (by decide) (hfirst.lineStart level)
    simpa [morePairTexts, morePairPieces] using hcomma

theorem cuts_moreItemTexts : ∀ (items : List Content) (level : Nat) {rest : List Char} {ps : List Piece},
    (∀ item ∈ items, Cuttable number item) → Stops rest → Cuts offset rest ps →
    Cuts offset (moreItemTexts number level items ++ rest) (moreItemPieces items ++ ps)
  | [], _, _, _, _, _, h => h
  | item :: items, level, rest, ps, hall, hrest, h => by
    obtain ⟨hitem, hitems⟩ := List.forall_mem_cons.1 hall
    have hmore := cuts_moreItemTexts items level hitems hrest h
    have hfirst := cuts_contentText item level hitem (stops_moreItemTexts level items hrest) hmore
    have hcomma := Cuts.bracket (c := ',') (by decide) (hfirst.lineStart level)
    simpa [moreItemTexts, moreItemPieces] using hcomma

end

end

end MessageCatalog.Script
