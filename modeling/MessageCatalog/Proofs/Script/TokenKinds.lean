/-
The names in a text: a text is cut into its tokens one after the other, and a name among them is bound
if it stands behind a colon, as in a pattern that takes an object apart, and otherwise used. The names
of a composed text are those of its parts, which are words and strings that end where they are put.
-/
import MessageCatalog.Proofs.Script.NumberText

namespace MessageCatalog.Script

open MessageCatalog.Text

/-! ## The tokens of a text -/

/-- The kinds of the tokens up to the end of a text, with strings as single tokens. -/
def kindsFrom (offset : OffsetOf) : Nat → List Char → List TokenKind
  | 0, _ => []
  | fuel + 1, cs =>
    let (t, rest, _) := nextToken offset cs
    if t.text = [] then [] else t.kind :: kindsFrom offset fuel rest

def tokenKinds (text : List Char) : List TokenKind :=
  kindsFrom (offsetIn (byteLength text)) (text.length + 1) text

theorem Cuts.kindsFrom {offset : OffsetOf} {kinds : List TokenKind} : ∀ {cs : List Char} {fuel : Nat},
    Cuts offset cs (kinds.map .token) → kinds.length < fuel → Script.kindsFrom offset fuel cs = kinds := by
  induction kinds with
  | nil =>
    rintro cs (_ | fuel) (leads | _) hfuel
    · cases hfuel
    · obtain ⟨newLine, atStart, hnext⟩ := leads.nextToken offset
      simp [Script.kindsFrom, hnext]
  | cons kind kinds ih =>
    rintro cs (_ | fuel) (_ | ⟨leads, cut, shorter, behind⟩) hfuel
    · cases hfuel
    · obtain ⟨newLine, atStart, hnext⟩ := leads.nextToken offset
      have hne := List.ne_nil_of_length_pos (Nat.zero_lt_of_lt shorter)
      rw [cut] at hnext
      simp [Script.kindsFrom, hnext, hne, ih behind (Nat.lt_of_succ_lt_succ hfuel)]

/-- A text that is cut into kinds of token, whatever the rest behind it is cut into. -/
def Lexes (text : List Char) (kinds : List TokenKind) (rest : List Char) : Prop :=
  ∀ (offset : OffsetOf) (ps : List Piece), Cuts offset rest ps →
    Cuts offset (text ++ rest) (kinds.map .token ++ ps)

section

variable {text more rest : List Char} {kind : TokenKind} {kinds others : List TokenKind}

theorem IsLexeme.lexes (h : IsLexeme text kind rest) : Lexes text [kind] rest := fun _ _ => h.cuts

theorem Lexes.nil : Lexes [] [] rest := fun _ _ behind => behind

theorem Lexes.blank : Lexes [' '] [] rest := fun _ _ behind => behind.blank (.inl rfl)

theorem Lexes.append (h : Lexes text kinds (more ++ rest)) (h' : Lexes more others rest) :
    Lexes (text ++ more) (kinds ++ others) rest := by
  intro offset ps behind
  rw [List.append_assoc, List.map_append, List.append_assoc]
  exact h offset _ (h' offset ps behind)

theorem Lexes.tokenKinds (h : Lexes text kinds []) : tokenKinds text = kinds := by
  have hcuts : Cuts (offsetIn (byteLength text)) text (kinds.map .token) := by
    simpa using h _ [] cuts_nil
  have hlength := hcuts.length_le
  rw [List.length_map] at hlength
  exact hcuts.kindsFrom (Nat.lt_succ_of_le hlength)

/-- The digits of a number are one token. -/
theorem lexes_number (n : Nat) (hrest : EndsNumber rest) :
    ∃ value, Lexes (toString n).toList [.number value] rest := by
  have hleading : (toString n).toList = ['0'] ∨ '0' ∉ (toString n).toList.head? := by
    rcases Nat.eq_zero_or_pos n with rfl | hn
    · exact .inl rfl
    · rw [toList_toString]
      exact .inr (zero_not_mem_head?_toDigits n hn)
  have hproper : Numeral.Proper ⟨(toString n).toList, none, none⟩ :=
    ⟨isDigits_toString n, hleading, nofun, nofun⟩
  have hlexeme := isLexeme_numeral hproper hrest
  rw [show Numeral.text ⟨(toString n).toList, none, none⟩ = (toString n).toList from List.append_nil _]
    at hlexeme
  exact ⟨_, hlexeme.lexes⟩

end

/-! ## Phrases -/

/-- A part of a phrase: a blank, or a token that is written as it is called. -/
inductive Word where
  | blank
  | name (text : String)
  | punctuator (text : String)

namespace Word

def text : Word → List Char
  | blank => [' ']
  | name text | punctuator text => text.toList

def kinds : Word → List TokenKind
  | blank => []
  | name text => [.name text]
  | punctuator text => [.punctuator text]

/-- Whether a word ends in front of a character, or whatever comes. -/
def fits : Word → Option Char → Bool
  | blank, _ => true
  | name text, next => isPlainWord text.toList && next.any fun c => !isIdentifierPart c && c != '\\'
  | punctuator text, next =>
    text = "=>" || brackets.any (text.toList = [·]) ||
      (text = "=" && next.any fun c => c != '=' && c != '>') ||
      (text = "." && next.any fun c => c != '.' && !isAsciiDigit c)

end Word

def phraseText (words : List Word) : List Char := words.flatMap Word.text

/-- Whether the words of a phrase end where they are put, the last one in front of `after`. -/
def isPhrase (after : Option Char) : List Word → Bool
  | [] => true
  | word :: words => word.fits ((phraseText words).head?.or after) && isPhrase after words

section

variable {rest : List Char}

theorem Word.lexes (word : Word) {next : Option Char} (h : word.fits next = true)
    (hnext : ∀ c ∈ next, rest.head? = some c) : Lexes word.text word.kinds rest := by
  cases word with
  | blank => exact .blank
  | name text =>
    simp only [fits, Bool.and_eq_true, Option.any_eq_true, Bool.not_eq_true', bne_iff_ne] at h
    obtain ⟨hword, c, hc, hends⟩ := h
    refine (isLexeme_name hword fun d hd => ?_).lexes
    obtain rfl := Option.some.inj ((hnext c hc).symm.trans hd)
    exact hends
  | punctuator text =>
    simp only [fits, Bool.or_eq_true, Bool.and_eq_true, decide_eq_true_eq, List.any_eq_true,
      Option.any_eq_true, Bool.not_eq_true', bne_iff_ne] at h
    rcases h with ((rfl | ⟨c, hc, htext⟩) | ⟨rfl, c, hc, hequals, hangle⟩) | ⟨rfl, c, hc, hdot, hdigit⟩
    · exact (isLexeme_arrow rest).lexes
    · obtain rfl : text = String.ofList [c] := by rw [← htext, String.ofList_toList]
      rw [Word.text, String.toList_ofList]
      exact (isLexeme_bracket hc).lexes
    · obtain ⟨tail, rfl⟩ := List.head?_eq_some_iff.1 (hnext c hc)
      exact (isLexeme_equals hequals hangle).lexes
    · obtain ⟨tail, rfl⟩ := List.head?_eq_some_iff.1 (hnext c hc)
      exact (isLexeme_dot hdot hdigit).lexes

/-- A phrase is cut into its words. -/
theorem lexes_phrase {after : Option Char} {words : List Word} (h : isPhrase after words = true)
    (hafter : ∀ c ∈ after, rest.head? = some c) :
    Lexes (phraseText words) (words.flatMap Word.kinds) rest := by
  induction words with
  | nil => exact .nil
  | cons word words ih =>
    obtain ⟨hword, hwords⟩ := Bool.and_eq_true_iff.1 h
    have hnext : ∀ c ∈ (phraseText words).head?.or after, (phraseText words ++ rest).head? = some c := by
      intro c hc
      rw [List.head?_append]
      rcases Option.or_eq_some_iff.1 hc with hc | ⟨hnone, hc⟩
      · rw [hc, Option.some_or]
      · rw [hnone, Option.none_or, hafter c hc]
    exact (word.lexes hword hnext).append (ih hwords)

end

/-! ## Names -/

/-- A name in a text. -/
inductive Mention where
  | bound (name : String)
  | used (name : String)
  deriving DecidableEq, Repr

namespace Mention

@[simp] def boundIn : List Mention → List String
  | [] => []
  | bound name :: rest => name :: boundIn rest
  | used _ :: rest => boundIn rest

@[simp] def usedIn : List Mention → List String
  | [] => []
  | bound _ :: rest => usedIn rest
  | used name :: rest => name :: usedIn rest

@[simp] theorem boundIn_append (names others : List Mention) :
    boundIn (names ++ others) = boundIn names ++ boundIn others := by
  induction names with
  | nil => rfl
  | cons mention names ih => cases mention <;> simp [ih]

@[simp] theorem usedIn_append (names others : List Mention) :
    usedIn (names ++ others) = usedIn names ++ usedIn others := by
  induction names with
  | nil => rfl
  | cons mention names ih => cases mention <;> simp [ih]

@[simp] theorem boundIn_map_used (names : List String) : boundIn (names.map used) = [] := by
  induction names with
  | nil => rfl
  | cons name names ih => simpa using ih

@[simp] theorem usedIn_map_used (names : List String) : usedIn (names.map used) = names := by
  induction names with
  | nil => rfl
  | cons name names ih => simpa using ih

end Mention

/-- The names among tokens, of which the first may stand behind a colon. -/
def mentionsFrom (colon : Bool) : List TokenKind → List Mention
  | [] => []
  | .name text :: rest => (if colon then .bound text else .used text) :: mentionsFrom false rest
  | .punctuator text :: rest => mentionsFrom (text = ":") rest
  | _ :: rest => mentionsFrom false rest

def mentions (text : List Char) : List Mention := mentionsFrom false (tokenKinds text)

/-- The names behind the colons of a text. -/
def boundNames (text : List Char) : List String := Mention.boundIn (mentions text)

/-- The other names of a text. -/
def usedNames (text : List Char) : List String := Mention.usedIn (mentions text)

/-- A text that ends in front of a rest and has the given names, whatever names stand behind it. -/
def Mentions (text : List Char) (names : List Mention) (rest : List Char) : Prop :=
  ∃ kinds, Lexes text kinds rest ∧
    ∀ more, mentionsFrom false (kinds ++ more) = names ++ mentionsFrom false more

section

variable {text more rest : List Char} {names others : List Mention}

theorem Mentions.nil : Mentions [] [] rest := ⟨[], .nil, fun _ => rfl⟩

theorem Mentions.append (h : Mentions text names (more ++ rest)) (h' : Mentions more others rest) :
    Mentions (text ++ more) (names ++ others) rest := by
  obtain ⟨kinds, hlexes, hnames⟩ := h
  obtain ⟨kinds', hlexes', hnames'⟩ := h'
  refine ⟨kinds ++ kinds', hlexes.append hlexes', fun tokens => ?_⟩
  rw [List.append_assoc, hnames, hnames', List.append_assoc]

theorem Mentions.mentions_eq (h : Mentions text names []) : mentions text = names := by
  obtain ⟨kinds, hlexes, hnames⟩ := h
  have hall := hnames []
  rw [List.append_nil, mentionsFrom, List.append_nil] at hall
  rw [mentions, hlexes.tokenKinds, hall]

theorem mentions_quoted (value : String) : Mentions (Json.quoted value).toList [] rest :=
  ⟨_, (isLexeme_quoted value).lexes, fun _ => rfl⟩

theorem mentions_number (n : Nat) (hrest : EndsNumber rest) : Mentions (toString n).toList [] rest := by
  obtain ⟨value, hlexes⟩ := lexes_number n hrest
  exact ⟨_, hlexes, fun _ => rfl⟩

theorem mentions_phrase {after : Option Char} (words : List Word) (htext : text = phraseText words)
    (h : isPhrase after words = true) (hafter : ∀ c ∈ after, rest.head? = some c)
    (hnames : ∀ more, mentionsFrom false (words.flatMap Word.kinds ++ more) =
      names ++ mentionsFrom false more) : Mentions text names rest :=
  htext ▸ ⟨_, lexes_phrase h hafter, hnames⟩

/-- A phrase that ends wherever it is put. -/
theorem mentions_words (words : List Word) (htext : text = phraseText words)
    (h : isPhrase none words = true) (hnames : ∀ more,
      mentionsFrom false (words.flatMap Word.kinds ++ more) = names ++ mentionsFrom false more) :
    Mentions text names rest :=
  mentions_phrase words htext h (fun _ hc => absurd hc (Option.not_mem_none _)) hnames

end

end MessageCatalog.Script
