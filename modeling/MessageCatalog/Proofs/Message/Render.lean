/-
Writing messages. `render` writes plural cases in the syntax that is parsed, `WellFormed` says which
cases can be written, and every placeholder and linked message that is written is read back.
-/
import Mathlib.Data.List.Chain
import MessageCatalog.Message.Parser
import MessageCatalog.Proofs.Text.CharClass

namespace MessageCatalog.Message

open MessageCatalog.Text

/-! ## Rendering -/

/-- The text of a literal between its quotes. -/
def escapeLiteral : List Char → List Char
  | [] => []
  | c :: cs => if c = '\\' ∨ c = '\'' then '\\' :: c :: escapeLiteral cs else c :: escapeLiteral cs

def Part.render : Part → List Char
  | .text s => s
  | .named name => '\x7b' :: (name ++ ['\x7d'])
  | .list index => '\x7b' :: ((toString index).toList ++ ['\x7d'])
  | .literal s => '\x7b' :: '\'' :: (escapeLiteral s ++ ['\'', '\x7d'])
  | .linked key none => '@' :: ':' :: '(' :: (key ++ [')'])
  | .linked key (some modifier) => '@' :: '.' :: (modifier ++ ':' :: '(' :: (key ++ [')']))

def renderCase (case : Case) : List Char := case.flatMap (·.part.render)

/-- A message that has the cases. -/
def render (cases : List Case) : List Char := ['|'].intercalate (cases.map renderCase)

/-! ## Cases that can be written -/

/-- A linked message starts here: `@:`, or `@.` with letters and a colon behind them. -/
def LinkStarts (cs : List Char) : Prop :=
  (∃ rest, cs = '@' :: ':' :: rest) ∨
    ∃ letters rest, cs = '@' :: '.' :: (letters ++ ':' :: rest) ∧ letters ≠ [] ∧
      ∀ c ∈ letters, isAsciiAlpha c = true

def Part.isText : Part → Bool
  | .text _ => true
  | _ => false

/-- A part that can be written. -/
def Part.WellFormed : Part → Prop
  | .text s => s ≠ [] ∧ '\x7b' ∉ s ∧ '|' ∉ s ∧ ∀ cs, cs <:+ s → ¬ LinkStarts cs
  | .named name => isName name = true
  | .list index => index ≤ maxListIndex
  | .literal s => '\n' ∉ s
  | .linked key modifier =>
    key ≠ [] ∧ trim key = key ∧ ')' ∉ key ∧
      ∀ letters ∈ modifier, letters ≠ [] ∧ ∀ c ∈ letters, isAsciiAlpha c = true

/-- Items that can stand in one case: no text follows a text. -/
structure Case.WellFormed (case : Case) : Prop where
  parts : ∀ item ∈ case, item.part.WellFormed
  apart : case.IsChain fun a b => ¬ (a.part.isText = true ∧ b.part.isText = true)

/-- No blank at the start of a case. -/
def Case.StartsFlush (case : Case) : Prop :=
  ∀ item ∈ case.head?, ∀ s, item.part = .text s → ∀ c ∈ s.head?, isBlank c = false

/-- No blank at the end of a case. -/
def Case.EndsFlush (case : Case) : Prop :=
  ∀ item ∈ case.getLast?, ∀ s, item.part = .text s → ∀ c ∈ s.getLast?, isBlank c = false

/-- Cases that can be written: flush with the bars between them. -/
structure WellFormed (cases : List Case) : Prop where
  nonempty : cases ≠ []
  each : ∀ case ∈ cases, Case.WellFormed case
  starts : ∀ case ∈ cases.tail, Case.StartsFlush case
  ends : ∀ case ∈ cases.dropLast, Case.EndsFlush case

/-! ## Links -/

theorem linkHead?_letters {letters : List Char} (hne : letters ≠ [])
    (h : ∀ c ∈ letters, isAsciiAlpha c = true) (rest : List Char) :
    linkHead? ('.' :: (letters ++ ':' :: rest)) = some (some letters, rest) := by
  obtain ⟨htake, hdrop⟩ := takeWhile_run_cons h (by decide : isAsciiAlpha ':' = false) rest
  cases letters with
  | nil => exact absurd rfl hne
  | cons c cs => simp only [linkHead?, htake, hdrop]

theorem linkHead?_some {cs rest : List Char} {modifier : Option (List Char)}
    (h : linkHead? cs = some (modifier, rest)) :
    (modifier = none ∧ cs = ':' :: rest) ∨
      ∃ letters, modifier = some letters ∧ cs = '.' :: (letters ++ ':' :: rest) ∧ letters ≠ [] ∧
        ∀ c ∈ letters, isAsciiAlpha c = true := by
  unfold linkHead? at h
  split at h
  · cases h
    exact .inl ⟨rfl, rfl⟩
  · rename_i tail
    split at h
    · rename_i c letters rest' htake hdrop
      cases h
      refine .inr ⟨c :: letters, rfl, ?_, List.cons_ne_nil _ _, ?_⟩
      · rw [← htake, ← hdrop, List.takeWhile_append_dropWhile]
      · rw [← htake]
        exact List.all_eq_true.1 List.all_takeWhile
    · cases h
  · cases h

/-- The head of a link is found where a linked message starts. -/
theorem linkHead?_eq_none {cs : List Char} : linkHead? cs = none ↔ ¬ LinkStarts ('@' :: cs) := by
  constructor
  · rintro h (⟨rest, hcs⟩ | ⟨letters, rest, hcs, hne, hletters⟩)
    · cases hcs
      cases h
    · cases hcs
      rw [linkHead?_letters hne hletters] at h
      cases h
  · intro h
    cases hl : linkHead? cs with
    | none => rfl
    | some head =>
      obtain ⟨modifier, rest⟩ := head
      refine absurd ?_ h
      rcases linkHead?_some hl with ⟨-, rfl⟩ | ⟨letters, -, rfl, hne, hletters⟩
      · exact .inl ⟨rest, rfl⟩
      · exact .inr ⟨letters, rest, rfl, hne, hletters⟩

theorem linkKey_parens {key : List Char} (htrim : trim key = key) (hclose : ')' ∉ key)
    (rest : List Char) : linkKey ('(' :: (key ++ ')' :: rest)) = .ok (key, rest) := by
  have h : ∀ c ∈ key, decide (c ≠ ')') = true := fun c hc =>
    decide_eq_true fun he => hclose (he ▸ hc)
  obtain ⟨htake, hdrop⟩ := takeWhile_run_cons h (by decide : decide (')' ≠ ')') = false) rest
  simp only [linkKey, htake, hdrop, htrim]

theorem linked_parens {key : List Char} (hne : key ≠ []) (htrim : trim key = key)
    (hclose : ')' ∉ key) (opening : Nat) (modifier : Option (List Char)) (rest : List Char) :
    linked opening modifier ('(' :: (key ++ ')' :: rest)) = .ok (.linked key modifier, rest) := by
  simp only [linked, linkKey_parens htrim hclose, if_neg hne]

/-! ## Placeholders -/

theorem quotedLiteral_escape {s : List Char} (h : '\n' ∉ s) (rest : List Char) :
    quotedLiteral (escapeLiteral s ++ '\'' :: rest) = some (s, rest) := by
  induction s with
  | nil => rfl
  | cons c s ih =>
    have hc : c ≠ '\n' := fun he => h (he ▸ List.mem_cons_self)
    have ih := ih fun hs => h (List.mem_cons_of_mem _ hs)
    unfold escapeLiteral
    split
    · rename_i hesc
      rcases hesc with rfl | rfl
      · simp only [List.cons_append, quotedLiteral, ih, Option.map_some]
      · simp only [List.cons_append, quotedLiteral, ih, Option.map_some]
    · rename_i hesc
      obtain ⟨hback, hquote⟩ := not_or.1 hesc
      rw [List.cons_append, quotedLiteral, ih]
      · rfl
      · exact hquote
      · exact hc
      · exact fun r hr => absurd hr hback
      · exact fun r hr => absurd hr hback

theorem placeholder_literal {s : List Char} (h : '\n' ∉ s) (opening : Nat) (rest : List Char) :
    placeholder opening ('\'' :: (escapeLiteral s ++ '\'' :: '\x7d' :: rest)) =
      .ok (.literal s, rest) := by
  have hstart : ('\'' :: (escapeLiteral s ++ '\'' :: '\x7d' :: rest)).dropWhile isBlank =
      '\'' :: (escapeLiteral s ++ '\'' :: '\x7d' :: rest) :=
    List.dropWhile_cons_of_neg (by decide)
  have hend : ('\x7d' :: rest).dropWhile isBlank = '\x7d' :: rest :=
    List.dropWhile_cons_of_neg (by decide)
  simp only [placeholder, hstart, quotedLiteral_escape h, hend]

/-- What stands between braces without a quote, a blank or a brace of its own. -/
theorem placeholder_bare {content : List Char} {part : Part} (hne : content ≠ [])
    (hblank : ∀ c ∈ content, isBlank c = false) (hbrace : ∀ c ∈ content, isBrace c = false)
    (hquote : ∀ c ∈ content, c ≠ '\'') (hpart : placeholderPart content = .ok part)
    (opening : Nat) (rest : List Char) :
    placeholder opening (content ++ '\x7d' :: rest) = .ok (part, rest) := by
  obtain ⟨c, cs, rfl⟩ := List.exists_cons_of_ne_nil hne
  have hstart : (c :: cs ++ '\x7d' :: rest).dropWhile isBlank = c :: cs ++ '\x7d' :: rest :=
    List.dropWhile_cons_of_neg (by rw [hblank c List.mem_cons_self]; exact Bool.false_ne_true)
  have hinside : ∀ d ∈ c :: cs, (!isBrace d) = true := fun d hd => by rw [hbrace d hd]; rfl
  obtain ⟨htake, hdrop⟩ := takeWhile_run_cons hinside (by decide : (!isBrace '\x7d') = false) rest
  unfold placeholder
  rw [hstart]
  split
  · rename_i r hr
    exact absurd (List.cons.inj hr).1 (hquote c List.mem_cons_self)
  · simp only [htake, hdrop, trim_eq_self hblank, hpart]

/-! ## Names and indices -/

theorem isNamePart_not_blank {c : Char} (h : isNamePart c = true) : isBlank c = false :=
  not_blank_of (by decide) h

theorem isNamePart_not_brace {c : Char} (h : isNamePart c = true) : isBrace c = false := by
  cases hb : isBrace c with
  | false => rfl
  | true =>
    simp only [isBrace, Bool.or_eq_true, decide_eq_true_eq] at hb
    rcases hb with rfl | rfl <;> exact absurd h (by decide)

theorem isNamePart_not_quote {c : Char} (h : isNamePart c = true) : c ≠ '\'' := by
  rintro rfl
  exact absurd h (by decide)

theorem isNamePart_of_digit {c : Char} (h : isAsciiDigit c = true) : isNamePart c = true := by
  rw [isNamePart, h, Bool.or_true, Bool.true_or]

theorem isNameStart_not_digit {c : Char} (h : isNameStart c = true) : isAsciiDigit c = false := by
  cases hd : isAsciiDigit c with
  | false => rfl
  | true =>
    simp only [isAsciiDigit, isNameStart, isAsciiAlpha, Bool.or_eq_true, Bool.and_eq_true,
      decide_eq_true_eq, Char.le_def, UInt32.le_iff_toNat_le] at h hd
    rcases h with ((⟨h1, h2⟩ | ⟨h1, h2⟩) | rfl) | rfl
    · exact absurd (h1.trans hd.2) (by decide)
    · exact absurd (h1.trans hd.2) (by decide)
    · exact absurd hd.2 (by decide)
    · exact absurd hd.1 (by decide)

theorem isName_start {name : List Char} (h : isName name = true) :
    ∃ c cs, name = c :: cs ∧ isNameStart c = true := by
  cases name with
  | nil => cases h
  | cons c cs => exact ⟨c, cs, rfl, (Bool.and_eq_true_iff.1 h).1⟩

theorem isName_parts {name : List Char} (h : isName name = true) :
    ∀ c ∈ name, isNamePart c = true := by
  cases name with
  | nil => cases h
  | cons c cs =>
    obtain ⟨hstart, hparts⟩ := Bool.and_eq_true_iff.1 h
    intro d hd
    rcases List.mem_cons.1 hd with rfl | hd
    · rw [isNamePart, hstart, Bool.true_or, Bool.true_or]
    · exact List.all_eq_true.1 hparts d hd

/-- Name characters between braces are read as what they stand for. -/
theorem placeholder_parts {content : List Char} {part : Part} (hne : content ≠ [])
    (h : ∀ c ∈ content, isNamePart c = true) (hpart : placeholderPart content = .ok part)
    (opening : Nat) (rest : List Char) :
    placeholder opening (content ++ '\x7d' :: rest) = .ok (part, rest) :=
  placeholder_bare hne (fun c hc => isNamePart_not_blank (h c hc))
    (fun c hc => isNamePart_not_brace (h c hc)) (fun c hc => isNamePart_not_quote (h c hc)) hpart
    opening rest

theorem placeholder_named {name : List Char} (h : isName name = true) (opening : Nat)
    (rest : List Char) : placeholder opening (name ++ '\x7d' :: rest) = .ok (.named name, rest) := by
  obtain ⟨c, cs, rfl, hc⟩ := isName_start h
  refine placeholder_parts (List.cons_ne_nil c cs) (isName_parts h) ?_ opening rest
  have hdigits : (c :: cs).all isAsciiDigit = false := by
    rw [List.all_cons, isNameStart_not_digit hc, Bool.false_and]
  simp only [placeholderPart, if_neg (List.cons_ne_nil c cs), hdigits, Bool.false_eq_true,
    if_false, h, if_true]

theorem placeholder_list {index : Nat} (h : index ≤ maxListIndex) (opening : Nat)
    (rest : List Char) :
    placeholder opening ((toString index).toList ++ '\x7d' :: rest) = .ok (.list index, rest) := by
  have hne : (toString index).toList ≠ [] := by
    rw [toList_toString]
    exact Nat.toDigits_ne_nil
  have hdigits : ∀ c ∈ (toString index).toList, isAsciiDigit c = true :=
    fun c hc => isAsciiDigit_of_mem_toString hc
  refine placeholder_parts hne (fun c hc => isNamePart_of_digit (hdigits c hc)) ?_ opening rest
  simp only [placeholderPart, if_neg hne, List.all_eq_true.2 hdigits, if_true,
    digitsValue_toString, if_pos h]

end MessageCatalog.Message
