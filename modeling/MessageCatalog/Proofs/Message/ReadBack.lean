/-
Reading generated functions. The text of a function determines the parts of its cases: one reader
recovers them from the text of any function, whatever the strings in it hold.
-/
import MessageCatalog.Message.Compiler
import MessageCatalog.Proofs.Json.Quoted
import MessageCatalog.Proofs.Message.Sound

namespace MessageCatalog.Message

open MessageCatalog.Text MessageCatalog.Json

/-! ## The reader -/

/-- A string between quotes. -/
def readQuoted? : List Char → Option (List Char × List Char)
  | '"' :: rest => readString? (rest.length + 1) rest
  | _ => none

/-- The modifier of a linked message, up to the end of its call. -/
def readModifier? (cs : List Char) : Option (Option (List Char) × List Char) :=
  match dropWord? "undefined" cs with
  | some rest => some (none, rest)
  | none => (readQuoted? cs).map fun (modifier, rest) => (some modifier, rest)

/-- A part, and the text behind it; a string is a text. -/
def readPart? (cs : List Char) : Option (Part × List Char) :=
  match dropWord? "_interpolate(_named(" cs with
  | some rest => do
    let (name, rest) ← readQuoted? rest
    let rest ← dropWord? "))" rest
    return (.named name, rest)
  | none =>
    match dropWord? "_interpolate(_list(" cs with
    | some rest => do
      let tail ← dropWord? "))" (rest.dropWhile isAsciiDigit)
      return (.list (digitsValue 10 (rest.takeWhile isAsciiDigit)), tail)
    | none =>
      match dropWord? "_linked(" cs with
      | some rest => do
        let (key, rest) ← readQuoted? rest
        let rest ← dropWord? ", " rest
        let (modifier, rest) ← readModifier? rest
        let rest ← dropWord? ", _type)" rest
        return (.linked key modifier, rest)
      | none => (readQuoted? cs).map fun (s, rest) => (.text s, rest)

section

variable {α : Type} (read : List Char → Option (α × List Char))

/-- Entries with commas between them, up to the closing brackets. -/
def readEntries? : Nat → List Char → Option (List α × List Char)
  | 0, _ => none
  | fuel + 1, cs => do
    let (entry, rest) ← read cs
    match dropWord? "])" rest with
    | some rest => return ([entry], rest)
    | none => do
      let rest ← dropWord? ", " rest
      let (entries, rest) ← readEntries? fuel rest
      return (entry :: entries, rest)

/-- The entries of an array behind the text that opens it. -/
def readArray? (opening : String) (cs : List Char) : Option (List α × List Char) := do
  let rest ← dropWord? opening cs
  match dropWord? "])" rest with
  | some rest => return ([], rest)
  | none => readEntries? read rest.length rest

end

def readCase? (cs : List Char) : Option (List Part × List Char) :=
  readArray? readPart? "_normalize([" cs

/-- The cases that a function returns. -/
def readCases? (cs : List Char) : Option (List (List Part) × List Char) :=
  match readArray? readCase? "_plural([" cs with
  | some answer => some answer
  | none => (readCase? cs).map fun (parts, rest) => ([parts], rest)

/-- A function up to its closing brace; its helpers are bound in the first statement. -/
def readBody? (cs : List Char) : Option (List (List Part) × List Char) := do
  let rest ← dropWord? "(ctx) => \x7b" cs
  let rest ← dropWord? ";return " (rest.dropWhile (· ≠ ';'))
  let (cases, rest) ← readCases? rest
  let rest ← dropWord? "\x7d" rest
  return (cases, rest)

/-- The message behind a function of development, to the end of the text. -/
def readSource? (cs : List Char) : Option (List Char) := do
  let rest ← dropWord? ";fn.source=" cs
  let (source, rest) ← readQuoted? rest
  if rest = ";return fn;\x7d)()".toList then return source else none

/-- The parts of the cases, and the message that a function of development carries. -/
def readFunction? (cs : List Char) : Option (List (List Part) × Option (List Char)) :=
  match dropWord? "(()=>\x7bconst fn=" cs with
  | some rest => do
    let (cases, rest) ← readBody? rest
    let source ← readSource? rest
    return (cases, some source)
  | none => do
    let (cases, rest) ← readBody? cs
    if rest = [] then return (cases, none) else none

/-! ## Words and strings -/

theorem dropWord?_append (word : String) (rest : List Char) :
    dropWord? word (word.toList ++ rest) = some rest := by
  have hprefix : word.toList.isPrefixOf (word.toList ++ rest) = true :=
    List.isPrefixOf_iff_prefix.2 (List.prefix_append _ _)
  rw [dropWord?, if_pos hprefix, ← String.length_toList, List.drop_left]

theorem readQuoted?_quoted (cs rest : List Char) :
    readQuoted? ((quotedChars cs).toList ++ rest) = some (cs, rest) := by
  have h := readString?_quoted (String.ofList cs) rest
  rw [String.toList_ofList] at h
  rw [quotedChars, toList_quoted, String.toList_ofList, List.cons_append, List.append_assoc]
  exact h

/-- A word that starts with another character than a text. -/
theorem dropWord?_ne {word : String} {c d : Char} {tail : List Char} (hword : word.toList = c :: tail)
    (hne : c ≠ d) (rest : List Char) : dropWord? word (d :: rest) = none := by
  rw [dropWord?, hword, List.isPrefixOf, beq_false_of_ne hne, Bool.false_and]
  rfl

theorem dropWord?_quoted {word : String} {c : Char} {tail : List Char}
    (hword : word.toList = c :: tail) (hne : c ≠ '"') (cs rest : List Char) :
    dropWord? word ((quotedChars cs).toList ++ rest) = none := by
  rw [quotedChars, toList_quoted]
  exact dropWord?_ne hword hne _

/-! ## Parts -/

/-- A part as a function has it: a literal is a text. -/
def Part.spoken : Part → Part
  | .literal s => .text s
  | part => part

theorem readPart?_text (s rest : List Char) :
    readPart? ((quotedChars s).toList ++ rest) = some (.text s, rest) := by
  have hnamed : dropWord? "_interpolate(_named(" ((quotedChars s).toList ++ rest) = none :=
    dropWord?_quoted rfl (by decide) s rest
  have hlist : dropWord? "_interpolate(_list(" ((quotedChars s).toList ++ rest) = none :=
    dropWord?_quoted rfl (by decide) s rest
  have hlinked : dropWord? "_linked(" ((quotedChars s).toList ++ rest) = none :=
    dropWord?_quoted rfl (by decide) s rest
  simp only [readPart?, hnamed, hlist, hlinked, readQuoted?_quoted, Option.map_some]

theorem Part.code_named (name : List Char) :
    (Part.named name).code = "_interpolate(_named(" ++ quotedChars name ++ "))" := rfl

theorem Part.code_list (index : Nat) :
    (Part.list index).code = "_interpolate(_list(" ++ toString index ++ "))" := rfl

theorem Part.code_linked (key : List Char) (modifier : Option (List Char)) :
    (Part.linked key modifier).code = "_linked(" ++ quotedChars key ++ ", " ++
      (modifier.map quotedChars).getD "undefined" ++ ", _type)" := rfl

theorem readPart?_named (name rest : List Char) :
    readPart? ((Part.named name).code.toList ++ rest) = some (.named name, rest) := by
  simp only [Part.code_named, String.toList_append, List.append_assoc, readPart?, dropWord?_append,
    readQuoted?_quoted, Option.bind_eq_bind, Option.bind_some]
  rfl

theorem readPart?_list (index : Nat) (rest : List Char) :
    readPart? ((Part.list index).code.toList ++ rest) = some (.list index, rest) := by
  have hdigits : ∀ c ∈ (toString index).toList, isAsciiDigit c = true :=
    fun c hc => isAsciiDigit_of_mem_toString hc
  have hends : ∀ c ∈ ("))".toList ++ rest).head?, isAsciiDigit c = false := by
    rintro c ⟨⟩
    decide
  obtain ⟨htake, hdrop⟩ := takeWhile_run hdigits hends
  have hnamed (tail : List Char) :
      dropWord? "_interpolate(_named(" ("_interpolate(_list(".toList ++ tail) = none := rfl
  simp only [Part.code_list, String.toList_append, List.append_assoc, readPart?, hnamed,
    dropWord?_append, htake, hdrop, digitsValue_toString, Option.bind_eq_bind, Option.bind_some]
  rfl

theorem readModifier?_code (modifier : Option (List Char)) (rest : List Char) :
    readModifier? (((modifier.map quotedChars).getD "undefined").toList ++ rest) =
      some (modifier, rest) := by
  cases modifier with
  | none => simp only [Option.map_none, Option.getD_none, readModifier?, dropWord?_append]
  | some letters =>
    have hword : dropWord? "undefined" ((quotedChars letters).toList ++ rest) = none :=
      dropWord?_quoted rfl (by decide) letters rest
    simp only [Option.map_some, Option.getD_some, readModifier?, hword, readQuoted?_quoted]

theorem readPart?_linked (key : List Char) (modifier : Option (List Char)) (rest : List Char) :
    readPart? ((Part.linked key modifier).code.toList ++ rest) =
      some (.linked key modifier, rest) := by
  have hnamed (tail : List Char) :
      dropWord? "_interpolate(_named(" ("_linked(".toList ++ tail) = none := rfl
  have hlist (tail : List Char) :
      dropWord? "_interpolate(_list(" ("_linked(".toList ++ tail) = none := rfl
  simp only [Part.code_linked, String.toList_append, List.append_assoc, readPart?, hnamed, hlist,
    dropWord?_append, readQuoted?_quoted, readModifier?_code, Option.bind_eq_bind, Option.bind_some]
  rfl

/-- The code of a part is a string or a call of a helper. -/
theorem Part.code_head (part : Part) :
    ∃ c tail, part.code.toList = c :: tail ∧ (c = '"' ∨ c = '_') := by
  cases part with
  | text s => exact ⟨'"', _, toList_quoted _, Or.inl rfl⟩
  | literal s => exact ⟨'"', _, toList_quoted _, Or.inl rfl⟩
  | named name =>
    simp only [Part.code_named, String.toList_append]
    exact ⟨'_', _, rfl, Or.inr rfl⟩
  | list index =>
    simp only [Part.code_list, String.toList_append]
    exact ⟨'_', _, rfl, Or.inr rfl⟩
  | linked key modifier =>
    simp only [Part.code_linked, String.toList_append]
    exact ⟨'_', _, rfl, Or.inr rfl⟩

theorem readPart?_code (part : Part) (rest : List Char) :
    readPart? (part.code.toList ++ rest) = some (part.spoken, rest) := by
  cases part with
  | text s => exact readPart?_text s rest
  | literal s => exact readPart?_text s rest
  | named name => exact readPart?_named name rest
  | list index => exact readPart?_list index rest
  | linked key modifier => exact readPart?_linked key modifier rest

/-! ## Arrays -/

section

variable {α β : Type} {read : List Char → Option (α × List Char)} {write : β → List Char}
  {view : β → α} (hread : ∀ b rest, read (write b ++ rest) = some (view b, rest))

include hread

theorem readEntries?_write (rest : List Char) : ∀ (entries : List β) (fuel : Nat), entries ≠ [] →
    entries.length ≤ fuel →
    readEntries? read fuel
        (", ".toList.intercalate (entries.map write) ++ ("])".toList ++ rest)) =
      some (entries.map view, rest)
  | [], _, hne, _ => absurd rfl hne
  | b :: bs, 0, _, hfuel => absurd hfuel (Nat.not_succ_le_zero _)
  | [b], fuel + 1, _, _ => by
    rw [List.map_singleton, List.intercalate_singleton, readEntries?, hread]
    simp only [Option.bind_eq_bind, Option.bind_some, dropWord?_append]
    rfl
  | b :: next :: bs, fuel + 1, _, hfuel => by
    have hothers := readEntries?_write rest (next :: bs) fuel (List.cons_ne_nil _ _)
      (Nat.le_of_succ_le_succ hfuel)
    have hclose (tail : List Char) : dropWord? "])" (", ".toList ++ tail) = none := rfl
    rw [List.map_cons, List.map_cons, List.intercalate_cons_cons, List.append_assoc,
      List.append_assoc, readEntries?, hread]
    rw [List.map_cons] at hothers
    simp only [Option.bind_eq_bind, Option.bind_some, hclose, dropWord?_append, hothers]
    rfl

omit hread in
/-- There are fewer entries than characters of their text. -/
theorem length_le_intercalate (tail : List Char) : ∀ entries : List (List Char),
    entries.length ≤ (", ".toList.intercalate entries ++ ("])".toList ++ tail)).length
  | [] => Nat.zero_le _
  | [entry] => by
    have hclose : "])".toList.length = 2 := rfl
    simp only [List.intercalate_singleton, List.length_append, List.length_singleton, hclose]
    omega
  | entry :: next :: rest => by
    have ih := length_le_intercalate tail (next :: rest)
    have hcomma : ", ".toList.length = 2 := rfl
    simp only [List.intercalate_cons_cons, List.length_append, List.length_cons, hcomma] at ih ⊢
    omega

/-- The text of an array. -/
def arrayText (opening : String) (entries : List (List Char)) : List Char :=
  opening.toList ++ (", ".toList.intercalate entries ++ "])".toList)

theorem readArray?_write (hclose : ∀ b rest, dropWord? "])" (write b ++ rest) = none)
    (opening : String) (entries : List β) (rest : List Char) :
    readArray? read opening (arrayText opening (entries.map write) ++ rest) =
      some (entries.map view, rest) := by
  rw [arrayText, List.append_assoc, List.append_assoc, readArray?]
  simp only [dropWord?_append, Option.bind_eq_bind, Option.bind_some]
  cases entries with
  | nil =>
    rw [List.map_nil, List.intercalate_nil, List.nil_append, dropWord?_append]
    rfl
  | cons b bs =>
    have hfirst : dropWord? "])"
        (", ".toList.intercalate ((b :: bs).map write) ++ ("])".toList ++ rest)) = none := by
      cases bs with
      | nil =>
        rw [List.map_singleton, List.intercalate_singleton]
        exact hclose b _
      | cons next bs =>
        rw [List.map_cons, List.map_cons, List.intercalate_cons_cons, List.append_assoc,
          List.append_assoc]
        exact hclose b _
    -- the reader is given as many rounds as there are characters
    have hfuel := length_le_intercalate rest ((b :: bs).map write)
    rw [List.length_map] at hfuel
    simp only [hfirst]
    exact readEntries?_write hread rest (b :: bs) _ (List.cons_ne_nil _ _) hfuel

end

/-! ## Pieces -/

def piecesText (pieces : List Piece) : List Char := pieces.flatMap (·.code.toList)

theorem toList_piecesCode (pieces : List Piece) : (piecesCode pieces).toList = piecesText pieces := by
  rw [piecesCode, String.toList_join, List.flatMap_map, piecesText]

theorem flatMap_intersperse {α β : Type} (f : α → List β) (sep : α) : ∀ l : List α,
    (l.intersperse sep).flatMap f = (f sep).intercalate (l.map f)
  | [] => rfl
  | [a] => by simp
  | a :: b :: l => by
    have ih := flatMap_intersperse f sep (b :: l)
    simp only [List.map_cons, List.intercalate_cons_cons, List.intersperse, List.flatMap_cons] at ih ⊢
    rw [ih, List.append_assoc]

theorem casePieces_text (case : Case) :
    piecesText (casePieces case) =
      arrayText "_normalize([" (case.map fun item => item.part.code.toList) := by
  have hitems : ((case.map Item.piece).intersperse (.plain ", ")).flatMap (·.code.toList) =
      ", ".toList.intercalate (case.map fun item => item.part.code.toList) := by
    rw [flatMap_intersperse, List.map_map]
    rfl
  rw [casePieces, piecesText, List.flatMap_append, List.flatMap_cons, hitems, List.append_assoc]
  rfl

theorem bodyPieces_text {cases : List Case} (h : 1 < cases.length) :
    piecesText (bodyPieces cases) =
      arrayText "_plural([" (cases.map fun case => piecesText (casePieces case)) := by
  have hcases : ((cases.map casePieces).intersperse [.plain ", "]).flatten.flatMap (·.code.toList) =
      ", ".toList.intercalate (cases.map fun case => piecesText (casePieces case)) := by
    rw [List.flatten_eq_flatMap, List.flatMap_assoc]
    refine (flatMap_intersperse piecesText [.plain ", "] (cases.map casePieces)).trans ?_
    rw [List.map_map]
    rfl
  rcases cases with _ | ⟨first, _ | ⟨next, rest⟩⟩
  · exact absurd h (Nat.not_lt_zero _)
  · exact absurd h (Nat.lt_irrefl _)
  · rw [bodyPieces, piecesText, List.flatMap_append, List.flatMap_cons, hcases, List.append_assoc]
    · rfl
    · exact List.cons_ne_nil _ _
    · intro only h
      cases h

/-! ## Functions -/

theorem readCase?_pieces (case : Case) (rest : List Char) :
    readCase? (piecesText (casePieces case) ++ rest) =
      some (case.map (·.part.spoken), rest) := by
  have hclose (item : Item) (rest : List Char) :
      dropWord? "])" (item.part.code.toList ++ rest) = none := by
    obtain ⟨c, tail, hcode, hc⟩ := item.part.code_head
    have hbracket : ']' ≠ c := by
      rcases hc with rfl | rfl <;> decide
    rw [hcode]
    exact dropWord?_ne rfl hbracket _
  rw [casePieces_text]
  exact readArray?_write (fun item rest => readPart?_code item.part rest) hclose _ case rest

theorem readCases?_pieces {cases : List Case} (hne : cases ≠ []) (rest : List Char) :
    readCases? (piecesText (bodyPieces cases) ++ rest) =
      some (cases.map (·.map (·.part.spoken)), rest) := by
  rcases cases with _ | ⟨first, _ | ⟨next, others⟩⟩
  · exact absurd rfl hne
  · have hplural : readArray? readCase? "_plural([" (piecesText (bodyPieces [first]) ++ rest) =
        none := by
      rw [bodyPieces, casePieces_text]
      rfl
    rw [readCases?, hplural, bodyPieces, readCase?_pieces]
    rfl
  · have hclose (case : Case) (rest : List Char) :
        dropWord? "])" (piecesText (casePieces case) ++ rest) = none := by
      rw [casePieces_text]
      rfl
    have hlength : 1 < (first :: next :: others).length := Nat.succ_lt_succ (Nat.succ_pos _)
    rw [bodyPieces_text hlength, readCases?, readArray?_write readCase?_pieces hclose]

theorem mem_of_mem_intercalate {c : Char} {sep : List Char} : ∀ {l : List (List Char)},
    c ∈ sep.intercalate l → c ∈ sep ∨ ∃ cs ∈ l, c ∈ cs
  | [], h => (List.not_mem_nil h).elim
  | [cs], h => by
    rw [List.intercalate_singleton] at h
    exact .inr ⟨cs, List.mem_cons_self, h⟩
  | cs :: next :: l, h => by
    rw [List.intercalate_cons_cons] at h
    rcases List.mem_append.1 h with h | h
    · rcases List.mem_append.1 h with h | h
      · exact .inr ⟨cs, List.mem_cons_self, h⟩
      · exact .inl h
    · rcases mem_of_mem_intercalate h with h | ⟨cs', hcs, hc⟩
      · exact .inl h
      · exact .inr ⟨cs', List.mem_cons_of_mem _ hcs, hc⟩

theorem Helpers.binding_eq (h : Helpers) : ∃ names : List String,
    h.binding = "const \x7b " ++ ", ".intercalate names ++ " \x7d = ctx;" ∧
      ∀ name ∈ names, ';' ∉ name.toList ∧ '\n' ∉ name.toList := by
  refine ⟨_, rfl, fun name hname => ?_⟩
  simp only [List.mem_append, List.mem_ite_nil_right] at hname
  rcases hname with ((((hn | ⟨-, hn⟩) | ⟨-, hn⟩) | ⟨-, hn⟩) | ⟨-, hn⟩) | ⟨-, hn⟩ <;>
    revert name <;> decide

/-- The binding of helpers ends at its first semicolon, and it is on one line. -/
theorem binding_semicolon (h : Helpers) :
    ∃ front, h.binding.toList = front ++ [';'] ∧ ';' ∉ front ∧ '\n' ∉ front := by
  obtain ⟨names, hbinding, hnames⟩ := h.binding_eq
  have hmem : ∀ c ∈ ", ".toList.intercalate (names.map String.toList), c ≠ ';' ∧ c ≠ '\n' := by
    intro c hc
    rcases mem_of_mem_intercalate hc with hc | ⟨cs, hcs, hc⟩
    · have hcomma : c = ',' ∨ c = ' ' := by simpa using hc
      rcases hcomma with rfl | rfl <;> decide
    · obtain ⟨name, hname, rfl⟩ := List.mem_map.1 hcs
      obtain ⟨hsemicolon, hnewline⟩ := hnames name hname
      exact ⟨fun he => hsemicolon (he ▸ hc), fun he => hnewline (he ▸ hc)⟩
  refine ⟨"const \x7b ".toList ++ (", ".toList.intercalate (names.map String.toList) ++
    " \x7d = ctx".toList), ?_, ?_, ?_⟩
  · rw [hbinding]
    simp only [String.toList_append, String.toList_intercalate, List.append_assoc]
    rfl
  · simp only [List.mem_append, not_or]
    exact ⟨by decide, fun h => (hmem _ h).1 rfl, by decide⟩
  · simp only [List.mem_append, not_or]
    exact ⟨by decide, fun h => (hmem _ h).2 rfl, by decide⟩

theorem readBody?_pieces {cases : List Case} (hne : cases ≠ []) (rest : List Char) :
    readBody? ("(ctx) => \x7b".toList ++ ((Helpers.ofCases cases).binding.toList ++
        ("return ".toList ++ (piecesText (bodyPieces cases) ++ ("\x7d".toList ++ rest))))) =
      some (cases.map (·.map (·.part.spoken)), rest) := by
  -- the binding is skipped up to its semicolon, whatever helpers it names
  obtain ⟨front, hbinding, hfront, -⟩ := binding_semicolon (Helpers.ofCases cases)
  have hdrop (tail : List Char) :
      (front ++ [';'] ++ ("return ".toList ++ tail)).dropWhile (· ≠ ';') =
        ";return ".toList ++ tail := by
    rw [List.append_assoc, List.dropWhile_append_of_pos]
    · rfl
    · intro c hc
      exact decide_eq_true fun he => hfront (he ▸ hc)
  rw [hbinding, readBody?]
  simp only [dropWord?_append, hdrop, readCases?_pieces hne, Option.bind_eq_bind, Option.bind_some]
  rfl

/-- The message that a function carries. -/
def carried (source : List Char) : Environment → Option (List Char)
  | .development => some source
  | .production => none

theorem functionPieces_text (cases : List Case) (source : List Char) :
    piecesText (functionPieces cases source .production) =
      "(ctx) => \x7b".toList ++ ((Helpers.ofCases cases).binding.toList ++
        ("return ".toList ++ (piecesText (bodyPieces cases) ++ "\x7d".toList))) := by
  show List.flatMap _ (_ :: _ :: _ :: (bodyPieces cases ++ [_])) = _
  rw [List.flatMap_cons, List.flatMap_cons, List.flatMap_cons, List.flatMap_append,
    List.flatMap_singleton]
  rfl

theorem functionPieces_text_development (cases : List Case) (source : List Char) :
    piecesText (functionPieces cases source .development) =
      "(()=>\x7bconst fn=".toList ++ (piecesText (functionPieces cases source .production) ++
        (";fn.source=".toList ++ ((quotedChars source).toList ++ ";return fn;\x7d)()".toList))) := by
  show List.flatMap _ (_ :: (functionPieces cases source .production ++ [_, _, _])) = _
  rw [List.flatMap_cons, List.flatMap_append, List.flatMap_cons, List.flatMap_cons,
    List.flatMap_singleton]
  rfl

theorem readSource?_text (source : List Char) :
    readSource? (";fn.source=".toList ++
      ((quotedChars source).toList ++ ";return fn;\x7d)()".toList)) = some source := by
  rw [readSource?, dropWord?_append, Option.bind_eq_bind, Option.bind_some, readQuoted?_quoted,
    Option.bind_eq_bind, Option.bind_some]
  exact if_pos rfl

theorem readFunction?_pieces {cases : List Case} (hne : cases ≠ []) (source : List Char)
    (environment : Environment) :
    readFunction? (piecesText (functionPieces cases source environment)) =
      some (cases.map (·.map (·.part.spoken)), carried source environment) := by
  cases environment with
  | production =>
    have hbody := readBody?_pieces hne []
    rw [List.append_nil, ← functionPieces_text cases source] at hbody
    have hword : dropWord? "(()=>\x7bconst fn="
        (piecesText (functionPieces cases source .production)) = none := by
      rw [functionPieces_text]
      rfl
    simp only [readFunction?, hword, hbody, Option.bind_eq_bind, Option.bind_some, if_true]
    rfl
  | development =>
    have hbody (rest : List Char) : readBody?
        (piecesText (functionPieces cases source .production) ++ rest) =
          some (cases.map (·.map (·.part.spoken)), rest) := by
      rw [functionPieces_text]
      simp only [List.append_assoc]
      exact readBody?_pieces hne rest
    rw [functionPieces_text_development, readFunction?, dropWord?_append]
    simp only [hbody, readSource?_text, Option.bind_eq_bind, Option.bind_some]
    rfl

/-! ## Lines -/

theorem newline_not_mem_array {opening : String} {entries : List (List Char)}
    (hopening : '\n' ∉ opening.toList) (h : ∀ cs ∈ entries, '\n' ∉ cs) :
    '\n' ∉ arrayText opening entries := by
  intro hm
  rcases List.mem_append.1 hm with hm | hm
  · exact hopening hm
  rcases List.mem_append.1 hm with hm | hm
  · rcases mem_of_mem_intercalate hm with hm | ⟨cs, hcs, hm⟩
    · exact absurd hm (by decide)
    · exact h cs hcs hm
  · exact absurd hm (by decide)

theorem newline_not_mem_part (part : Part) : '\n' ∉ part.code.toList := by
  cases part with
  | text s => exact newline_not_mem_quoted _
  | literal s => exact newline_not_mem_quoted _
  | named name =>
    simp only [Part.code_named, String.toList_append, List.mem_append, not_or]
    exact ⟨⟨by decide, newline_not_mem_quoted _⟩, by decide⟩
  | list index =>
    simp only [Part.code_list, String.toList_append, List.mem_append, not_or]
    refine ⟨⟨by decide, fun h => ?_⟩, by decide⟩
    exact absurd (isAsciiDigit_of_mem_toString h) (by decide)
  | linked key modifier =>
    have hmodifier : '\n' ∉ ((modifier.map quotedChars).getD "undefined").toList := by
      cases modifier with
      | none => decide
      | some letters => exact newline_not_mem_quoted _
    simp only [Part.code_linked, String.toList_append, List.mem_append, not_or]
    exact ⟨⟨⟨⟨by decide, newline_not_mem_quoted _⟩, by decide⟩, hmodifier⟩, by decide⟩

theorem newline_not_mem_case (case : Case) : '\n' ∉ piecesText (casePieces case) := by
  rw [casePieces_text]
  refine newline_not_mem_array (by decide) fun cs hcs => ?_
  obtain ⟨item, -, rfl⟩ := List.mem_map.1 hcs
  exact newline_not_mem_part item.part

theorem newline_not_mem_body (cases : List Case) : '\n' ∉ piecesText (bodyPieces cases) := by
  rcases cases with _ | ⟨first, _ | ⟨next, others⟩⟩
  · exact List.not_mem_nil
  · exact newline_not_mem_case first
  · have hlength : 1 < (first :: next :: others).length := Nat.succ_lt_succ (Nat.succ_pos _)
    rw [bodyPieces_text hlength]
    refine newline_not_mem_array (by decide) fun cs hcs => ?_
    obtain ⟨case, -, rfl⟩ := List.mem_map.1 hcs
    exact newline_not_mem_case case

/-- A function stays on one line. -/
theorem newline_not_mem_function (cases : List Case) (source : List Char)
    (environment : Environment) :
    '\n' ∉ piecesText (functionPieces cases source environment) := by
  have hfunction : '\n' ∉ piecesText (functionPieces cases source .production) := by
    obtain ⟨front, hbinding, -, hfront⟩ := binding_semicolon (Helpers.ofCases cases)
    rw [functionPieces_text, hbinding]
    simp only [List.mem_append, not_or]
    exact ⟨by decide, ⟨hfront, by decide⟩, by decide, newline_not_mem_body cases, by decide⟩
  cases environment with
  | production => exact hfunction
  | development =>
    rw [functionPieces_text_development]
    simp only [List.mem_append, not_or]
    exact ⟨by decide, hfunction, by decide, newline_not_mem_quoted _, by decide⟩

/-! ## The two forms of a message -/

/--
A message is rejected in both forms or in none. The deferred form is a string of JSON, and the reader
recovers from the function the parts of its cases and the message that it carries; the warnings are
the same, and the function is on one line.
-/
theorem strategies_carry_message (message : String) (options : Options) (path : List String) :
    (∃ e, compile message { options with jit := true } path = .error e ∧
      compile message { options with jit := false } path = .error e) ∨
    ∃ deferred ahead s cases,
      compile message { options with jit := true } path = .ok deferred ∧
      compile message { options with jit := false } path = .ok ahead ∧
      deferred.warnings = ahead.warnings ∧
      read? deferred.code = some (.string s) ∧
      parse s.toList = .ok cases ∧
      readFunction? ahead.code.toList =
        some (cases.map (·.map (·.part.spoken)), carried s.toList options.environment) ∧
      '\n' ∉ ahead.code.toList := by
  cases hprepare : prepare message.toList options with
  | error e =>
    have hcompile (jit : Bool) : compile message { options with jit } path = .error e := by
      show (prepare message.toList options).bind _ = _
      rw [hprepare]
      rfl
    exact .inl ⟨e, hcompile true, hcompile false⟩
  | ok prepared =>
    obtain ⟨source, warnings⟩ := prepared
    cases hparse : parse source with
    | error e =>
      have hcompile (jit : Bool) : compile message { options with jit } path = .error e := by
        show (prepare message.toList options).bind _ = _
        rw [hprepare]
        show (parse source).bind _ = _
        rw [hparse]
        rfl
      exact .inl ⟨e, hcompile true, hcompile false⟩
    | ok cases =>
      have hcompile (jit : Bool) : compile message { options with jit } path =
          (let form := represent cases source { options with jit } path
          .ok ⟨form.1, form.2, warnings⟩) := by
        show (prepare message.toList options).bind _ = _
        rw [hprepare]
        show (parse source).bind _ = _
        rw [hparse]
        rfl
      refine .inr ⟨_, _, String.ofList source, cases, hcompile true, hcompile false, rfl, ?_, ?_, ?_,
        ?_⟩
      · exact read?_quoted _
      · rwa [String.toList_ofList]
      · rw [String.toList_ofList]
        exact (congrArg readFunction? (toList_piecesCode _)).trans
          (readFunction?_pieces (parse_wellFormed hparse).nonempty source options.environment)
      · exact fun h => newline_not_mem_function cases source options.environment
          (toList_piecesCode _ ▸ h)

end MessageCatalog.Message
