/-
The helpers that a generated function binds. They are collected in one pass over the cases and called
by the code that another pass writes; the two agree, so a function finds every helper that it calls and
binds none in vain. What a function calls is read off its text: the names among its tokens, so that
what its strings hold does not count.
-/
import MessageCatalog.Proofs.Message.ReadBack
import MessageCatalog.Proofs.Script.TokenKinds

namespace MessageCatalog.Message

open MessageCatalog.Script

section

variable {rest : List Char}

theorem mentions_quotedChars (cs : List Char) : Mentions (quotedChars cs).toList [] rest :=
  mentions_quoted _

/-! ## Names of a part -/

/-- The names that the code of a part uses. -/
def Part.names : Part → List String
  | .text _ | .literal _ => []
  | .named _ => ["_interpolate", "_named"]
  | .list _ => ["_interpolate", "_list"]
  | .linked _ none => ["_linked", "undefined", "_type"]
  | .linked _ (some _) => ["_linked", "_type"]

theorem mentions_closing : Mentions "))".toList [] rest :=
  mentions_words [.punctuator ")", .punctuator ")"] rfl (by decide) fun _ => rfl

theorem mentions_comma : Mentions ", ".toList [] rest :=
  mentions_words [.punctuator ",", .blank] rfl (by decide) fun _ => rfl

theorem mentions_named (name : List Char) :
    Mentions (Part.named name).code.toList [.used "_interpolate", .used "_named"] rest := by
  have hopening (rest : List Char) :
      Mentions "_interpolate(_named(".toList [.used "_interpolate", .used "_named"] rest :=
    mentions_words [.name "_interpolate", .punctuator "(", .name "_named", .punctuator "("]
      rfl (by decide) fun _ => rfl
  rw [Part.code_named, String.toList_append, String.toList_append, List.append_assoc]
  exact (hopening _).append ((mentions_quotedChars name).append mentions_closing)

theorem mentions_list (index : Nat) :
    Mentions (Part.list index).code.toList [.used "_interpolate", .used "_list"] rest := by
  have hopening (rest : List Char) :
      Mentions "_interpolate(_list(".toList [.used "_interpolate", .used "_list"] rest :=
    mentions_words [.name "_interpolate", .punctuator "(", .name "_list", .punctuator "("]
      rfl (by decide) fun _ => rfl
  have hends : EndsNumber ("))".toList ++ rest) := by
    refine ⟨fun c hc => ?_, nofun⟩
    cases hc
    decide
  rw [Part.code_list, String.toList_append, String.toList_append, List.append_assoc]
  exact (hopening _).append ((mentions_number index hends).append mentions_closing)

theorem mentions_linked (key : List Char) (modifier : Option (List Char)) :
    Mentions (Part.linked key modifier).code.toList ((Part.linked key modifier).names.map .used) rest := by
  have hopening (rest : List Char) : Mentions "_linked(".toList [.used "_linked"] rest :=
    mentions_words [.name "_linked", .punctuator "("] rfl (by decide) fun _ => rfl
  have htype : Mentions ", _type)".toList [.used "_type"] rest :=
    mentions_words [.punctuator ",", .blank, .name "_type", .punctuator ")"]
      rfl (by decide) fun _ => rfl
  have hfront {more : List Char} {names : List Mention} (h : Mentions more names rest) :
      Mentions ("_linked(".toList ++ ((quotedChars key).toList ++ (", ".toList ++ more)))
        (.used "_linked" :: names) rest :=
    (hopening _).append ((mentions_quotedChars key).append (mentions_comma.append h))
  simp only [Part.code_linked, String.toList_append, List.append_assoc]
  cases modifier with
  | some letters => exact hfront ((mentions_quotedChars letters).append htype)
  | none =>
    have hphrase : isPhrase (some ',') [.name "undefined"] = true := by decide
    have hundefined : Mentions "undefined".toList [.used "undefined"] (", _type)".toList ++ rest) :=
      mentions_phrase [.name "undefined"] rfl hphrase (fun _ h => h) fun _ => rfl
    exact hfront (hundefined.append htype)

theorem mentions_part (part : Part) : Mentions part.code.toList (part.names.map .used) rest := by
  cases part with
  | text s => exact mentions_quotedChars s
  | literal s => exact mentions_quotedChars s
  | named name => exact mentions_named name
  | list index => exact mentions_list index
  | linked key modifier => exact mentions_linked key modifier

/-! ## Names of the cases -/

section

variable {β : Type} {write : β → List Char} {names : β → List Mention}

/-- Entries that each end in front of a comma and of the rest. -/
theorem mentions_intercalate (ends : List Char → Prop) (hcomma : ∀ rest, ends (", ".toList ++ rest))
    {entries : List β} (hwrite : ∀ b ∈ entries, ∀ rest, ends rest → Mentions (write b) (names b) rest)
    (hrest : ends rest) :
    Mentions (", ".toList.intercalate (entries.map write)) (entries.flatMap names) rest := by
  induction entries with
  | nil => exact .nil
  | cons b entries ih =>
    obtain ⟨hb, hentries⟩ := List.forall_mem_cons.1 hwrite
    cases entries with
    | nil => simpa using hb rest hrest
    | cons c entries =>
      have hends : ends (", ".toList ++ ", ".toList.intercalate ((c :: entries).map write) ++ rest) := by
        rw [List.append_assoc]
        exact hcomma _
      rw [List.map_cons, List.map_cons, List.intercalate_cons_cons, List.append_assoc]
      exact (hb _ hends).append (mentions_comma.append (ih hentries))

theorem mentions_array {opening : String} {front : List Mention}
    (hopening : ∀ rest, Mentions opening.toList front rest)
    (hwrite : ∀ b rest, Mentions (write b) (names b) rest) (entries : List β) :
    Mentions (arrayText opening (entries.map write)) (front ++ entries.flatMap names) rest := by
  have hclosing : Mentions "])".toList [] rest :=
    mentions_words [.punctuator "]", .punctuator ")"] rfl (by decide) fun _ => rfl
  have hentries (rest : List Char) :
      Mentions (", ".toList.intercalate (entries.map write)) (entries.flatMap names) rest :=
    mentions_intercalate (fun _ => True) (fun _ => trivial) (fun b _ rest _ => hwrite b rest) trivial
  have h := (hopening _).append ((hentries _).append hclosing)
  rwa [List.append_nil] at h

end

def caseNames (case : Case) : List String := "_normalize" :: case.flatMap (·.part.names)

/-- The names that the code behind the binding uses. -/
def bodyNames (cases : List Case) : List String :=
  (if 1 < cases.length then ["_plural"] else []) ++ cases.flatMap caseNames

theorem mentions_case (case : Case) :
    Mentions (piecesText (casePieces case)) ((caseNames case).map .used) rest := by
  have hopening (rest : List Char) : Mentions "_normalize([".toList [.used "_normalize"] rest :=
    mentions_words [.name "_normalize", .punctuator "(", .punctuator "["]
      rfl (by decide) fun _ => rfl
  rw [casePieces_text, caseNames, List.map_cons, List.map_flatMap]
  exact mentions_array hopening (fun item _ => mentions_part item.part) case

theorem mentions_body (cases : List Case) :
    Mentions (piecesText (bodyPieces cases)) ((bodyNames cases).map .used) rest := by
  rcases cases with _ | ⟨first, _ | ⟨next, others⟩⟩
  · exact .nil
  · rw [bodyPieces]
    simpa [bodyNames] using mentions_case first
  · have hlength : 1 < (first :: next :: others).length := Nat.succ_lt_succ (Nat.succ_pos _)
    have hopening (rest : List Char) : Mentions "_plural([".toList [.used "_plural"] rest :=
      mentions_words [.name "_plural", .punctuator "(", .punctuator "["]
        rfl (by decide) fun _ => rfl
    rw [bodyPieces_text hlength, bodyNames, if_pos hlength, List.map_append, List.map_flatMap]
    exact mentions_array hopening (fun case _ => mentions_case case) _

/-! ## Names of the binding -/

/-- The helpers of a context that a function can bind. -/
def contextFields : List String :=
  ["normalize", "interpolate", "named", "list", "linked", "type", "plural"]

/-- The helpers that are bound, as the context calls them. -/
def Helpers.fields (h : Helpers) : List String :=
  ["normalize"] ++ (if h.interpolate then ["interpolate"] else []) ++
    (if h.named then ["named"] else []) ++ (if h.list then ["list"] else []) ++
    (if h.linked then ["linked", "type"] else []) ++ (if h.plural then ["plural"] else [])

theorem Helpers.fields_sublist (h : Helpers) : h.fields.Sublist contextFields := by
  have hall : ∀ a b c d e, (Helpers.fields ⟨a, b, c, d, e⟩).Sublist contextFields := by decide
  exact hall _ _ _ _ _

/-- What binds a helper. -/
def fieldText (field : String) : String := field ++ ": _" ++ field

theorem Helpers.binding_fields (h : Helpers) :
    h.binding = "const \x7b " ++ ", ".intercalate (h.fields.map fieldText) ++ " \x7d = ctx;" := by
  simp only [Helpers.binding, Helpers.fields, List.map_append, apply_ite (List.map fieldText)]
  rfl

/-- What stands behind a field: a comma or a blank. -/
def EndsField (rest : List Char) : Prop := ∃ c ∈ [',', ' '], rest.head? = some c

def fieldWords (field : String) : List Word :=
  [.name field, .punctuator ":", .blank, .name ("_" ++ field)]

theorem mentions_field {field : String} (h : field ∈ contextFields) (hrest : EndsField rest) :
    Mentions (fieldText field).toList [.used field, .bound ("_" ++ field)] rest := by
  have hall : contextFields.all (fun field => [',', ' '].all fun c => isPhrase (some c) (fieldWords field)) =
      true := by
    decide
  have htext : (fieldText field).toList = phraseText (fieldWords field) := by
    simp [fieldText, fieldWords, phraseText, Word.text]
  obtain ⟨c, hc, hrest⟩ := hrest
  have hphrase := List.all_eq_true.1 (List.all_eq_true.1 hall field h) c hc
  exact mentions_phrase _ htext hphrase (fun d hd => hd ▸ hrest) fun _ => rfl

/-- The names of the statement that binds the helpers. -/
def Helpers.mentions (h : Helpers) : List Mention :=
  .used "const" :: h.fields.flatMap (fun field => [.used field, .bound ("_" ++ field)]) ++ [.used "ctx"]

theorem mentions_binding (h : Helpers) : Mentions h.binding.toList h.mentions rest := by
  have hopening (rest : List Char) : Mentions "const \x7b ".toList [.used "const"] rest :=
    mentions_words [.name "const", .blank, .punctuator "\x7b", .blank]
      rfl (by decide) fun _ => rfl
  have hclosing : Mentions " \x7d = ctx;".toList [.used "ctx"] rest :=
    mentions_words [.blank, .punctuator "\x7d", .blank, .punctuator "=", .blank, .name "ctx",
      .punctuator ";"] rfl (by decide) fun _ => rfl
  have hfields {rest : List Char} (hrest : EndsField rest) :
      Mentions (", ".toList.intercalate (h.fields.map (String.toList ∘ fieldText)))
        (h.fields.flatMap fun field => [.used field, .bound ("_" ++ field)]) rest :=
    mentions_intercalate EndsField (fun _ => ⟨',', by decide, rfl⟩)
      (fun field hfield _ => mentions_field (h.fields_sublist.subset hfield)) hrest
  simp only [Helpers.binding_fields, String.toList_append, String.toList_intercalate, List.map_map,
    List.append_assoc]
  exact (hopening _).append ((hfields ⟨' ', by decide, rfl⟩).append hclosing)

/-! ## Names of a function -/

def productionMentions (cases : List Case) : List Mention :=
  .used "ctx" :: (Helpers.ofCases cases).mentions ++ .used "return" :: (bodyNames cases).map .used

/-- The names of a function, with the ones around it in development. -/
def functionMentions (cases : List Case) : Environment → List Mention
  | .production => productionMentions cases
  | .development =>
    [.used "const", .used "fn"] ++ productionMentions cases ++ ["fn", "source", "return", "fn"].map .used

theorem mentions_production (cases : List Case) (source : List Char) :
    Mentions (piecesText (functionPieces cases source .production))
      (productionMentions cases) rest := by
  have hopening (rest : List Char) : Mentions "(ctx) => \x7b".toList [.used "ctx"] rest :=
    mentions_words [.punctuator "(", .name "ctx", .punctuator ")", .blank, .punctuator "=>", .blank,
      .punctuator "\x7b"] rfl (by decide) fun _ => rfl
  have hreturn (rest : List Char) : Mentions "return ".toList [.used "return"] rest :=
    mentions_words [.name "return", .blank] rfl (by decide) fun _ => rfl
  have hclosing : Mentions "\x7d".toList [] rest :=
    mentions_words [.punctuator "\x7d"] rfl (by decide) fun _ => rfl
  have h := (hopening _).append ((mentions_binding (Helpers.ofCases cases)).append
    ((hreturn _).append ((mentions_body cases).append hclosing)))
  rw [List.append_nil] at h
  rw [functionPieces_text]
  exact h

theorem mentions_function (cases : List Case) (source : List Char) (environment : Environment) :
    Mentions (piecesText (functionPieces cases source environment)) (functionMentions cases environment)
      rest := by
  cases environment with
  | production => exact mentions_production cases source
  | development =>
    have hopening {rest : List Char} (h : rest.head? = some '(') :
        Mentions "(()=>\x7bconst fn=".toList [.used "const", .used "fn"] rest :=
      mentions_phrase [.punctuator "(", .punctuator "(", .punctuator ")", .punctuator "=>",
        .punctuator "\x7b", .name "const", .blank, .name "fn", .punctuator "="]
        rfl (by decide) (fun _ hc => hc ▸ h) fun _ => rfl
    have hsource {rest : List Char} (h : rest.head? = some '"') :
        Mentions ";fn.source=".toList [.used "fn", .used "source"] rest :=
      mentions_phrase [.punctuator ";", .name "fn", .punctuator ".", .name "source",
        .punctuator "="] rfl (by decide) (fun _ hc => hc ▸ h) fun _ => rfl
    have hclosing : Mentions ";return fn;\x7d)()".toList [.used "return", .used "fn"] rest :=
      mentions_words [.punctuator ";", .name "return", .blank, .name "fn", .punctuator ";",
        .punctuator "\x7d", .punctuator ")", .punctuator "(", .punctuator ")"]
        rfl (by decide) fun _ => rfl
    have hquoted : ((quotedChars source).toList ++ ";return fn;\x7d)()".toList ++ rest).head? = some '"' := by
      rw [quotedChars, Json.toList_quoted]
      rfl
    have hfunction : (piecesText (functionPieces cases source .production) ++
        (";fn.source=".toList ++ ((quotedChars source).toList ++ ";return fn;\x7d)()".toList)) ++
          rest).head? = some '(' := by
      rw [functionPieces_text]
      rfl
    have h := (hopening hfunction).append ((mentions_production cases source).append
      ((hsource hquoted).append ((mentions_quotedChars source).append hclosing)))
    rw [functionPieces_text_development]
    exact h

end

/-! ## Bound and used names -/

theorem boundIn_mentions (h : Helpers) : Mention.boundIn h.mentions = h.fields.map ("_" ++ ·) := by
  have hfields (fields : List String) :
      Mention.boundIn (fields.flatMap fun field => [.used field, .bound ("_" ++ field)]) =
        fields.map ("_" ++ ·) := by
    induction fields with
    | nil => rfl
    | cons field fields ih => simpa using ih
  simp [Helpers.mentions, hfields]

theorem usedIn_mentions (h : Helpers) : Mention.usedIn h.mentions = "const" :: h.fields ++ ["ctx"] := by
  have hfields (fields : List String) :
      Mention.usedIn (fields.flatMap fun field => [.used field, .bound ("_" ++ field)]) = fields := by
    induction fields with
    | nil => rfl
    | cons field fields ih => simpa using ih
  simp [Helpers.mentions, hfields]

theorem boundNames_binding (h : Helpers) : boundNames h.binding.toList = h.fields.map ("_" ++ ·) := by
  rw [boundNames, (mentions_binding h).mentions_eq, boundIn_mentions]

/-- A function binds names in one place only. -/
theorem boundNames_function (cases : List Case) (source : List Char) (environment : Environment) :
    boundNames (piecesText (functionPieces cases source environment)) =
      (Helpers.ofCases cases).fields.map ("_" ++ ·) := by
  rw [boundNames, (mentions_function cases source environment).mentions_eq]
  cases environment <;> simp [functionMentions, productionMentions, boundIn_mentions]

/-- The names of helpers start with an underscore, as no other name of a function does. -/
def IsHelperName (name : String) : Prop := name.toList.head? = some '_'

instance (name : String) : Decidable (IsHelperName name) :=
  inferInstanceAs (Decidable (name.toList.head? = some '_'))

/-- No helper is used outside of the cases. -/
theorem mem_usedNames_function {cases : List Case} {source : List Char} {environment : Environment}
    {name : String} (h : IsHelperName name) :
    name ∈ usedNames (piecesText (functionPieces cases source environment)) ↔ name ∈ bodyNames cases := by
  have hother : ∀ other ∈ contextFields ++ ["ctx", "const", "return", "fn", "source"], name ≠ other := by
    rintro other hother rfl
    exact absurd h ((by decide : ∀ other ∈ contextFields ++ ["ctx", "const", "return", "fn", "source"],
      ¬ IsHelperName other) name hother)
  have hfields : name ∉ (Helpers.ofCases cases).fields := fun hname =>
    hother name (List.mem_append_left _ ((Helpers.fields_sublist _).subset hname)) rfl
  rw [usedNames, (mentions_function cases source environment).mentions_eq]
  cases environment <;>
    simp [functionMentions, productionMentions, usedIn_mentions, hfields, hother]

theorem Part.mem_names {part : Part} {name : String} (h : IsHelperName name) :
    name ∈ part.names ↔ (part.isNamed || part.isList) ∧ name = "_interpolate" ∨
      part.isNamed ∧ name = "_named" ∨ part.isList ∧ name = "_list" ∨
        part.isLinked ∧ (name = "_linked" ∨ name = "_type") := by
  have hundefined : name ≠ "undefined" := by
    rintro rfl
    exact absurd h (by decide)
  rcases part with s | s | s | s | ⟨key, _ | modifier⟩ <;>
    simp [Part.names, Part.isNamed, Part.isList, Part.isLinked, hundefined]

theorem Helpers.mem_bound {h : Helpers} {name : String} :
    name ∈ h.fields.map ("_" ++ ·) ↔ name = "_normalize" ∨ h.interpolate ∧ name = "_interpolate" ∨
      h.named ∧ name = "_named" ∨ h.list ∧ name = "_list" ∨
        h.linked ∧ (name = "_linked" ∨ name = "_type") ∨ h.plural ∧ name = "_plural" := by
  simp only [Helpers.fields, List.map_append, List.mem_append, apply_ite (List.map ("_" ++ ·)), List.map_cons,
    List.map_nil, List.mem_ite_nil_right, List.mem_cons, List.not_mem_nil, or_false, or_assoc]
  rfl

theorem mem_flatten_parts {cases : List Case} {p : Part → Prop} :
    (∃ part ∈ cases.flatten.map (·.part), p part) ↔ ∃ case ∈ cases, ∃ item ∈ case, p item.part := by
  simp only [List.mem_map, List.mem_flatten]
  constructor
  · rintro ⟨_, ⟨item, ⟨case, hcase, hitem⟩, rfl⟩, hp⟩
    exact ⟨case, hcase, item, hitem, hp⟩
  · rintro ⟨case, hcase, item, hitem, hp⟩
    exact ⟨_, ⟨item, ⟨case, hcase, hitem⟩, rfl⟩, hp⟩

/-- The names that the body uses, whichever case they are in. -/
theorem mem_bodyNames {cases : List Case} (hne : cases ≠ []) {name : String} :
    name ∈ bodyNames cases ↔ name = "_normalize" ∨
      (∃ part ∈ cases.flatten.map (·.part), name ∈ part.names) ∨ 1 < cases.length ∧ name = "_plural" := by
  have hcase : ∃ case, case ∈ cases := List.exists_mem_of_ne_nil _ hne
  rw [mem_flatten_parts, ← or_assoc, or_comm]
  simp [bodyNames, caseNames, and_or_left, exists_or, hcase]

/-- What is collected over the parts of the cases. -/
theorem exists_part_names {cases : List Case} {name : String} (h : IsHelperName name) :
    (∃ part ∈ cases.flatten.map (·.part), name ∈ part.names) ↔
      (Helpers.ofCases cases).interpolate ∧ name = "_interpolate" ∨
        (Helpers.ofCases cases).named ∧ name = "_named" ∨ (Helpers.ofCases cases).list ∧ name = "_list" ∨
          (Helpers.ofCases cases).linked ∧ (name = "_linked" ∨ name = "_type") := by
  simp only [Part.mem_names h, Helpers.ofCases, List.any_eq_true, and_or_left, exists_or, ← and_assoc,
    exists_and_right]

/-- The helpers that are collected are those that the body uses. -/
theorem mem_bodyNames_iff {cases : List Case} (hne : cases ≠ []) {name : String} (h : IsHelperName name) :
    name ∈ bodyNames cases ↔ name ∈ (Helpers.ofCases cases).fields.map ("_" ++ ·) := by
  have hplural : (Helpers.ofCases cases).plural = true ↔ 1 < cases.length := decide_eq_true_iff
  rw [mem_bodyNames hne, exists_part_names h, Helpers.mem_bound, hplural]
  simp only [or_assoc]

/-! ## Functions of messages -/

def optionalHelpers : List String := ["_interpolate", "_named", "_list", "_linked", "_type", "_plural"]

/--
The helpers that the function of a message binds are the one that joins a case and those of the others
that the code of the function uses outside of strings. No helper is used unbound and none is bound
unused; each is bound once, and the function binds nothing else.
-/
theorem function_binds_used_helpers {message : List Char} {cases : List Case} (h : parse message = .ok cases)
    (source : List Char) (environment : Environment) :
    let bound := boundNames (Helpers.ofCases cases).binding.toList
    let code := (piecesCode (functionPieces cases source environment)).toList
    (∀ name, name ∈ bound ↔ name = "_normalize" ∨ name ∈ optionalHelpers ∧ name ∈ usedNames code) ∧
      (∀ name, name ∈ bound ↔ IsHelperName name ∧ name ∈ usedNames code) ∧
      bound.Nodup ∧ boundNames code = bound := by
  intro bound code
  have hne : cases ≠ [] := (parse_wellFormed h).nonempty
  have hbound : bound = (Helpers.ofCases cases).fields.map ("_" ++ ·) := boundNames_binding _
  have hcode : code = piecesText (functionPieces cases source environment) := toList_piecesCode _
  have hall : ∀ name ∈ contextFields.map ("_" ++ ·), IsHelperName name ∧
      (name = "_normalize" ∨ name ∈ optionalHelpers) := by
    decide
  have hsublist : bound.Sublist (contextFields.map ("_" ++ ·)) := hbound ▸ (Helpers.fields_sublist _).map _
  have hused {name : String} (hname : IsHelperName name) : name ∈ usedNames code ↔ name ∈ bound := by
    rw [hcode, mem_usedNames_function hname, mem_bodyNames_iff hne hname, hbound]
  refine ⟨fun name => ⟨fun hn => ?_, ?_⟩, fun name => ⟨fun hn => ?_, fun hn => (hused hn.1).1 hn.2⟩,
    hsublist.nodup (by decide), ?_⟩
  · obtain ⟨hname, hkind⟩ := hall name (hsublist.subset hn)
    exact hkind.imp_right fun hoptional => ⟨hoptional, (hused hname).2 hn⟩
  · rintro (rfl | ⟨hoptional, hn⟩)
    · exact hbound ▸ Helpers.mem_bound.2 (.inl rfl)
    · exact (hused ((by decide : ∀ name ∈ optionalHelpers, IsHelperName name) name hoptional)).1 hn
  · obtain ⟨hname, -⟩ := hall name (hsublist.subset hn)
    exact ⟨hname, (hused hname).2 hn⟩
  · rw [hcode, boundNames_function, hbound]

/-- A list item in one case and a link in another, beside a text that reads like a call. -/
theorem function_binds_used_helpers_plural :
    let message := "_named({0})|@:a".toList
    ∃ cases, parse message = .ok cases ∧
      let bound := boundNames (Helpers.ofCases cases).binding.toList
      let code := (piecesCode (functionPieces cases message .development)).toList
      bound = ["_normalize", "_interpolate", "_list", "_linked", "_type", "_plural"] ∧
        (∀ name, name ∈ bound ↔ IsHelperName name ∧ name ∈ usedNames code) := by
  have hparse : parse "_named({0})|@:a".toList = .ok [[⟨.text "_named(".toList, 0⟩, ⟨.list 0, 7⟩,
    ⟨.text ")".toList, 10⟩], [⟨.linked ['a'] none, 12⟩]] := by decide +kernel
  exact ⟨_, hparse, boundNames_binding _, (function_binds_used_helpers hparse _ _).2.1⟩

end MessageCatalog.Message
