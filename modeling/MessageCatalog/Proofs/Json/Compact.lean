/-
Values as text without blanks. A value is read from its text up to what ends it, in whichever way the
characters of its strings are written, as long as each of them is read back.
-/
import Mathlib.Data.Bool.AllAny
import MessageCatalog.Proofs.Json.Number
import MessageCatalog.Proofs.Resource.Data

namespace MessageCatalog.Json

open MessageCatalog.Text MessageCatalog.Script

/-! ## Texts -/

section

variable (write : Char → List Char)

def stringText (s : String) : List Char := '"' :: (s.toList.flatMap write ++ ['"'])

mutual

/-- The text of a value, each character of its strings as `write` has it. -/
def textWith : Json → List Char
  | .null => "null".toList
  | .bool b => (if b then "true" else "false").toList
  | .number n => (numberText n).toList
  | .string s => stringText write s
  | .array items => '[' :: ([','].intercalate (itemTexts items) ++ [']'])
  | .object members => '\x7b' :: ([','].intercalate (memberTexts members) ++ ['\x7d'])

def itemTexts : List Json → List (List Char)
  | [] => []
  | item :: rest => textWith item :: itemTexts rest

def memberTexts : List (String × Json) → List (List Char)
  | [] => []
  | (key, value) :: rest => (stringText write key ++ ':' :: textWith value) :: memberTexts rest

end

end

mutual

/-- The compact text escapes the characters of strings. -/
theorem toList_compact : ∀ v : Json, v.compact.toList = textWith escapeChar v
  | .null => rfl
  | .bool b => by cases b <;> rfl
  | .number n => rfl
  | .string s => toList_quoted s
  | .array items => by
    have hitems := toList_compactItems items
    simp [compact, textWith, String.toList_intercalate, hitems]
  | .object members => by
    have hmembers := toList_compactMembers members
    simp [compact, textWith, String.toList_intercalate, hmembers]

theorem toList_compactItems : ∀ items : List Json,
    (compactItems items).map String.toList = itemTexts escapeChar items
  | [] => rfl
  | item :: rest => congrArg₂ List.cons (toList_compact item) (toList_compactItems rest)

theorem toList_compactMembers : ∀ members : List (String × Json),
    (compactMembers members).map String.toList = memberTexts escapeChar members
  | [] => rfl
  | (key, value) :: rest => by
    have hmember : (quoted key ++ ":" ++ compact value).toList =
        stringText escapeChar key ++ ':' :: textWith escapeChar value := by
      rw [String.toList_append, String.toList_append, toList_quoted, toList_compact value]
      simp [stringText, escape]
    exact congrArg₂ List.cons hmember (toList_compactMembers rest)

end

/-! ## Characters of texts -/

/-- The characters of a text that are in none of its strings. -/
def frameChars : List Char :=
  "null".toList ++ "true".toList ++ "false".toList ++ numeralChars ++
    ['"', '[', ']', '\x7b', '\x7d', ',', ':']

theorem mem_frameChars_word {word : String} (hword : word ∈ ["null", "true", "false"]) :
    ∀ c ∈ word.toList, c ∈ frameChars := by
  have hall : ["null", "true", "false"].all fun word => word.toList.all (· ∈ frameChars) := by decide
  exact List.all_iff_forall_prop.1 (List.all_eq_true.1 hall word hword)

theorem mem_frameChars_number {n : JsonNumber} : ∀ c ∈ (numberText n).toList, c ∈ frameChars := by
  have hall : ∀ c ∈ numeralChars ++ "null".toList, c ∈ frameChars := List.all_iff_forall_prop.1 (by decide)
  exact fun c hc => hall c (mem_numberText hc)

theorem mem_frameChars_bool (b : Bool) : ∀ c ∈ (if b then "true" else "false").toList, c ∈ frameChars := by
  cases b with
  | true => exact mem_frameChars_word (by decide)
  | false => exact mem_frameChars_word (by decide)

theorem mem_intercalate {sep : List Char} {c : Char} : ∀ {texts : List (List Char)},
    c ∈ sep.intercalate texts → c ∈ sep ∨ ∃ text ∈ texts, c ∈ text
  | [], h => by cases h
  | [text], h => .inr ⟨text, List.mem_cons_self, by simpa using h⟩
  | text :: next :: rest, h => by
    rw [List.intercalate_cons_cons, List.append_assoc] at h
    rcases List.mem_append.1 h with h | h
    · exact .inr ⟨text, List.mem_cons_self, h⟩
    · rcases List.mem_append.1 h with h | h
      · exact .inl h
      · exact (mem_intercalate h).imp_right fun ⟨t, ht, hc⟩ => ⟨t, List.mem_cons_of_mem _ ht, hc⟩

section

variable {write : Char → List Char} {c : Char}

theorem mem_stringText {s : String} (h : c ∈ stringText write s) : c ∈ frameChars ∨ ∃ d, c ∈ write d := by
  rcases List.mem_cons.1 h with rfl | h
  · exact .inl (by decide)
  · rcases List.mem_append.1 h with h | h
    · obtain ⟨d, -, hd⟩ := List.mem_flatMap.1 h
      exact .inr ⟨d, hd⟩
    · rw [List.mem_singleton.1 h]
      exact .inl (by decide)

theorem mem_bracketed {opening closing : Char} {texts : List (List Char)}
    (hbrackets : [opening, ',', closing].all (· ∈ frameChars))
    (htexts : ∀ text ∈ texts, c ∈ text → c ∈ frameChars ∨ ∃ d, c ∈ write d)
    (h : c ∈ opening :: ([','].intercalate texts ++ [closing])) : c ∈ frameChars ∨ ∃ d, c ∈ write d := by
  have hframe : ∀ d ∈ [opening, ',', closing], d ∈ frameChars := List.all_iff_forall_prop.1 hbrackets
  rcases List.mem_cons.1 h with rfl | h
  · exact .inl (hframe _ (by simp))
  · rcases List.mem_append.1 h with h | h
    · rcases mem_intercalate h with h | ⟨text, htext, hc⟩
      · exact .inl (hframe c (by simp [List.mem_singleton.1 h]))
      · exact htexts text htext hc
    · exact .inl (hframe c (by simp [List.mem_singleton.1 h]))

mutual

/-- Every character of a text stands outside of the strings, or a character of a string is written with it. -/
theorem mem_textWith : ∀ v : Json, c ∈ textWith write v → c ∈ frameChars ∨ ∃ d, c ∈ write d
  | .null, h => .inl (mem_frameChars_word (by decide : "null" ∈ _) c h)
  | .bool b, h => .inl (mem_frameChars_bool b c h)
  | .number n, h => .inl (mem_frameChars_number c h)
  | .string s, h => mem_stringText h
  | .array items, h => mem_bracketed (by decide) (mem_itemTexts items) h
  | .object members, h => mem_bracketed (by decide) (mem_memberTexts members) h

theorem mem_itemTexts : ∀ items : List Json, ∀ text ∈ itemTexts write items,
    c ∈ text → c ∈ frameChars ∨ ∃ d, c ∈ write d
  | [] => nofun
  | item :: rest => List.forall_mem_cons.2 ⟨mem_textWith item, mem_itemTexts rest⟩

theorem mem_memberTexts : ∀ members : List (String × Json), ∀ text ∈ memberTexts write members,
    c ∈ text → c ∈ frameChars ∨ ∃ d, c ∈ write d
  | [] => nofun
  | (key, value) :: rest => by
    refine List.forall_mem_cons.2 ⟨fun h => ?_, mem_memberTexts rest⟩
    rcases List.mem_append.1 h with h | h
    · exact mem_stringText h
    · rcases List.mem_cons.1 h with rfl | h
      · exact .inl (by decide)
      · exact mem_textWith value h

end

end

/-! ## Texts that are written once more -/

section

variable (write again : Char → List Char)

theorem flatMap_eq_self {cs : List Char} (h : ∀ c ∈ cs, again c = [c]) : cs.flatMap again = cs := by
  induction cs with
  | nil => rfl
  | cons c cs ih =>
    obtain ⟨hc, hcs⟩ := List.forall_mem_cons.1 h
    rw [List.flatMap_cons, hc, ih hcs]
    rfl

theorem flatMap_intercalate (sep : List Char) : ∀ texts : List (List Char),
    (sep.intercalate texts).flatMap again = (sep.flatMap again).intercalate (texts.map (·.flatMap again))
  | [] => rfl
  | [text] => by simp
  | text :: next :: rest => by
    have hrest := flatMap_intercalate sep (next :: rest)
    rw [List.map_cons] at hrest
    rw [List.intercalate_cons_cons, List.map_cons, List.map_cons,
      List.intercalate_cons_cons, List.flatMap_append,
      List.flatMap_append, hrest]

variable {again}

theorem flatMap_stringText (hframe : ∀ c ∈ frameChars, again c = [c]) (s : String) :
    (stringText write s).flatMap again = stringText (fun c => (write c).flatMap again) s := by
  have hquote : again '"' = ['"'] := hframe _ (by decide)
  simp [stringText, hquote, List.flatMap_assoc]

theorem flatMap_bracketed (hframe : ∀ c ∈ frameChars, again c = [c]) {opening closing : Char}
    (hbrackets : [opening, ',', closing].all (· ∈ frameChars)) (texts : List (List Char)) :
    (opening :: ([','].intercalate texts ++ [closing])).flatMap again =
      opening :: ([','].intercalate (texts.map (·.flatMap again)) ++ [closing]) := by
  have hkept : ∀ c ∈ [opening, ',', closing], again c = [c] := fun c hc =>
    hframe c (List.all_iff_forall_prop.1 hbrackets c hc)
  have hopening := hkept opening (by simp)
  have hcomma := hkept ',' (by simp)
  have hclosing := hkept closing (by simp)
  simp [flatMap_intercalate, hopening, hcomma, hclosing]

mutual

/-- What stands outside of strings stays, and the characters of strings are written in two steps. -/
theorem flatMap_textWith (hframe : ∀ c ∈ frameChars, again c = [c]) : ∀ v : Json,
    (textWith write v).flatMap again = textWith (fun c => (write c).flatMap again) v
  | .null => flatMap_eq_self again fun c hc => hframe c (mem_frameChars_word (by decide : "null" ∈ _) c hc)
  | .bool b => flatMap_eq_self again fun c hc => hframe c (mem_frameChars_bool b c hc)
  | .number n => flatMap_eq_self again fun c hc => hframe c (mem_frameChars_number c hc)
  | .string s => flatMap_stringText write hframe s
  | .array items => by
    rw [textWith, flatMap_bracketed hframe (by decide), flatMap_itemTexts hframe items, textWith]
  | .object members => by
    rw [textWith, flatMap_bracketed hframe (by decide), flatMap_memberTexts hframe members, textWith]

theorem flatMap_itemTexts (hframe : ∀ c ∈ frameChars, again c = [c]) : ∀ items : List Json,
    (itemTexts write items).map (·.flatMap again) = itemTexts (fun c => (write c).flatMap again) items
  | [] => rfl
  | item :: rest => congrArg₂ List.cons (flatMap_textWith hframe item) (flatMap_itemTexts hframe rest)

theorem flatMap_memberTexts (hframe : ∀ c ∈ frameChars, again c = [c]) : ∀ members : List (String × Json),
    (memberTexts write members).map (·.flatMap again) = memberTexts (fun c => (write c).flatMap again) members
  | [] => rfl
  | (key, value) :: rest => by
    have hcolon : again ':' = [':'] := hframe _ (by decide)
    have hvalue := flatMap_textWith hframe value
    refine congrArg₂ List.cons ?_ (flatMap_memberTexts hframe rest)
    show (stringText write key ++ ':' :: textWith write value).flatMap again = _
    rw [List.flatMap_append, List.flatMap_cons, flatMap_stringText write hframe, hcolon, hvalue]
    rfl

end

end

/-! ## Reading a text -/

mutual

/-- What a value is read as once it is written. -/
def asRead : Json → Json
  | .null => .null
  | .bool b => .bool b
  | .number n => asReadNumber n
  | .string s => .string s
  | .array items => .array (itemsAsRead items)
  | .object members => ofMembers (membersAsRead members)

def itemsAsRead : List Json → List Json
  | [] => []
  | item :: rest => asRead item :: itemsAsRead rest

def membersAsRead : List (String × Json) → List (String × Json)
  | [] => []
  | (key, value) :: rest => (key, asRead value) :: membersAsRead rest

end

section

variable {write : Char → List Char} {fuel : Nat}

theorem endsValue_nil : EndsValue [] := by rintro _ ⟨⟩

theorem endsValue_cons {c : Char} (hc : c ∈ [',', ']', '\x7d']) (rest : List Char) :
    EndsValue (c :: rest) := by
  rintro _ ⟨⟩
  simpa using hc

/-- No text of a value starts with a blank or closes an array. -/
theorem textWith_starts (v : Json) :
    ∃ c tail, textWith write v = c :: tail ∧ isJsonBlank c = false ∧ c ≠ ']' := by
  cases v with
  | number n =>
    rcases numberText_cases n with ⟨negative, m, hproper, htext, -⟩ | ⟨htext, -⟩
    · obtain ⟨c, tail, hstart, hc⟩ := startsNumber_signed hproper negative
      exact ⟨c, tail, htext.trans hstart, startsNumber_not_blank hc,
        startsNumber_ne hc (by decide) (by decide)⟩
    · exact ⟨_, _, by rw [textWith, htext]; rfl, by decide, by decide⟩
  | bool b => cases b <;> exact ⟨_, _, rfl, by decide, by decide⟩
  | _ => exact ⟨_, _, rfl, by decide, by decide⟩

theorem readValue?_string (h : ReadsBack write) (s : String) (rest : List Char) :
    readValue? (fuel + 1) (stringText write s ++ rest) = some (.string s, rest) := by
  have hread := h.readString?_body s.toList rest
  have htext : stringText write s ++ rest = '"' :: (s.toList.flatMap write ++ '"' :: rest) := by
    simp [stringText]
  rw [htext, readValue?, skipBlanks_cons (by decide)]
  simp only [hread, Option.bind_eq_bind, Option.bind_some, String.ofList_toList]
  rfl

/-- An array with items goes on with the first of them. -/
theorem readValue?_items {c : Char} {tail : List Char} (hblank : isJsonBlank c = false) (hc : c ≠ ']') :
    readValue? (fuel + 1) ('[' :: c :: tail) =
      (readItems? fuel (c :: tail)).map fun (items, rest) => (.array items, rest) := by
  rw [readValue?, skipBlanks_cons (by decide)]
  simp only [skipBlanks_cons hblank]
  split
  · rename_i heq
    exact absurd (List.cons.inj heq).1 hc
  · cases readItems? fuel (c :: tail) <;> rfl

theorem readValue?_members {tail : List Char} :
    readValue? (fuel + 1) ('\x7b' :: '"' :: tail) =
      (readMembers? fuel ('"' :: tail)).map fun (members, rest) => (ofMembers members, rest) := by
  rw [readValue?, skipBlanks_cons (by decide)]
  simp only [skipBlanks_cons (by decide : isJsonBlank '"' = false)]
  show (readMembers? fuel ('"' :: tail) >>= fun (members, rest) => some (ofMembers members, rest)) = _
  cases readMembers? fuel ('"' :: tail) <;> rfl

/-- The value of a member stands behind its key. -/
theorem readMembers?_member (h : ReadsBack write) (key : String) (cs : List Char) :
    readMembers? (fuel + 1) (stringText write key ++ ':' :: cs) = (do
      let (value, rest) ← readValue? fuel cs
      match skipBlanks rest with
      | '\x7d' :: rest => return ([(key, value)], rest)
      | ',' :: rest => do
        let (members, rest) ← readMembers? fuel rest
        return ((key, value) :: members, rest)
      | _ => none) := by
  have hread := h.readString?_body key.toList (':' :: cs)
  have htext : stringText write key ++ ':' :: cs = '"' :: (key.toList.flatMap write ++ '"' :: ':' :: cs) := by
    simp [stringText]
  rw [htext, readMembers?, skipBlanks_cons (by decide)]
  simp only [hread, Option.bind_eq_bind, Option.bind_some, String.ofList_toList]
  rw [skipBlanks_cons (by decide)]
  rfl

mutual

/-- A value is read from its text up to what ends it. -/
theorem readValue?_textWith (h : ReadsBack write) : ∀ (v : Json) {fuel : Nat} {rest : List Char},
    (textWith write v).length ≤ fuel → EndsValue rest →
    readValue? fuel (textWith write v ++ rest) = some (v.asRead, rest)
  | v, 0, _, hfuel, _ => by
    obtain ⟨c, tail, htext, -⟩ := @textWith_starts write v
    rw [htext] at hfuel
    cases hfuel
  | .null, fuel + 1, rest, _, _ => rfl
  | .bool b, fuel + 1, rest, _, _ => by cases b <;> rfl
  | .number n, fuel + 1, rest, _, hrest => readValue?_numberText n fuel hrest
  | .string s, fuel + 1, rest, _, _ => readValue?_string h s rest
  | .array [], fuel + 1, rest, _, _ => rfl
  | .array (item :: items), fuel + 1, rest, hfuel, _ => by
    obtain ⟨c, tail, htext, hblank, hc⟩ := @textWith_starts write item
    rw [textWith, List.length_cons, List.length_append, List.length_singleton] at hfuel
    have hitems := readItems?_itemTexts h item items (Nat.le_of_succ_le_succ hfuel) rest
    obtain ⟨more, hmore⟩ : ∃ more, [','].intercalate (itemTexts write (item :: items)) = c :: more := by
      cases items <;> simp [itemTexts, htext]
    rw [textWith, List.cons_append, List.append_assoc, List.singleton_append, hmore, List.cons_append,
      readValue?_items hblank hc, ← List.cons_append, ← hmore, hitems]
    rfl
  | .object [], fuel + 1, rest, _, _ => rfl
  | .object ((key, value) :: members), fuel + 1, rest, hfuel, _ => by
    rw [textWith, List.length_cons, List.length_append, List.length_singleton] at hfuel
    have hmembers := readMembers?_memberTexts h key value members (Nat.le_of_succ_le_succ hfuel) rest
    obtain ⟨more, hmore⟩ : ∃ more,
        [','].intercalate (memberTexts write ((key, value) :: members)) = '"' :: more := by
      cases members <;> simp [memberTexts, stringText]
    rw [textWith, List.cons_append, List.append_assoc, List.singleton_append, hmore, List.cons_append,
      readValue?_members, ← List.cons_append, ← hmore, hmembers]
    rfl

theorem readItems?_itemTexts (h : ReadsBack write) : ∀ (item : Json) (items : List Json) {fuel : Nat},
    ([','].intercalate (itemTexts write (item :: items))).length < fuel → ∀ rest : List Char,
    readItems? fuel ([','].intercalate (itemTexts write (item :: items)) ++ ']' :: rest) =
      some (itemsAsRead (item :: items), rest)
  | item, [], fuel + 1, hfuel, rest => by
    rw [itemTexts, itemTexts, List.intercalate_singleton] at hfuel ⊢
    have hitem : readValue? fuel (textWith write item ++ ']' :: rest) = some (item.asRead, ']' :: rest) :=
      readValue?_textWith h item (Nat.le_of_lt_succ hfuel) (endsValue_cons (by decide) rest)
    rw [readItems?, hitem]
    rfl
  | item, next :: items, fuel + 1, hfuel, rest => by
    have htext : [','].intercalate (itemTexts write (item :: next :: items)) =
        textWith write item ++ [','] ++ [','].intercalate (itemTexts write (next :: items)) :=
      List.intercalate_cons_cons
    rw [htext, List.length_append, List.length_append, List.length_singleton] at hfuel
    have hitem : ∀ more, readValue? fuel (textWith write item ++ ',' :: more) =
        some (item.asRead, ',' :: more) := fun more =>
      readValue?_textWith h item (by omega) (endsValue_cons (by decide) more)
    have hitems : readItems? fuel ([','].intercalate (itemTexts write (next :: items)) ++ ']' :: rest) =
        some (itemsAsRead (next :: items), rest) :=
      readItems?_itemTexts h next items (by omega) rest
    rw [htext, List.append_assoc, List.append_assoc, List.singleton_append, readItems?, hitem]
    show (readItems? fuel _ >>= _) = _
    rw [hitems]
    rfl

theorem readMembers?_memberTexts (h : ReadsBack write) : ∀ (key : String) (value : Json)
    (members : List (String × Json)) {fuel : Nat},
    ([','].intercalate (memberTexts write ((key, value) :: members))).length < fuel → ∀ rest : List Char,
    readMembers? fuel ([','].intercalate (memberTexts write ((key, value) :: members)) ++ '\x7d' :: rest) =
      some (membersAsRead ((key, value) :: members), rest)
  | key, value, [], fuel + 1, hfuel, rest => by
    rw [memberTexts, memberTexts, List.intercalate_singleton, List.length_append, List.length_cons] at hfuel
    have hvalue : readValue? fuel (textWith write value ++ '\x7d' :: rest) =
        some (value.asRead, '\x7d' :: rest) :=
      readValue?_textWith h value (by omega) (endsValue_cons (by decide) rest)
    rw [memberTexts, memberTexts, List.intercalate_singleton, List.append_assoc, List.cons_append,
      readMembers?_member h, hvalue]
    rfl
  | key, value, (key', value') :: members, fuel + 1, hfuel, rest => by
    have htext : [','].intercalate (memberTexts write ((key, value) :: (key', value') :: members)) =
        (stringText write key ++ ':' :: textWith write value) ++ [','] ++
          [','].intercalate (memberTexts write ((key', value') :: members)) :=
      List.intercalate_cons_cons
    rw [htext, List.length_append, List.length_append, List.length_append, List.length_cons,
      List.length_singleton] at hfuel
    have hvalue : ∀ more, readValue? fuel (textWith write value ++ ',' :: more) =
        some (value.asRead, ',' :: more) := fun more =>
      readValue?_textWith h value (by omega) (endsValue_cons (by decide) more)
    have hmembers : readMembers? fuel
        ([','].intercalate (memberTexts write ((key', value') :: members)) ++ '\x7d' :: rest) =
          some (membersAsRead ((key', value') :: members), rest) :=
      readMembers?_memberTexts h key' value' members (by omega) rest
    rw [htext, List.append_assoc, List.append_assoc,
      List.append_assoc, List.cons_append, List.singleton_append,
      readMembers?_member h, hvalue]
    show (readMembers? fuel _ >>= _) = _
    rw [hmembers]
    rfl

end

/-- A text is read as the one value that it is the text of. -/
theorem read?_textWith (h : ReadsBack write) (v : Json) :
    read? (String.ofList (textWith write v)) = some v.asRead := by
  have hread : readValue? ((textWith write v).length + 1) (textWith write v ++ []) = some (v.asRead, []) :=
    readValue?_textWith h v (Nat.le_succ _) endsValue_nil
  rw [List.append_nil] at hread
  rw [read?, String.toList_ofList]
  simp only [hread, Option.bind_eq_bind, Option.bind_some]
  rfl

theorem read?_compact (v : Json) : read? v.compact = some v.asRead := by
  have hread := read?_textWith readsBack_escapeChar v
  rwa [← toList_compact, String.ofList_toList] at hread

end

/-! ## Values that are kept -/

/-- A value that a text can have: distinct keys, whole numbers that 64 bits hold, and finite doubles. -/
inductive Proper : Json → Prop where
  | null : Proper .null
  | bool (b : Bool) : Proper (.bool b)
  | whole {k : Int} (words : InWords k) : Proper (.number (.whole k))
  | double (negative : Bool) (x : Magnitude) : Proper (.number (.double (.finite negative x)))
  | string (s : String) : Proper (.string s)
  | array {items : List Json} (values : ∀ item ∈ items, item.Proper) : Proper (.array items)
  | object {members : List (String × Json)} (distinct : (keys members).Nodup)
    (values : ∀ m ∈ members, m.2.Proper) : Proper (.object members)

mutual

/-- A value that a text can have is read as itself. -/
theorem asRead_eq_self : ∀ {v : Json}, v.Proper → v.asRead = v
  | .null, _ => rfl
  | .bool _, _ => rfl
  | .string _, _ => rfl
  | .number n, h => by
    cases h with
    | whole words =>
      rw [asRead, asReadNumber, wholeAsRead, if_pos words]
    | double negative x => rfl
  | .array items, h => by
    cases h with
    | array values => exact congrArg Json.array (itemsAsRead_eq_self values)
  | .object members, h => by
    cases h with
    | object distinct values =>
      have hall : setAll [] members = members := setAll_of_nodup distinct
      rw [asRead, membersAsRead_eq_self values, ofMembers_eq, hall]

theorem itemsAsRead_eq_self : ∀ {items : List Json}, (∀ item ∈ items, item.Proper) →
    itemsAsRead items = items
  | [], _ => rfl
  | item :: rest, h => by
    obtain ⟨hitem, hrest⟩ := List.forall_mem_cons.1 h
    rw [itemsAsRead, asRead_eq_self hitem, itemsAsRead_eq_self hrest]

theorem membersAsRead_eq_self : ∀ {members : List (String × Json)}, (∀ m ∈ members, m.2.Proper) →
    membersAsRead members = members
  | [], _ => rfl
  | (key, value) :: rest, h => by
    obtain ⟨hvalue, hrest⟩ := List.forall_mem_cons.1 h
    rw [membersAsRead, asRead_eq_self hvalue, membersAsRead_eq_self hrest]

end

/-- The number that a double becomes is one that a text can have. -/
theorem proper_numberValue {d : Double} {n : JsonNumber} (h : numberValue d = .number n) :
    (Json.number n).Proper := by
  cases d with
  | finite negative x =>
    simp only [numberValue] at h
    split at h
    · split at h
      · rename_i k _ hlimit
        cases h
        have hsmall : k < 2 ^ 53 := hlimit
        refine .whole ?_
        unfold InWords
        split <;> omega
      · cases h
        exact .double negative x
    · cases h
      exact .double negative x
  | _ => cases h

theorem Plain.proper {v : Json} (h : v.Plain) : v.Proper := by
  induction h with
  | null => exact .null
  | bool b => exact .bool b
  | number d value => exact proper_numberValue value
  | string s => exact .string s
  | array _ ih => exact .array ih
  | object distinct _ ih => exact .object distinct ih

end MessageCatalog.Json
