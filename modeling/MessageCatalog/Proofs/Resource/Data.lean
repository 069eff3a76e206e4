/-
JSON values as contents. A resource and its content materialize to the same value, and a value that a
resource can materialize to is the value of the content that is made of it.
-/
import MessageCatalog.LocaleFilter
import MessageCatalog.Proofs.Json.Members
import MessageCatalog.Proofs.Number.Rounding
import MessageCatalog.Proofs.Resource.Content

namespace MessageCatalog

open Double

/-! ## Values of contents -/

theorem whole?_zero {x : Magnitude} (hx : x.mantissa = 0) : x.whole? = some 0 := by
  simp [Magnitude.whole?, hx]

theorem numberValue_zero {x : Magnitude} (hx : x.mantissa = 0) (negative : Bool) :
    numberValue (.finite negative x) = .number (.whole 0) := by
  cases negative <;> simp [numberValue, whole?_zero hx, exactLimit]

theorem numberValue_unsignedZero (d : Double) : numberValue d.unsignedZero = numberValue d := by
  cases d with
  | finite negative x =>
    by_cases hzero : x.mantissa = 0
    · rw [numberValue_zero hzero, Double.unsignedZero, numberValue_zero hzero]
    · simp [Double.unsignedZero, hzero]
  | _ => rfl

theorem materialize_unsignedZero (value : ScalarValue) :
    value.unsignedZero.materialize = value.materialize := by
  cases value with
  | number d => exact numberValue_unsignedZero d
  | _ => rfl

mutual

def Content.materialize : Content → Json
  | .mapping pairs => .ofMembers (materializePairContents pairs)
  | .sequence items => .array (materializeItemContents items)
  | .scalar value _ => value.materialize
  | .verbatim code => .string code

def materializePairContents : List (String × Content) → List (String × Json)
  | [] => []
  | (key, value) :: rest => (key, value.materialize) :: materializePairContents rest

def materializeItemContents : List Content → List Json
  | [] => []
  | item :: rest => item.materialize :: materializeItemContents rest

end

mutual

/-- A node and its content are the same value. -/
theorem materialize_content : ∀ node : Node, node.content.materialize = node.materialize
  | .mapping pairs _ => congrArg Json.ofMembers (materialize_pairContents pairs)
  | .sequence items _ => congrArg Json.array (materialize_itemContents items)
  | .scalar s => materialize_unsignedZero s.value
  | .verbatim _ => rfl

theorem materialize_pairContents : ∀ pairs : List (Key × Node),
    materializePairContents (pairContents pairs) = materializePairs pairs
  | [] => rfl
  | (key, value) :: rest =>
    congrArg₂ List.cons (congrArg (key.text, ·) (materialize_content value)) (materialize_pairContents rest)

theorem materialize_itemContents : ∀ items : List Node,
    materializeItemContents (itemContents items) = materializeItems items
  | [] => rfl
  | item :: rest => congrArg₂ List.cons (materialize_content item) (materialize_itemContents rest)

end

/-! ## Contents of values -/

/-- The double that a whole number or a double of a JSON value is. -/
def JsonNumber.toDouble : JsonNumber → Double
  | .whole n => .ofInt n
  | .double d => d

mutual

def Json.content : Json → Content
  | .null => .scalar .null rfl
  | .bool b => .scalar (.bool b) rfl
  | .number n => .scalar (ScalarValue.number n.toDouble).unsignedZero
      (ScalarValue.unsignedZero_unsignedZero _)
  | .string s => .scalar (.string s) rfl
  | .array items => .sequence (valueContents items)
  | .object members => .mapping (memberContents members)

def valueContents : List Json → List Content
  | [] => []
  | item :: rest => item.content :: valueContents rest

def memberContents : List (String × Json) → List (String × Content)
  | [] => []
  | (key, value) :: rest => (key, value.content) :: memberContents rest

end

/-- A value that a resource can have: its keys are distinct, and its numbers are values of numbers. -/
inductive Json.Plain : Json → Prop where
  | null : Plain .null
  | bool (b : Bool) : Plain (.bool b)
  | number {n : JsonNumber} (d : Double) (value : numberValue d = .number n) : Plain (.number n)
  | string (s : String) : Plain (.string s)
  | array {items : List Json} (values : ∀ item ∈ items, item.Plain) : Plain (.array items)
  | object {members : List (String × Json)} (distinct : (Json.keys members).Nodup)
    (values : ∀ m ∈ members, m.2.Plain) : Plain (.object members)

/-- The number that a double becomes has the same value. -/
theorem numberValue_toDouble {d : Double} {n : JsonNumber} (h : numberValue d = .number n) :
    numberValue n.toDouble = .number n := by
  cases d with
  | nan => cases h
  | infinite negative => cases h
  | finite negative x =>
    have hvalue := h
    simp only [numberValue] at h
    split at h
    · rename_i k hwhole
      split at h
      · cases h
        rcases Nat.eq_zero_or_pos k with rfl | hk
        · have hzero : (if negative then -((0 : Nat) : Int) else (0 : Nat)) = 0 := by cases negative <;> rfl
          rw [hzero]
          exact numberValue_zero (x := ⟨0, minExponent, by decide⟩) rfl false
        · rw [JsonNumber.toDouble, ofInt_whole hwhole hk, hvalue]
      · cases h
        exact hvalue
    · cases h
      exact hvalue

mutual

/-- The content of a value is the same value. -/
theorem Json.materialize_content : ∀ {j : Json}, j.Plain → j.content.materialize = j
  | .null, _ => rfl
  | .bool _, _ => rfl
  | .string _, _ => rfl
  | .number n, h => by
    cases h with
    | number d value =>
      rw [Json.content, Content.materialize, materialize_unsignedZero]
      exact numberValue_toDouble value
  | .array items, h => by
    cases h with
    | array values => exact congrArg Json.array (materialize_valueContents values)
  | .object members, h => by
    cases h with
    | object distinct values =>
      rw [Json.content, Content.materialize, materialize_memberContents values, Json.ofMembers_eq]
      -- distinct keys never replace one another, so setting the members one by one keeps them all
      have hall : Json.setAll [] members = members := Json.setAll_of_nodup distinct
      exact congrArg Json.object hall

theorem materialize_valueContents : ∀ {items : List Json}, (∀ item ∈ items, item.Plain) →
    materializeItemContents (valueContents items) = items
  | [], _ => rfl
  | item :: rest, h => by
    obtain ⟨hitem, hrest⟩ := List.forall_mem_cons.1 h
    rw [valueContents, materializeItemContents, Json.materialize_content hitem,
      materialize_valueContents hrest]

theorem materialize_memberContents : ∀ {members : List (String × Json)}, (∀ m ∈ members, m.2.Plain) →
    materializePairContents (memberContents members) = members
  | [], _ => rfl
  | (key, value) :: rest, h => by
    obtain ⟨hvalue, hrest⟩ := List.forall_mem_cons.1 h
    rw [memberContents, materializePairContents, Json.materialize_content hvalue,
      materialize_memberContents hrest]

end

theorem valueContents_eq (items : List Json) : valueContents items = items.map Json.content := by
  induction items with
  | nil => rfl
  | cons item rest ih => rw [valueContents, ih, List.map_cons]

theorem memberContents_eq (members : List (String × Json)) :
    memberContents members = members.map fun m => (m.1, m.2.content) := by
  induction members with
  | nil => rfl
  | cons m rest ih => rw [memberContents, ih, List.map_cons]

/-- The numbers of a value are finite, and it holds no code. -/
theorem Json.every_content {j : Json} (h : j.Plain) :
    j.content.Every (fun value => ∀ d, value = .number d → ∃ n, numberValue d = .number n)
      fun _ => False := by
  induction h with
  | null => exact .scalar fun d hd => ScalarValue.noConfusion hd
  | bool b => exact .scalar fun d hd => ScalarValue.noConfusion hd
  | string s => exact .scalar fun d hd => ScalarValue.noConfusion hd
  | @number n d value =>
    refine .scalar fun d' hd => ⟨n, ?_⟩
    obtain rfl := ScalarValue.number.inj hd
    rw [numberValue_unsignedZero, numberValue_toDouble value]
  | array _ ih =>
    rw [Json.content, valueContents_eq]
    exact .sequence (List.forall_mem_map.2 ih)
  | object _ _ ih =>
    rw [Json.content, memberContents_eq]
    exact .mapping (List.forall_mem_map.2 ih)

/-! ## Values of resources -/

theorem numberValue_finite (negative : Bool) (x : Magnitude) :
    ∃ n, numberValue (.finite negative x) = .number n := by
  simp only [numberValue]
  repeat' split
  all_goals exact ⟨_, rfl⟩

theorem numberValue_cases (d : Double) : numberValue d = .null ∨ ∃ n, numberValue d = .number n := by
  cases d with
  | finite negative x => exact .inr (numberValue_finite negative x)
  | _ => exact .inl rfl

theorem ScalarValue.plain_materialize (value : ScalarValue) : value.materialize.Plain := by
  cases value with
  | string text => exact .string text
  | number d =>
    rcases numberValue_cases d with hnull | ⟨n, hnumber⟩
    · exact (hnull ▸ .null : (numberValue d).Plain)
    · exact (hnumber ▸ .number d hnumber : (numberValue d).Plain)
  | bool b => exact .bool b
  | null => exact .null

theorem ScalarValue.materialize_ne_object (value : ScalarValue) (members : List (String × Json)) :
    value.materialize ≠ .object members := by
  cases value with
  | number d =>
    rcases numberValue_cases d with hnull | ⟨n, hnumber⟩
    · exact fun h => nomatch hnull.symm.trans h
    · exact fun h => nomatch hnumber.symm.trans h
  | _ => nofun

theorem plain_ofMembers {members : List (String × Json)} (h : ∀ m ∈ members, m.2.Plain) :
    (Json.ofMembers members).Plain := by
  refine .object (Json.nodup_setAll List.nodup_nil) fun m hm => ?_
  rcases Json.mem_setAll hm with hm | ⟨m', hm', heq⟩
  · cases hm
  · exact heq ▸ h m' hm'

mutual

theorem Node.plain_materialize : ∀ node : Node, node.materialize.Plain
  | .mapping pairs _ => plain_ofMembers (plain_materializePairs pairs)
  | .sequence items _ => .array (plain_materializeItems items)
  | .scalar s => s.value.plain_materialize
  | .verbatim v => .string v.code

theorem plain_materializePairs : ∀ (pairs : List (Key × Node)), ∀ m ∈ materializePairs pairs, m.2.Plain
  | [] => nofun
  | (_, value) :: rest => List.forall_mem_cons.2 ⟨value.plain_materialize, plain_materializePairs rest⟩

theorem plain_materializeItems : ∀ (items : List Node), ∀ item ∈ materializeItems items, item.Plain
  | [] => nofun
  | item :: rest => List.forall_mem_cons.2 ⟨item.plain_materialize, plain_materializeItems rest⟩

end

/-! ## Filtered values -/

namespace LocaleFilter

theorem plain_filterValue (locales : List String) {value : Json} (h : value.Plain) :
    (filterValue locales value).Plain := by
  unfold filterValue
  split
  · exact h
  · cases h with
    | object distinct values =>
      exact .object (distinct.sublist (List.filter_sublist.map _))
        fun m hm => values m (List.mem_of_mem_filter hm)
    | null => exact .null
    | bool b => exact .bool b
    | number d value => exact .number d value
    | string s => exact .string s
    | array values => exact .array values

theorem materializePairs_filter (keep : String → Bool) (pairs : List (Key × Node)) :
    materializePairs (pairs.filter fun p => keep p.1.text) =
      (materializePairs pairs).filter fun m => keep m.1 := by
  induction pairs with
  | nil => rfl
  | cons pair rest ih =>
    obtain ⟨key, value⟩ := pair
    rw [materializePairs, List.filter_cons, List.filter_cons, ← ih]
    split <;> rfl

theorem filterValue_eq_self {locales : List String} {value : Json} (h : ∀ members, value ≠ .object members) :
    filterValue locales value = value := by
  unfold filterValue
  split
  · rfl
  · split
    · exact absurd rfl (h _)
    · rfl

/-- Dropping pairs of a resource drops the members of its value, also where a key is repeated. -/
theorem materialize_retain {locales : List String} (hlocales : locales ≠ []) (document : Document) :
    (retain locales document).materialize = filterValue locales document.materialize := by
  obtain ⟨root, filename⟩ := document
  cases root with
  | mapping pairs span =>
    have hsome : locales.isEmpty = false := by simpa using hlocales
    have hfilter := Json.filter_setAll (fun key => locales.contains key) [] (materializePairs pairs)
    simp only [retain, Document.materialize, Node.materialize, Json.ofMembers_eq, materializePairs_filter,
      filterValue, hsome, hfilter]
    rfl
  | scalar s => exact (filterValue_eq_self s.value.materialize_ne_object).symm
  | sequence items span =>
    have hvalue : ∀ members, Json.array (materializeItems items) ≠ .object members := nofun
    exact (filterValue_eq_self hvalue).symm
  | verbatim v =>
    have hvalue : ∀ members, Json.string v.code ≠ .object members := nofun
    exact (filterValue_eq_self hvalue).symm

end LocaleFilter

end MessageCatalog
