/-
What a resource holds when its places are forgotten. The sign of a zero is forgotten too: no text
that is written shows it.
-/
import MessageCatalog.Resource.Node

namespace MessageCatalog

/-! ## Zeros -/

def Double.unsignedZero : Double → Double
  | .finite negative x => .finite (negative && x.mantissa ≠ 0) x
  | d => d

def ScalarValue.unsignedZero : ScalarValue → ScalarValue
  | .number d => .number d.unsignedZero
  | value => value

@[simp] theorem Double.unsignedZero_unsignedZero (d : Double) :
    d.unsignedZero.unsignedZero = d.unsignedZero := by
  cases d with
  | finite negative x => simp [unsignedZero]
  | _ => rfl

@[simp] theorem ScalarValue.unsignedZero_unsignedZero (value : ScalarValue) :
    value.unsignedZero.unsignedZero = value.unsignedZero := by
  cases value with
  | number d => exact congrArg ScalarValue.number d.unsignedZero_unsignedZero
  | _ => rfl

/-! ## Texts of scalars -/

theorem numberText_unsignedZero (d : Double) : numberText d.unsignedZero = numberText d := by
  cases d with
  | finite negative x => simp [Double.unsignedZero, numberText]
  | _ => rfl

theorem ScalarValue.literal_unsignedZero (value : ScalarValue) :
    value.unsignedZero.literal = value.literal := by
  cases value with
  | number d => exact numberText_unsignedZero d
  | _ => rfl

/-! ## Trees -/

inductive Content where
  | mapping (pairs : List (String × Content))
  | sequence (items : List Content)
  | scalar (value : ScalarValue) (unsigned : value.unsignedZero = value)
  | verbatim (code : String)

mutual

def Node.content : Node → Content
  | .mapping pairs _ => .mapping (pairContents pairs)
  | .sequence items _ => .sequence (itemContents items)
  | .scalar s => .scalar s.value.unsignedZero s.value.unsignedZero_unsignedZero
  | .verbatim v => .verbatim v.code

def pairContents : List (Key × Node) → List (String × Content)
  | [] => []
  | (key, value) :: rest => (key.text, value.content) :: pairContents rest

def itemContents : List Node → List Content
  | [] => []
  | item :: rest => item.content :: itemContents rest

end

mutual

/-- The codes of functions that a content holds, in order. -/
def Content.codes : Content → List String
  | .mapping pairs => pairCodes pairs
  | .sequence items => itemCodes items
  | .scalar _ _ => []
  | .verbatim code => [code]

def pairCodes : List (String × Content) → List String
  | [] => []
  | (_, value) :: rest => value.codes ++ pairCodes rest

def itemCodes : List Content → List String
  | [] => []
  | item :: rest => item.codes ++ itemCodes rest

end

/-- What every scalar and every code of a content has. -/
inductive Content.Every (scalar : ScalarValue → Prop) (code : String → Prop) : Content → Prop where
  | mapping {pairs : List (String × Content)} (values : ∀ pair ∈ pairs, pair.2.Every scalar code) :
    Every scalar code (.mapping pairs)
  | sequence {items : List Content} (values : ∀ item ∈ items, item.Every scalar code) :
    Every scalar code (.sequence items)
  | scalar {value : ScalarValue} {unsigned : value.unsignedZero = value} (holds : scalar value) :
    Every scalar code (.scalar value unsigned)
  | verbatim {text : String} (holds : code text) : Every scalar code (.verbatim text)

theorem Content.Every.mono {scalar scalar' : ScalarValue → Prop} {code code' : String → Prop}
    (hscalar : ∀ value, scalar value → scalar' value) (hcode : ∀ text, code text → code' text)
    {c : Content} (h : c.Every scalar code) : c.Every scalar' code' := by
  induction h with
  | mapping _ ih => exact .mapping ih
  | sequence _ ih => exact .sequence ih
  | scalar holds => exact .scalar (hscalar _ holds)
  | verbatim holds => exact .verbatim (hcode _ holds)

mutual

theorem Content.every_of_codes {code : String → Prop} :
    ∀ {c : Content}, (∀ text ∈ c.codes, code text) → c.Every (fun _ => True) code
  | .mapping _, h => .mapping (every_of_pairCodes h)
  | .sequence _, h => .sequence (every_of_itemCodes h)
  | .scalar _ _, _ => .scalar trivial
  | .verbatim text, h => .verbatim (h text (List.mem_singleton_self text))

theorem every_of_pairCodes {code : String → Prop} :
    ∀ {pairs : List (String × Content)}, (∀ text ∈ pairCodes pairs, code text) →
      ∀ pair ∈ pairs, pair.2.Every (fun _ => True) code
  | [], _ => nofun
  | (_, value) :: rest, h => by
    rw [pairCodes, List.forall_mem_append] at h
    exact List.forall_mem_cons.2 ⟨Content.every_of_codes h.1, every_of_pairCodes h.2⟩

theorem every_of_itemCodes {code : String → Prop} :
    ∀ {items : List Content}, (∀ text ∈ itemCodes items, code text) →
      ∀ item ∈ items, item.Every (fun _ => True) code
  | [], _ => nofun
  | item :: rest, h => by
    rw [itemCodes, List.forall_mem_append] at h
    exact List.forall_mem_cons.2 ⟨Content.every_of_codes h.1, every_of_itemCodes h.2⟩

end

/-- The numbers of a content have no sign at zero. -/
theorem Content.Every.of_unsigned {scalar scalar' : ScalarValue → Prop} {code : String → Prop}
    (hscalar : ∀ value, scalar value → value.unsignedZero = value → scalar' value) {c : Content}
    (h : c.Every scalar code) : c.Every scalar' code := by
  induction h with
  | mapping _ ih => exact .mapping ih
  | sequence _ ih => exact .sequence ih
  | @scalar value unsigned holds => exact .scalar (hscalar value holds unsigned)
  | verbatim holds => exact .verbatim holds

end MessageCatalog
