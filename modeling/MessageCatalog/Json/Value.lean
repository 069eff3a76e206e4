/-
JSON values. The members of an object keep the order in which their keys first appeared; a key that
is set again keeps its place and takes the new value.
-/
import MessageCatalog.Number.Double

namespace MessageCatalog

/-- A number of a JSON text: a whole number of any size, or a double. -/
inductive JsonNumber where
  | whole (n : Int)
  | double (d : Double)
  deriving DecidableEq, Repr, Inhabited

inductive Json where
  | null
  | bool (b : Bool)
  | number (n : JsonNumber)
  | string (s : String)
  | array (items : List Json)
  | object (members : List (String × Json))
  deriving Repr, Inhabited

namespace Json

/-! ## Members -/

/-- Sets a key: in its place when it is there, at the end otherwise. -/
def setMember (key : String) (value : Json) : List (String × Json) → List (String × Json)
  | [] => [(key, value)]
  | (k, v) :: rest => if k = key then (k, value) :: rest else (k, v) :: setMember key value rest

def keys (members : List (String × Json)) : List String := members.map (·.1)

theorem keys_setMember (key : String) (value : Json) (members : List (String × Json)) :
    keys (setMember key value members) =
      if key ∈ keys members then keys members else keys members ++ [key] := by
  induction members with
  | nil => simp [keys, setMember]
  | cons m rest ih =>
    obtain ⟨k, v⟩ := m
    by_cases h : k = key
    · simp [keys, setMember, h]
    · have h' : ¬ key = k := fun e => h e.symm
      simp only [setMember, h, if_false, keys, List.map_cons, List.mem_cons, h', false_or] at ih ⊢
      split <;> rename_i hm <;> simp [hm] at ih ⊢ <;> exact ih

/-- The object whose keys are set one after another. -/
def ofMembers (members : List (String × Json)) : Json :=
  .object (members.foldl (fun acc (k, v) => setMember k v acc) [])

def member? (key : String) : Json → Option Json
  | .object members => (members.find? (·.1 = key)).map (·.2)
  | _ => none

end Json

end MessageCatalog
