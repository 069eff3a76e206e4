/-
Resources that are nothing but their value: no key is repeated, every number is finite, and there is no
code. What such a resource materializes to holds all that it holds itself.
-/
import MessageCatalog.Proofs.Resource.Data

namespace MessageCatalog

open Double

/-! ## Lossless nodes -/

/-- A scalar that has a JSON value of its own. -/
def ScalarValue.isLossless : ScalarValue → Bool
  | .number (.finite _ _) => true
  | .number _ => false
  | _ => true

mutual

/-- Whether nothing of a node is lost when it is materialized. -/
def Node.isLossless : Node → Bool
  | .mapping pairs _ => decide (pairs.map (·.1.text)).Nodup && losslessPairs pairs
  | .sequence items _ => losslessItems items
  | .scalar s => s.value.isLossless
  | .verbatim _ => false

def losslessPairs : List (Key × Node) → Bool
  | [] => true
  | (_, value) :: rest => value.isLossless && losslessPairs rest

def losslessItems : List Node → Bool
  | [] => true
  | item :: rest => item.isLossless && losslessItems rest

end

/-! ## Materialization -/

theorem keys_materializePairs (pairs : List (Key × Node)) :
    Json.keys (materializePairs pairs) = pairs.map (·.1.text) := by
  induction pairs with
  | nil => rfl
  | cons pair rest ih => exact congrArg (pair.1.text :: ·) ih

/-- The JSON number of a finite double is the double, but for the sign of a zero. -/
theorem toDouble_unsignedZero {negative : Bool} {x : Magnitude} {n : JsonNumber}
    (h : numberValue (.finite negative x) = .number n) :
    n.toDouble.unsignedZero = (Double.finite negative x).unsignedZero := by
  simp only [numberValue] at h
  split at h
  · rename_i k hwhole
    split at h
    · cases h
      rcases Nat.eq_zero_or_pos k with rfl | hk
      · have hvalue := whole?_value hwhole
        have hzero : x.mantissa = 0 := by
          simpa [two_zpow_pos x.exponent |>.ne'] using hvalue.symm
        have hsign : (if negative then -((0 : Nat) : Int) else (0 : Nat)) = 0 := by
          cases negative <;> rfl
        rw [JsonNumber.toDouble, hsign, eq_signedZero hzero]
        cases negative <;> rfl
      · rw [JsonNumber.toDouble, ofInt_whole hwhole hk]
    · cases h
      rfl
  · cases h
    rfl

theorem ScalarValue.content_materialize {value : ScalarValue} (h : value.isLossless = true) :
    value.materialize.content = .scalar value.unsignedZero value.unsignedZero_unsignedZero := by
  cases value with
  | number d =>
    cases d with
    | finite negative x =>
      obtain ⟨n, hnumber⟩ := numberValue_finite negative x
      have hsame := congrArg ScalarValue.number (toDouble_unsignedZero hnumber)
      rw [ScalarValue.materialize, hnumber, Json.content]
      congr 1
    | _ => cases h
  | _ => rfl

mutual

/-- A lossless node materializes to a value with all that it holds. -/
theorem Node.content_materialize : ∀ {node : Node}, node.isLossless = true →
    node.materialize.content = node.content
  | .mapping pairs _, h => by
    obtain ⟨hdistinct, hvalues⟩ := Bool.and_eq_true_iff.1 h
    have hkeys : (Json.keys (materializePairs pairs)).Nodup := by
      rw [keys_materializePairs]
      exact of_decide_eq_true hdistinct
    -- keys that are distinct never replace one another
    have hall : Json.setAll [] (materializePairs pairs) = materializePairs pairs :=
      Json.setAll_of_nodup hkeys
    rw [Node.materialize, Json.ofMembers_eq, hall, Json.content, memberContents_materialize hvalues,
      Node.content]
  | .sequence items _, h => by
    rw [Node.materialize, Json.content, valueContents_materialize h, Node.content]
  | .scalar s, h => ScalarValue.content_materialize h
  | .verbatim _, h => by cases h

theorem memberContents_materialize : ∀ {pairs : List (Key × Node)}, losslessPairs pairs = true →
    memberContents (materializePairs pairs) = pairContents pairs
  | [], _ => rfl
  | (key, value) :: rest, h => by
    obtain ⟨hvalue, hrest⟩ := Bool.and_eq_true_iff.1 h
    rw [materializePairs, memberContents, value.content_materialize hvalue,
      memberContents_materialize hrest, pairContents]

theorem valueContents_materialize : ∀ {items : List Node}, losslessItems items = true →
    valueContents (materializeItems items) = itemContents items
  | [], _ => rfl
  | item :: rest, h => by
    obtain ⟨hitem, hrest⟩ := Bool.and_eq_true_iff.1 h
    rw [materializeItems, valueContents, item.content_materialize hitem,
      valueContents_materialize hrest, itemContents]

end

end MessageCatalog
