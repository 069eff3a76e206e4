/-
Setting the members of an object one after another: keys stay distinct, and dropping keys commutes
with setting members.
-/
import MessageCatalog.Json.Value
import Mathlib.Data.List.Nodup

namespace MessageCatalog.Json

variable {members : List (String × Json)}

theorem setMember_of_not_mem {key : String} {value : Json} (h : key ∉ keys members) :
    setMember key value members = members ++ [(key, value)] := by
  induction members with
  | nil => rfl
  | cons m rest ih =>
    obtain ⟨k, v⟩ := m
    obtain ⟨hk, hrest⟩ := not_or.1 (mt List.mem_cons.2 h)
    rw [setMember, if_neg (Ne.symm hk), ih hrest]
    rfl

theorem mem_setMember {key : String} {value : Json} {m : String × Json}
    (h : m ∈ setMember key value members) :
    m.2 = value ∨ m ∈ members := by
  induction members with
  | nil =>
    obtain rfl := List.mem_singleton.1 h
    exact .inl rfl
  | cons m' rest ih =>
    rw [setMember] at h
    split at h
    · rcases List.mem_cons.1 h with rfl | h
      · exact .inl rfl
      · exact .inr (List.mem_cons_of_mem _ h)
    · rcases List.mem_cons.1 h with rfl | h
      · exact .inr List.mem_cons_self
      · exact (ih h).imp id (List.mem_cons_of_mem _)

/-- The members of the object whose keys are set one after another. -/
def setAll (start members : List (String × Json)) : List (String × Json) :=
  members.foldl (fun acc (k, v) => setMember k v acc) start

theorem ofMembers_eq (members : List (String × Json)) : ofMembers members = .object (setAll [] members) := rfl

theorem setAll_cons (start rest : List (String × Json)) (key : String) (value : Json) :
    setAll start ((key, value) :: rest) = setAll (setMember key value start) rest := rfl

theorem setAll_of_nodup {start members : List (String × Json)} (h : (keys (start ++ members)).Nodup) :
    setAll start members = start ++ members := by
  induction members generalizing start with
  | nil => rw [List.append_nil]; rfl
  | cons m rest ih =>
    obtain ⟨k, v⟩ := m
    have hnew : k ∉ keys start := by
      rw [keys, List.map_append, List.map_cons] at h
      exact fun hk => (List.nodup_append.1 h).2.2 _ hk _ List.mem_cons_self rfl
    have hstep : start ++ (k, v) :: rest = (start ++ [(k, v)]) ++ rest := by simp
    rw [setAll_cons, setMember_of_not_mem hnew, hstep]
    rw [hstep] at h
    exact ih h

theorem nodup_setMember {key : String} {value : Json} (h : (keys members).Nodup) :
    (keys (setMember key value members)).Nodup := by
  rw [keys_setMember]
  split
  · exact h
  · rename_i hnew
    exact List.nodup_append.2 ⟨h, List.nodup_singleton _,
      fun a ha b hb hab => hnew (List.mem_singleton.1 hb ▸ hab ▸ ha)⟩

theorem nodup_setAll {start members : List (String × Json)} (h : (keys start).Nodup) :
    (keys (setAll start members)).Nodup := by
  induction members generalizing start with
  | nil => exact h
  | cons m rest ih => exact ih (nodup_setMember h)

theorem mem_setAll {start members : List (String × Json)} {m : String × Json} (h : m ∈ setAll start members) :
    m ∈ start ∨ ∃ m' ∈ members, m'.2 = m.2 := by
  induction members generalizing start with
  | nil => exact .inl h
  | cons m' rest ih =>
    rcases ih h with h | ⟨m'', hm, heq⟩
    · rcases mem_setMember h with h | h
      · exact .inr ⟨m', List.mem_cons_self, h.symm⟩
      · exact .inl h
    · exact .inr ⟨m'', List.mem_cons_of_mem _ hm, heq⟩

/-- Keys that are dropped leave the other members as they are. -/
theorem filter_setMember (keep : String → Bool) (key : String) (value : Json) :
    (setMember key value members).filter (fun m => keep m.1) =
      if keep key then setMember key value (members.filter fun m => keep m.1)
      else members.filter fun m => keep m.1 := by
  induction members with
  | nil => cases hkey : keep key <;> simp [setMember, hkey]
  | cons m rest ih =>
    obtain ⟨k, v⟩ := m
    by_cases hk : k = key
    · subst hk
      cases hkey : keep k <;> simp [setMember, hkey]
    · cases hkeep : keep k <;> cases hkey : keep key <;>
        simp [setMember, hk, hkeep, hkey] at ih ⊢ <;> exact ih

theorem filter_setAll (keep : String → Bool) (start members : List (String × Json)) :
    (setAll start members).filter (fun m => keep m.1) =
      setAll (start.filter fun m => keep m.1) (members.filter fun m => keep m.1) := by
  induction members generalizing start with
  | nil => rfl
  | cons m rest ih =>
    obtain ⟨k, v⟩ := m
    rw [setAll_cons, ih, filter_setMember]
    cases hk : keep k <;> simp [hk, setAll_cons]

end MessageCatalog.Json
