/-
Two measures of text: bytes of the UTF-8 form, which offsets count, and UTF-16 code units, which
columns count. A text is cut at byte offsets, and a cut inside a character does not exist.
-/

namespace MessageCatalog.Text

/-! ## Lengths -/

/-- The number of bytes of the UTF-8 form. -/
def byteLength : List Char → Nat
  | [] => 0
  | c :: cs => c.utf8Size + byteLength cs

/-- The number of UTF-16 code units of one character: a pair above U+FFFF. -/
def unitsOf (c : Char) : Nat := if c.val ≤ 0xFFFF then 1 else 2

/-- The number of UTF-16 code units. -/
def units : List Char → Nat
  | [] => 0
  | c :: cs => unitsOf c + units cs

@[simp] theorem byteLength_append (a b : List Char) :
    byteLength (a ++ b) = byteLength a + byteLength b := by
  induction a with
  | nil => simp [byteLength]
  | cons c cs ih => simp [byteLength, ih, Nat.add_assoc]

@[simp] theorem units_append (a b : List Char) : units (a ++ b) = units a + units b := by
  induction a with
  | nil => simp [units]
  | cons c cs ih => simp [units, ih, Nat.add_assoc]

/-! ## Cuts -/

/-- The text before and after byte `n`; `none` past the end and inside a character. -/
def cut? : Nat → List Char → Option (List Char × List Char)
  | 0, cs => some ([], cs)
  | _ + 1, [] => none
  | n + 1, c :: cs =>
    if n + 1 < c.utf8Size then none
    else (cut? (n + 1 - c.utf8Size) cs).map fun (before, after) => (c :: before, after)

/-- The text from byte `start` up to byte `stop`. -/
def slice? (cs : List Char) (start stop : Nat) : Option (List Char) :=
  if stop < start then none
  else do
    let (_, tail) ← cut? start cs
    let (middle, _) ← cut? (stop - start) tail
    return middle

theorem cut?_eq_some {n : Nat} {cs before after : List Char}
    (h : cut? n cs = some (before, after)) :
    before ++ after = cs ∧ byteLength before = n := by
  induction n, cs using cut?.induct generalizing before after with
  | case1 cs => simp [cut?] at h; obtain ⟨rfl, rfl⟩ := h; simp [byteLength]
  | case2 n => simp [cut?] at h
  | case3 n c cs hlt => simp [cut?, hlt] at h
  | case4 n c cs hlt ih =>
    simp only [cut?, hlt, if_false, Option.map_eq_some_iff] at h
    obtain ⟨⟨b, a⟩, hb, heq⟩ := h
    simp only [Prod.mk.injEq] at heq
    obtain ⟨rfl, rfl⟩ := heq
    obtain ⟨h1, h2⟩ := ih hb
    refine ⟨by simp [h1], ?_⟩
    simp only [byteLength, h2]
    omega

end MessageCatalog.Text
