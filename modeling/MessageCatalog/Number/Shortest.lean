/-
The fewest decimal digits that read back as a given double, and the layouts in which they are
written. Candidates are the two neighbours of the value on each decimal grid, from coarse to fine;
the first grid with a neighbour inside the rounding interval wins.
-/
import MessageCatalog.Number.Double

namespace MessageCatalog

namespace Double

/-! ## Digits -/

/-- A decimal number `digits · 10 ^ exponent`. -/
structure Decimal where
  digits : Nat
  exponent : Int
  deriving DecidableEq, Repr

/-- The numbers that round to `m · 2 ^ e`, in units of `2 ^ (e - 2)`: least, greatest, closed. -/
def roundingInterval (m : Nat) (e : Int) : Nat × Nat × Bool :=
  let low := if m = Nat.pow 2 52 ∧ minExponent < e then 4 * m - 1 else 4 * m - 2
  (low, 4 * m + 2, m % 2 = 0)

/-- Compares `a · 10 ^ p` with `b · 2 ^ q`. -/
def compareScaled (a : Nat) (p : Int) (b : Nat) (q : Int) : Ordering :=
  compare (a * Nat.pow 10 p.toNat * Nat.pow 2 (-q).toNat)
    (b * Nat.pow 2 q.toNat * Nat.pow 10 (-p).toNat)

/-- Whether `a · 10 ^ p` reads back as `m · 2 ^ e`. -/
def readsBack (m : Nat) (e : Int) (a : Nat) (p : Int) : Bool :=
  let (low, high, closed) := roundingInterval m e
  let below := compareScaled a p low (e - 2)
  let above := compareScaled a p high (e - 2)
  (below = .gt || (closed && below = .eq)) && (above = .lt || (closed && above = .eq))

/-- How many decimal digits a natural number has; none for zero. -/
def decimalLength (n : Nat) : Nat := if n = 0 then 0 else (Nat.toDigits 10 n).length

/-- The position after the first digit of `m · 2 ^ e`: the value is below `10 ^ point`. -/
def leadingPoint (m : Nat) (e : Int) : Int :=
  if 0 ≤ e then decimalLength (m * Nat.pow 2 e.toNat)
  else
    let scale := (-e).toNat
    -- `m / 2 ^ scale` times `10 ^ scale` is whole
    (decimalLength (m * Nat.pow 5 scale) : Int) - scale

/-- Which neighbour is taken when the value lies in the middle. -/
inductive Tie where
  | up
  | even
  deriving DecidableEq, Repr

/-- The better neighbour of `m · 2 ^ e` on the grid of `10 ^ p`, if one reads back. -/
def onGrid (tie : Tie) (m : Nat) (e p : Int) : Option Decimal :=
  let num := m * Nat.pow 2 e.toNat * Nat.pow 10 (-p).toNat
  let den := Nat.pow 2 (-e).toNat * Nat.pow 10 p.toNat
  let low := num / den
  let high := low + 1
  let lowOk := readsBack m e low p
  let highOk := readsBack m e high p
  let preferLow :=
    match compare (2 * (num % den)) den with
    | .lt => true
    | .gt => false
    | .eq => tie = .even && low % 2 = 0
  if lowOk && (preferLow || !highOk) then some ⟨low, p⟩
  else if highOk then some ⟨high, p⟩
  else none

/-- The first grid with a hit, from `count` digits on; `more` bounds how many grids are tried. -/
def searchGrids (tie : Tie) (m : Nat) (e : Int) (point : Int) : Nat → Nat → Decimal
  | _, 0 => ⟨m, e⟩
  | count, more + 1 =>
    match onGrid tie m e (point - count) with
    | some d => d
    | none => searchGrids tie m e point (count + 1) more

/-- Drops the zeros at the end of the digits. -/
def Decimal.normalize (d : Decimal) : Decimal :=
  go d.digits d.exponent (decimalLength d.digits)
where
  go (digits : Nat) (exponent : Int) : Nat → Decimal
    | 0 => ⟨digits, exponent⟩
    | more + 1 =>
      if digits ≠ 0 ∧ digits % 10 = 0 then go (digits / 10) (exponent + 1) more
      else ⟨digits, exponent⟩

/-- The shortest decimal that reads back as `m · 2 ^ e`, the nearest of those. -/
def shortest (tie : Tie) (m : Nat) (e : Int) : Decimal :=
  (searchGrids tie m e (leadingPoint m e) 1 17).normalize

/-! ## Layouts -/

/-- How the digits of a number are laid out. -/
structure Layout where
  /-- The places of the decimal point at which no exponent is written; `none` means all. -/
  positional : Option (Int × Int)
  /-- A whole number written without an exponent ends in `.0`. -/
  wholeFraction : Bool
  /-- A positive exponent carries its sign. -/
  plusSign : Bool
  tie : Tie

def zeros (n : Nat) : String := String.ofList (List.replicate n '0')

/-- The digits with the point after `point` of them, filled with zeros on either side. -/
def positionalText (wholeFraction : Bool) (digits : String) (point : Int) : String :=
  let count : Int := digits.length
  if count ≤ point then
    digits ++ zeros (point - count).toNat ++ (if wholeFraction then ".0" else "")
  else if 0 < point then
    String.ofList (digits.toList.take point.toNat) ++ "." ++
      String.ofList (digits.toList.drop point.toNat)
  else "0." ++ zeros (-point).toNat ++ digits

/-- One digit before the point, and the power of ten. -/
def exponentText (plusSign : Bool) (digits : String) (point : Int) : String :=
  let power := point - 1
  let fraction := String.ofList (digits.toList.drop 1)
  let sign := if power < 0 then "-" else if plusSign then "+" else ""
  String.ofList (digits.toList.take 1) ++ (if fraction = "" then "" else "." ++ fraction) ++ "e" ++
    sign ++ toString power.natAbs

/-- The shortest text of a magnitude in a layout. -/
def Layout.magnitude (layout : Layout) (x : Magnitude) : String :=
  if x.mantissa = 0 then (if layout.wholeFraction then "0.0" else "0")
  else
    let d := shortest layout.tie x.mantissa x.exponent
    let digits := toString d.digits
    let point : Int := digits.length + d.exponent
    match layout.positional with
    | none => positionalText layout.wholeFraction digits point
    | some (low, high) =>
      if low ≤ point ∧ point ≤ high then positionalText layout.wholeFraction digits point
      else exponentText layout.plusSign digits point

end Double

end MessageCatalog
