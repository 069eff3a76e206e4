/-
Variable-length quantities in base 64: the sign in the lowest bit, five bits a digit from the low
end, and a continuation bit on every digit but the last.
-/

namespace MessageCatalog.Vlq

/-! ## Digits -/

def alphabet : List Char :=
  "ABCDEFGHIJKLMNOPQRSTUVWXYZabcdefghijklmnopqrstuvwxyz0123456789+/".toList

def digitChar (n : Nat) : Char := (alphabet[n]?).getD 'A'

def digitValue? (c : Char) : Option Nat := alphabet.findIdx? (· = c)

/-! ## Numbers -/

/-- The magnitude shifted left by one, with the sign in the lowest bit. -/
def fold (n : Int) : Nat := if n < 0 then 2 * n.natAbs + 1 else 2 * n.natAbs

def unfold (n : Nat) : Int := if n % 2 = 1 then -(n / 2 : Nat) else (n / 2 : Nat)

/-- The digits of a folded number. -/
def encodeNat (n : Nat) : List Char :=
  if h : n < 32 then [digitChar n]
  else digitChar (n % 32 + 32) :: encodeNat (n / 32)
termination_by n
decreasing_by omega

def encode (n : Int) : List Char := encodeNat (fold n)

/--
The numbers of a text, with what has been read of the current one: its value so far and the weight
of the next digit. `none` when a character is no digit or the last number is not finished.
-/
def decodeFrom (value weight : Nat) : List Char → Option (List Int)
  | [] => if weight = 1 then some [] else none
  | c :: rest =>
    match digitValue? c with
    | none => none
    | some d =>
      let value := value + d % 32 * weight
      if d < 32 then (decodeFrom 0 1 rest).map (unfold value :: ·)
      else decodeFrom value (weight * 32) rest

def decode? (cs : List Char) : Option (List Int) := decodeFrom 0 1 cs

end MessageCatalog.Vlq
