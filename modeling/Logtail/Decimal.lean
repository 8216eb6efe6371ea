import Mathlib.Data.Nat.Digits.Defs

/-!
# Decimal text of integers

ASCII decimal numerals as an output stream prints them, and their value. The
numeral of an integer is not empty, has digits only behind its sign and
determines the integer.
-/

namespace Decimal

def digitByte (n : Nat) : UInt8 := UInt8.ofNat (48 + n)

def digitValue (b : UInt8) : Nat := b.toNat - 48

def isDigit (b : UInt8) : Bool := decide (48 ≤ b.toNat) && decide (b.toNat ≤ 57)

def minus : UInt8 := 45

def printNat (n : Nat) : List UInt8 :=
  if n = 0 then [48] else (Nat.digits 10 n).reverse.map digitByte

def print (z : Int) : List UInt8 :=
  if z < 0 then minus :: printNat z.natAbs else printNat z.natAbs

def readNat (ds : List UInt8) : Nat := Nat.ofDigits 10 (ds.reverse.map digitValue)

theorem digitValue_digitByte {n : Nat} (h : n < 10) : digitValue (digitByte n) = n := by
  have hsmall : 48 + n < 256 := by omega
  simp [digitValue, digitByte, Nat.mod_eq_of_lt hsmall]

theorem isDigit_digitByte {n : Nat} (h : n < 10) : isDigit (digitByte n) := by
  have hsmall : 48 + n < 256 := by omega
  simp [isDigit, digitByte, Nat.mod_eq_of_lt hsmall]
  omega

theorem readNat_printNat (n : Nat) : readNat (printNat n) = n := by
  unfold printNat readNat
  split
  · rename_i h
    simp [h, digitValue]
  · have hmap : ((Nat.digits 10 n).map digitByte).map digitValue = Nat.digits 10 n := by
      rw [List.map_map]
      conv_rhs => rw [← List.map_id (Nat.digits 10 n)]
      apply List.map_congr_left
      intro d hd
      exact digitValue_digitByte (Nat.digits_lt_base (by decide) hd)
    rw [← List.map_reverse, List.reverse_reverse, hmap, Nat.ofDigits_digits]

theorem isDigit_of_mem_printNat {n : Nat} {b : UInt8} (h : b ∈ printNat n) : isDigit b := by
  unfold printNat at h
  split at h
  · rw [List.mem_singleton.mp h]
    decide
  · obtain ⟨d, hd, rfl⟩ := List.mem_map.mp h
    exact isDigit_digitByte (Nat.digits_lt_base (by decide) (List.mem_reverse.mp hd))

theorem printNat_ne_nil (n : Nat) : printNat n ≠ [] := by
  unfold printNat
  split
  · exact List.cons_ne_nil _ _
  · rename_i h
    simpa [Nat.digits_ne_nil_iff_ne_zero] using h

theorem digit_or_minus_of_mem_print {z : Int} {b : UInt8} (h : b ∈ print z) :
    isDigit b ∨ b = minus := by
  unfold print at h
  split at h
  · rcases List.mem_cons.mp h with heq | h
    · exact Or.inr heq
    · exact Or.inl (isDigit_of_mem_printNat h)
  · exact Or.inl (isDigit_of_mem_printNat h)

/-- A separator that is neither digit nor minus does not occur in a numeral. -/
theorem not_mem_print {b : UInt8} (hb : isDigit b = false) (hm : b ≠ minus) (z : Int) :
    b ∉ print z := by
  intro h
  rcases digit_or_minus_of_mem_print h with hd | heq
  · rw [hb] at hd
    cases hd
  · exact hm heq

end Decimal
