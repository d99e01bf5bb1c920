/-!
# Machine words

Counts and addresses are natural numbers or integers here. This module holds the bounds of the
words in which they are shown and stored.
-/

namespace HazardFlow

/-- The number of 64-bit words, so that a natural number fits in one exactly when it is below. -/
def wordCount : Nat := 1 <<< 64

/-- The largest 64-bit word. -/
def maxWord : Nat := wordCount - 1

/-- The largest size that a block of memory may have. -/
def maxBlock : Nat := 1 <<< 63 - 1

/-- The largest 32-bit word. -/
def maxHalfWord : Nat := 1 <<< 32 - 1

/-- The 64-bit word in which a counter shows. A counter from which more was taken than was added
is negative and shows wrapped around. -/
def asWord (count : Int) : Nat := (count % wordCount).toNat

/-- The signed reading of a 64-bit word. -/
def asSigned (word : Nat) : Int := if word < 1 <<< 63 then word else (word : Int) - wordCount

/-- Addition that stops at the largest 32-bit word. -/
def addHalfWord (a b : Nat) : Nat := min (a + b) maxHalfWord

/-- A positive number that is its own leading power of two. -/
def isPowerOfTwo (n : Nat) : Bool := n == 1 <<< n.log2

/-- An address of memory. Only its numeric value matters. -/
abbrev Address := Nat

/-- The least multiple of `align` that is at least `n`. -/
def roundUp (n align : Nat) : Nat := (n + align - 1) / align * align

/-- Rounding up reaches a multiple. -/
theorem dvd_roundUp (n align : Nat) : align ∣ roundUp n align := Nat.dvd_mul_left ..

/-- Rounding up loses nothing. -/
theorem le_roundUp {n align : Nat} (h : 0 < align) : n ≤ roundUp n align := by
  unfold roundUp
  have hdiv := Nat.div_add_mod (n + align - 1) align
  have hmod := Nat.mod_lt (n + align - 1) h
  rw [Nat.mul_comm] at hdiv
  omega

/-- Rounding up stops at the first multiple. -/
theorem roundUp_le {n m align : Nat} (hn : n ≤ m) (hm : align ∣ m) : roundUp n align ≤ m := by
  obtain ⟨k, rfl⟩ := hm
  unfold roundUp
  rcases Nat.eq_zero_or_pos align with rfl | hpos
  · simp
  · have hk : (n + align - 1) / align ≤ k := by
      rw [← Nat.lt_succ_iff, Nat.div_lt_iff_lt_mul hpos, Nat.succ_mul, Nat.mul_comm]
      omega
    rw [Nat.mul_comm align k]
    exact Nat.mul_le_mul_right align hk

/-- A power of two is recognized. -/
theorem isPowerOfTwo_one_shiftLeft (k : Nat) : isPowerOfTwo (1 <<< k) = true := by
  simp [isPowerOfTwo, Nat.one_shiftLeft, Nat.log2_two_pow]

/-- Only powers of two are recognized. -/
theorem isPowerOfTwo_iff {n : Nat} : isPowerOfTwo n = true ↔ ∃ k, n = 1 <<< k := by
  constructor
  · intro h
    exact ⟨n.log2, by simpa [isPowerOfTwo] using h⟩
  · rintro ⟨k, rfl⟩
    exact isPowerOfTwo_one_shiftLeft k

end HazardFlow
