import Mathlib.Algebra.Ring.Nat

/-!
Binary64 arithmetic on natural numbers.

A float that is a natural number is kept as this number, and a product with a
fraction of two as the product of the numerators. What is left of the format is
the rounding to 53 significant bits, to the nearest and on ties to the even one.
The exponents are taken to fit, as they do for numbers below 2 ^ 1000.
-/

namespace CdvizCollector.Lib.Binary64

/-- The `p` bit number next to `n`; of two that are equally near, the even one. -/
def roundBits (p n : ℕ) : ℕ :=
  let dropped := n.log2 + 1 - p
  let q := n / 2 ^ dropped
  let r := n % 2 ^ dropped
  if 2 ^ dropped < 2 * r ∨ 2 * r = 2 ^ dropped ∧ q % 2 = 1 then (q + 1) * 2 ^ dropped
  else q * 2 ^ dropped

/-- `n as f64`. -/
def ofNat (n : ℕ) : ℕ := roundBits 53 n

/-- The bits of the float that is this number, which has 53 significant bits at most:
the exponent and, without its leading bit, the mantissa. -/
def toBits (n : ℕ) : UInt64 :=
  if n = 0 then 0
  else UInt64.ofNat ((n.log2 + 1023) * 2 ^ 52 + (n * 2 ^ 52 / 2 ^ n.log2 - 2 ^ 52))

def negBits (n : ℕ) : UInt64 := UInt64.ofNat (2 ^ 63) + toBits n

/-- `(x * (m / 2 ^ k)) as usize`, the product rounded and then truncated, but for
the saturation. -/
def mulTruncate (m k x : ℕ) : ℕ := roundBits 53 (x * m) / 2 ^ k

/-- Rounding up adds half a unit of the last place at most. -/
theorem two_mul_roundBits_le (p n : ℕ) :
    2 * roundBits p n ≤ 2 * n + 2 ^ (n.log2 + 1 - p) := by
  have hdiv := Nat.div_add_mod n (2 ^ (n.log2 + 1 - p))
  rw [Nat.mul_comm] at hdiv
  unfold roundBits
  simp only
  split
  · rename_i hup
    rw [Nat.add_mul, Nat.one_mul]
    rcases hup with hup | ⟨hup, -⟩ <;> omega
  · omega

theorem roundBits_eq_self {p n : ℕ} (h : n.log2 + 1 ≤ p) : roundBits p n = n := by
  have hdropped : n.log2 + 1 - p = 0 := by omega
  simp [roundBits, hdropped, Nat.mod_one]

/-- The relative error is at most one in `2 ^ p`. -/
theorem roundBits_le {p : ℕ} (hp : 0 < p) (n : ℕ) :
    2 ^ p * roundBits p n ≤ (2 ^ p + 1) * n := by
  by_cases hsmall : n.log2 + 1 ≤ p
  · rw [roundBits_eq_self hsmall]
    exact Nat.mul_le_mul_right n (Nat.le_succ _)
  · have hn : n ≠ 0 := by
      rintro rfl
      exact hsmall (by rw [Nat.log2_zero]; exact hp)
    have hunit : 2 ^ p * 2 ^ (n.log2 + 1 - p) ≤ 2 * n := by
      calc 2 ^ p * 2 ^ (n.log2 + 1 - p) = 2 * 2 ^ n.log2 := by
            rw [← Nat.pow_add, Nat.add_sub_cancel' (by omega), Nat.pow_succ, Nat.mul_comm]
        _ ≤ 2 * n := Nat.mul_le_mul_left 2 (Nat.log2_self_le hn)
    have hround := Nat.mul_le_mul_left (2 ^ p) (two_mul_roundBits_le p n)
    rw [Nat.mul_add, Nat.mul_left_comm, Nat.mul_left_comm _ 2 n] at hround
    rw [Nat.add_mul, Nat.one_mul]
    omega

/-- Scaling by less than the rounding errors leave room for does not increase. -/
theorem mulTruncate_ofNat_le {m k : ℕ} (h : (2 ^ 53 + 1) * (2 ^ 53 + 1) * m ≤ 2 ^ 106 * 2 ^ k)
    (n : ℕ) : mulTruncate m k (ofNat n) ≤ n := by
  have hfirst : 2 ^ 53 * ofNat n ≤ (2 ^ 53 + 1) * n := roundBits_le (by omega) n
  have hsecond := roundBits_le (p := 53) (by omega) (ofNat n * m)
  refine Nat.div_le_of_le_mul ?_
  have hscaled : 2 ^ 106 * roundBits 53 (ofNat n * m) ≤ 2 ^ 106 * (2 ^ k * n) := by
    calc 2 ^ 106 * roundBits 53 (ofNat n * m)
        = 2 ^ 53 * (2 ^ 53 * roundBits 53 (ofNat n * m)) := by rw [← Nat.mul_assoc, ← pow_add]
      _ ≤ 2 ^ 53 * ((2 ^ 53 + 1) * (ofNat n * m)) := Nat.mul_le_mul_left _ hsecond
      _ = (2 ^ 53 + 1) * (2 ^ 53 * ofNat n) * m := by ac_rfl
      _ ≤ (2 ^ 53 + 1) * ((2 ^ 53 + 1) * n) * m :=
          Nat.mul_le_mul_right m (Nat.mul_le_mul_left _ hfirst)
      _ = (2 ^ 53 + 1) * (2 ^ 53 + 1) * m * n := by ac_rfl
      _ ≤ 2 ^ 106 * 2 ^ k * n := Nat.mul_le_mul_right n h
      _ = 2 ^ 106 * (2 ^ k * n) := Nat.mul_assoc _ _ _
  exact Nat.le_of_mul_le_mul_left hscaled (by omega)

end CdvizCollector.Lib.Binary64
