import Mathlib.Data.Nat.Log
import Mathlib.Algebra.Order.Ring.Int
import Mathlib.Tactic.Ring

/-!
# Rounding to a number of significant bits

A number *fits* into `p` bits if it is a number below `2 ^ p` times a power of two.
`roundEven p m` is `m`, rounded to a number that fits, with ties to the even one.

*Grid.*  Between `2 ^ l` and `2 ^ (l + 1)` the numbers that fit are the multiples of
`unit p m`, so none lies strictly between two multiples that are next to each other
(`fits_between`).

*Nearest.*  So no number that fits is nearer than `roundEven p m`
(`dist_roundEven_le`), and the numbers that are rounded to themselves are those that
fit (`roundEven_eq_self_iff`).
-/

namespace Rounding

/-- The number has at most `p` significant bits. -/
def Fits (p m : Nat) : Prop := ∃ a k, a < 2 ^ p ∧ m = a * 2 ^ k

/-- The distance of the numbers that fit, around `m`. -/
def unit (p m : Nat) : Nat := 2 ^ (m.log2 + 1 - p)

/-- The multiple of `u` that is nearest to `m`, where a tie goes to the even multiple. -/
def nearestMultiple (u m : Nat) : Nat :=
  if u < 2 * (m % u) ∨ u = 2 * (m % u) ∧ m / u % 2 = 1 then (m / u + 1) * u else m / u * u

/-- The nearest number of `p` significant bits, with ties to the even one. -/
def roundEven (p m : Nat) : Nat := nearestMultiple (unit p m) m

/-! ## Multiples -/

section Multiples

variable {u m v : Nat}

theorem nearestMultiple_cases (u m : Nat) :
    (nearestMultiple u m = m / u * u ∧ 2 * (m % u) ≤ u) ∨
      (nearestMultiple u m = (m / u + 1) * u ∧ u ≤ 2 * (m % u)) := by
  unfold nearestMultiple
  split
  · rename_i hup
    exact Or.inr ⟨rfl, by omega⟩
  · rename_i hdown
    exact Or.inl ⟨rfl, by omega⟩

/-- A number that is not strictly between the two multiples around `m` is not nearer. -/
theorem dist_nearestMultiple_le (hu : 0 < u) (hv : v ≤ m / u * u ∨ (m / u + 1) * u ≤ v) :
    |(nearestMultiple u m : Int) - m| ≤ |(v : Int) - m| := by
  have hm : m / u * u + m % u = m := by rw [Nat.mul_comm]; exact Nat.div_add_mod m u
  have hr : m % u < u := Nat.mod_lt m hu
  have hnext : (m / u + 1) * u = m / u * u + u := by ring
  rw [hnext] at hv
  rcases nearestMultiple_cases u m with ⟨heq, hle⟩ | ⟨heq, hle⟩
  · rw [heq]
    generalize m / u * u = q at *
    rcases hv with hv | hv
    · rw [abs_of_nonpos (by omega), abs_of_nonpos (by omega)]
      omega
    · rw [abs_of_nonpos (by omega), abs_of_nonneg (by omega)]
      omega
  · rw [heq, hnext]
    generalize m / u * u = q at *
    rcases hv with hv | hv
    · rw [abs_of_nonneg (by omega), abs_of_nonpos (by omega)]
      omega
    · rw [abs_of_nonneg (by omega), abs_of_nonneg (by omega)]
      omega

end Multiples

/-! ## Numbers that fit -/

section Fits

variable {p m v : Nat}

theorem unit_pos : 0 < unit p m := Nat.two_pow_pos _

theorem fits_of_lt (h : m < 2 ^ p) : Fits p m := ⟨m, 0, h, by simp⟩

/-- A small number of units fits. -/
theorem fits_mul_unit {a : Nat} (ha : a ≤ 2 ^ p) (hp : 0 < p) : Fits p (a * unit p m) := by
  rcases Nat.lt_or_eq_of_le ha with hlt | rfl
  · exact ⟨a, _, hlt, rfl⟩
  · refine ⟨1, p + (m.log2 + 1 - p), Nat.one_lt_two_pow hp.ne', ?_⟩
    rw [unit, Nat.pow_add, Nat.one_mul]

theorem ne_zero_of_large (hm : 2 ^ p ≤ m) : m ≠ 0 := by
  have hpos := Nat.two_pow_pos p
  omega

/-- A large number has few units. -/
theorem div_unit_lt (hm : 2 ^ p ≤ m) : m / unit p m < 2 ^ p := by
  have hlog : p ≤ m.log2 := (Nat.le_log2 (ne_zero_of_large hm)).mpr hm
  rw [Nat.div_lt_iff_lt_mul unit_pos, unit, ← Nat.pow_add]
  have hexp : p + (m.log2 + 1 - p) = m.log2 + 1 := by omega
  rw [hexp]
  exact Nat.lt_log2_self

/-- No number that fits lies strictly between the multiples around `m`. -/
theorem fits_between (hp : 0 < p) (hm : 2 ^ p ≤ m) (hv : Fits p v) :
    v ≤ m / unit p m * unit p m ∨ (m / unit p m + 1) * unit p m ≤ v := by
  obtain ⟨a, k, ha, rfl⟩ := hv
  by_contra hnot
  rw [not_or, Nat.not_le, Nat.not_le] at hnot
  obtain ⟨hlow, hhigh⟩ := hnot
  by_cases hk : m.log2 + 1 - p ≤ k
  · -- the number is a multiple of the unit itself
    obtain ⟨j, rfl⟩ := Nat.exists_eq_add_of_le hk
    have hmul : a * 2 ^ (m.log2 + 1 - p + j) = a * 2 ^ j * unit p m := by
      rw [unit, Nat.pow_add]
      ring
    rw [hmul] at hlow hhigh
    have h₁ := Nat.lt_of_mul_lt_mul_right hlow
    have h₂ := Nat.lt_of_mul_lt_mul_right hhigh
    omega
  · -- the number is below the power of two that `m` reaches
    have hsmall : a * 2 ^ k < 2 ^ m.log2 := by
      have h₁ : a * 2 ^ k < 2 ^ p * 2 ^ k := Nat.mul_lt_mul_of_pos_right ha (Nat.two_pow_pos k)
      rw [← Nat.pow_add] at h₁
      exact Nat.lt_of_lt_of_le h₁ (Nat.pow_le_pow_right (by omega) (by omega))
    have hdvd : unit p m ∣ 2 ^ m.log2 := Nat.pow_dvd_pow 2 (by omega)
    have hreach : 2 ^ m.log2 ≤ m / unit p m * unit p m := by
      obtain ⟨d, hd⟩ := hdvd
      have hle : 2 ^ m.log2 ≤ m := Nat.log2_self_le (ne_zero_of_large hm)
      rw [hd] at hle ⊢
      rw [Nat.mul_comm]
      refine Nat.mul_le_mul_right _ ?_
      rw [Nat.le_div_iff_mul_le unit_pos, Nat.mul_comm]
      exact hle
    omega

/-! ## Rounding -/

theorem fits_roundEven (hp : 0 < p) (hm : 2 ^ p ≤ m) : Fits p (roundEven p m) := by
  have hq := div_unit_lt hm
  rcases nearestMultiple_cases (unit p m) m with ⟨heq, -⟩ | ⟨heq, -⟩
  · rw [roundEven, heq]
    exact fits_mul_unit (by omega) hp
  · rw [roundEven, heq]
    exact fits_mul_unit (by omega) hp

/-- No number that fits is nearer. -/
theorem dist_roundEven_le (hp : 0 < p) (hm : 2 ^ p ≤ m) (hv : Fits p v) :
    |(roundEven p m : Int) - m| ≤ |(v : Int) - m| :=
  dist_nearestMultiple_le unit_pos (fits_between hp hm hv)

/-- The numbers that fit are rounded to themselves. -/
theorem roundEven_eq_self_iff (hp : 0 < p) (hm : 2 ^ p ≤ m) : roundEven p m = m ↔ Fits p m := by
  constructor
  · intro h
    have hfits := fits_roundEven hp hm
    rwa [h] at hfits
  · intro h
    have hdist := dist_roundEven_le hp hm h
    rw [sub_self, abs_zero, abs_nonpos_iff] at hdist
    omega

/-- A number that fits and is at most `m` is at most what `m` is rounded to. -/
theorem le_roundEven (hp : 0 < p) (hm : 2 ^ p ≤ m) (hv : Fits p v) (hle : v ≤ m) :
    v ≤ roundEven p m := by
  have hdist := dist_roundEven_le hp hm hv
  rw [abs_of_nonpos (a := (v : Int) - m) (by omega)] at hdist
  have hlow := neg_abs_le ((roundEven p m : Int) - m)
  generalize |(roundEven p m : Int) - m| = d at hdist hlow
  omega

end Fits

end Rounding
