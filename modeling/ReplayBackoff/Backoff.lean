import Mathlib.Data.UInt

/-!
# Exponential backoff

The delay of an attempt is `min max (base * 2 ^ attempt)`, computed with saturating 32-bit
arithmetic. Full jitter draws a number between zero and that delay. The generator is an argument
that can only return values in the range it is asked for.
-/

namespace ReplayBackoff

def saturate (n : ℕ) : UInt32 := UInt32.ofNat (min n (UInt32.size - 1))

def saturatingMul (a b : UInt32) : UInt32 := saturate (a.toNat * b.toNat)

def saturatingPow (base exponent : UInt32) : UInt32 := saturate (base.toNat ^ exponent.toNat)

/-- One draw of the random generator. -/
structure Rng where
  randomInt : UInt32 → UInt32
  randomInt_le : ∀ max, randomInt max ≤ max

instance : Inhabited Rng := ⟨⟨id, fun max => UInt32.le_refl max⟩⟩

def backoff (base max attempt : UInt32) : UInt32 :=
  min max (saturatingMul base (saturatingPow 2 attempt))

def backoffWithJitter (rng : Rng) (base max attempt : UInt32) : UInt32 :=
  rng.randomInt (backoff base max attempt)

@[simp] theorem toNat_saturate (n : ℕ) : (saturate n).toNat = min n 4294967295 := by
  have hlt : min n (UInt32.size - 1) < UInt32.size :=
    (Nat.min_le_right n (UInt32.size - 1)).trans_lt (by decide)
  rw [saturate, UInt32.toNat_ofNat_of_lt' hlt]
  rfl

theorem toNat_min (a b : UInt32) : (min a b).toNat = min a.toNat b.toNat := by
  rw [Std.min_eq_if, Nat.min_def]
  simp only [UInt32.le_iff_toNat_le]
  split_ifs <;> rfl

/-- The two saturations are invisible below the cap. A saturated power is one less than `2 ^ 32`,
and its product with a positive base is at least the largest 32-bit value whenever the exact product
is. -/
theorem toNat_backoff (base max attempt : UInt32) :
    (backoff base max attempt).toNat = min max.toNat (base.toNat * 2 ^ attempt.toNat) := by
  have hmax : max.toNat ≤ 4294967295 := Nat.le_of_lt_succ max.toNat_lt_size
  have htwo : (2 : UInt32).toNat = 2 := rfl
  rw [backoff, toNat_min, saturatingMul, toNat_saturate, saturatingPow, toNat_saturate, htwo]
  by_cases hpow : 2 ^ attempt.toNat ≤ 4294967295
  · rw [Nat.min_eq_left hpow]
    omega
  · rw [Nat.min_eq_right (show 4294967295 ≤ 2 ^ attempt.toNat by omega)]
    by_cases hbase : base.toNat = 0
    · simp [hbase]
    · have hsat : 4294967295 ≤ base.toNat * 4294967295 := Nat.le_mul_of_pos_left _ (by omega)
      have hexact : 4294967295 ≤ base.toNat * 2 ^ attempt.toNat :=
        hsat.trans (Nat.mul_le_mul_left _ (by omega))
      omega

theorem backoff_le_max (base max attempt : UInt32) : backoff base max attempt ≤ max := by
  rw [UInt32.le_iff_toNat_le, toNat_backoff]
  exact Nat.min_le_left _ _

theorem backoffWithJitter_le (rng : Rng) (base max attempt : UInt32) :
    backoffWithJitter rng base max attempt ≤ backoff base max attempt := rng.randomInt_le _

section

variable {base base' max max' attempt attempt' : UInt32}

theorem backoff_mono (hbase : base ≤ base') (hmax : max ≤ max') (hattempt : attempt ≤ attempt') :
    backoff base max attempt ≤ backoff base' max' attempt' := by
  rw [UInt32.le_iff_toNat_le] at *
  rw [toNat_backoff, toNat_backoff]
  have hpow : 2 ^ attempt.toNat ≤ 2 ^ attempt'.toNat := Nat.pow_le_pow_right (by omega) hattempt
  have hproduct := Nat.mul_le_mul hbase hpow
  omega

theorem backoff_eq_max_of_le (hbase : base ≤ base') (hattempt : attempt ≤ attempt')
    (h : backoff base max attempt = max) : backoff base' max attempt' = max := by
  apply UInt32.le_antisymm (backoff_le_max base' max attempt')
  have hmono := backoff_mono hbase (UInt32.le_refl max) hattempt
  rwa [h] at hmono

end

/-- The saturating computation is the exact formula. It grows with each of its arguments, and it
stays at the maximum once it has reached it. -/
theorem backoff_exact (base max attempt : UInt32) :
    (backoff base max attempt).toNat = min max.toNat (base.toNat * 2 ^ attempt.toNat) ∧
      (∀ base', base ≤ base' → backoff base max attempt ≤ backoff base' max attempt) ∧
      (∀ max', max ≤ max' → backoff base max attempt ≤ backoff base max' attempt) ∧
      (∀ attempt', attempt ≤ attempt' → backoff base max attempt ≤ backoff base max attempt') ∧
      ∀ base' attempt', base ≤ base' → attempt ≤ attempt' → backoff base max attempt = max →
        backoff base' max attempt' = max := by
  refine ⟨toNat_backoff base max attempt, ?_, ?_, ?_, ?_⟩
  · intro base' hbase
    exact backoff_mono hbase (UInt32.le_refl max) (UInt32.le_refl attempt)
  · intro max' hmax
    exact backoff_mono (UInt32.le_refl base) hmax (UInt32.le_refl attempt)
  · intro attempt' hattempt
    exact backoff_mono (UInt32.le_refl base) (UInt32.le_refl max) hattempt
  · intro base' attempt' hbase hattempt hreached
    exact backoff_eq_max_of_le hbase hattempt hreached

example : [1, 2, 3, 4, 5, 6].map (backoff 30 900) = [60, 120, 240, 480, 900, 900] := by decide

end ReplayBackoff
