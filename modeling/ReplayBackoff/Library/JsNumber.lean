import ReplayBackoff.Library.NumberText
import Mathlib.Data.Rat.Cast.Order
import Mathlib.Algebra.Order.Field.Power
import Mathlib.Tactic.Linarith

/-!
# ECMAScript numbers as text

A finite number other than zero is known by its shortest decimal, which is what
`Number::toString` prints: digits that do not end in zero, and the position of the decimal point
relative to the first of them. `text` follows the cases of `Number::toString` in radix ten, and
`toJson` is what `JSON.stringify` makes of a number, null for the numbers that are not finite.
-/

namespace ReplayBackoff

structure ShortestDecimal where
  digits : ℕ
  point : ℤ
  shortest : digits % 10 ≠ 0
  deriving DecidableEq

namespace ShortestDecimal

open DecimalText

variable (d : ShortestDecimal)

def chars : List Char := Nat.toDigits 10 d.digits

def length : ℕ := d.chars.length

def value : ℚ := d.digits * 10 ^ (d.point - d.length)

theorem digits_pos : 0 < d.digits := by
  have h := d.shortest
  omega

theorem chars_all_isDigit : d.chars.all Char.isDigit = true := toDigits_all_isDigit _

theorem chars_ne_nil : d.chars ≠ [] := Nat.toDigits_ne_nil

theorem length_pos : 0 < d.length := List.length_pos_iff.mpr d.chars_ne_nil

theorem head_toDigits_ne_zero (n : ℕ) (hn : 0 < n) : (Nat.toDigits 10 n).head? ≠ some '0' := by
  induction n using Nat.strong_induction_on with
  | _ n ih =>
    rw [Nat.toDigits_eq_if (by decide)]
    split_ifs with hlt
    · have hdigit : ∀ m < 10, 0 < m → [Nat.digitChar m].head? ≠ some '0' := by decide
      exact hdigit n hlt hn
    · have hrest := ih (n / 10) (by omega) (by omega)
      rwa [List.head?_append_of_ne_nil _ Nat.toDigits_ne_nil]

theorem head_chars : d.chars.head? ≠ some '0' := head_toDigits_ne_zero _ d.digits_pos

theorem isInteger_of_prefix {ds : List Char} (hne : ds ≠ []) (hhead : ds.head? = d.chars.head?)
    (hall : ds.all Char.isDigit = true) : Json.IsInteger ds :=
  Or.inr ⟨hne, hhead ▸ d.head_chars, hall⟩

theorem all_take {ds : List Char} (h : ds.all Char.isDigit = true) (n : ℕ) :
    (ds.take n).all Char.isDigit = true := by
  rw [List.all_eq_true] at h ⊢
  exact fun c hc => h c (List.mem_of_mem_take hc)

theorem all_drop {ds : List Char} (h : ds.all Char.isDigit = true) (n : ℕ) :
    (ds.drop n).all Char.isDigit = true := by
  rw [List.all_eq_true] at h ⊢
  exact fun c hc => h c (List.mem_of_mem_drop hc)

theorem isInteger_take {n : ℕ} (hn : 0 < n) : Json.IsInteger (d.chars.take n) := by
  apply d.isInteger_of_prefix
  · simp only [ne_eq, List.take_eq_nil_iff, d.chars_ne_nil, or_false]
    omega
  · rw [List.head?_take, if_neg (by omega)]
  · exact all_take d.chars_all_isDigit n

theorem isInteger_append_zeros (n : ℕ) : Json.IsInteger (d.chars ++ List.replicate n '0') := by
  apply d.isInteger_of_prefix
  · simp [d.chars_ne_nil]
  · rw [List.head?_append_of_ne_nil _ d.chars_ne_nil]
  · simp only [List.all_append, d.chars_all_isDigit, Bool.true_and, List.all_eq_true]
    intro c hc
    rw [List.eq_of_mem_replicate hc]
    rfl

def text (negative : Bool) : NumberText :=
  if d.length ≤ d.point ∧ d.point ≤ 21 then
    { negative
      integer := d.chars ++ List.replicate (d.point - d.length).toNat '0'
      fraction := []
      exponent := none
      integer_ok := d.isInteger_append_zeros _
      fraction_ok := rfl
      exponent_ok := by simp }
  else if h : 0 < d.point ∧ d.point ≤ 21 then
    { negative
      integer := d.chars.take d.point.toNat
      fraction := d.chars.drop d.point.toNat
      exponent := none
      integer_ok := d.isInteger_take (by omega)
      fraction_ok := all_drop d.chars_all_isDigit _
      exponent_ok := by simp }
  else if -6 < d.point ∧ d.point ≤ 0 then
    { negative
      integer := ['0']
      fraction := List.replicate (-d.point).toNat '0' ++ d.chars
      exponent := none
      integer_ok := Or.inl rfl
      fraction_ok := by
        simp only [List.all_append, d.chars_all_isDigit, Bool.and_true, List.all_eq_true]
        intro c hc
        rw [List.eq_of_mem_replicate hc]
        rfl
      exponent_ok := by simp }
  else
    { negative
      integer := d.chars.take 1
      fraction := d.chars.drop 1
      exponent := some (decide (d.point - 1 < 0), Nat.toDigits 10 (d.point - 1).natAbs)
      integer_ok := d.isInteger_take (by decide)
      fraction_ok := all_drop d.chars_all_isDigit _
      exponent_ok := by
        rintro e he
        obtain rfl := Option.some.inj he
        exact ⟨Nat.toDigits_ne_nil, toDigits_all_isDigit _⟩ }

theorem text_negative (negative : Bool) : (d.text negative).negative = negative := by
  unfold text
  split_ifs <;> rfl

/-- The text is digits alone exactly when the number is a whole one below `10 ^ 21`. -/
theorem text_isInteger_iff (negative : Bool) :
    ((d.text negative).fraction = [] ∧ (d.text negative).exponent = none) ↔
      (d.length ≤ d.point ∧ d.point ≤ 21) := by
  unfold text
  split_ifs with h1 h2 h3
  · simp [h1]
  · simp only [List.drop_eq_nil_iff, and_true, h1, iff_false]
    change ¬ d.length ≤ d.point.toNat
    omega
  · simp [h1, d.chars_ne_nil]
  · simp [h1]

theorem digitsValue_text (negative : Bool) :
    digitsValue (d.text negative).chars =
      if negative = false ∧ d.length ≤ d.point ∧ d.point ≤ 21 then
        some (d.digits * 10 ^ (d.point - d.length).toNat)
      else none := by
  split_ifs with h
  · obtain ⟨rfl, hint⟩ := h
    obtain ⟨hfrac, hexp⟩ := (d.text_isInteger_iff false).mpr hint
    rw [NumberText.digitsValue_of_integer (d.text_negative false) hfrac hexp]
    have hinteger : (d.text false).integer =
        d.chars ++ List.replicate (d.point - d.length).toNat '0' := by
      rw [text, if_pos hint]
    have hall := (d.isInteger_append_zeros (d.point - d.length).toNat).all_isDigit
    rw [hinteger, digitsValue, hall]
    simp [chars, Nat.ofDigitChars_append, Nat.ofDigitChars_ten_toDigits,
      Nat.mul_comm]
  · apply NumberText.digitsValue_of_not_integer
    rw [d.text_negative]
    by_contra hnot
    push Not at hnot
    obtain ⟨hneg, hfrac, hexp⟩ := hnot
    exact h ⟨by simpa using hneg, (d.text_isInteger_iff negative).mp ⟨hfrac, hexp⟩⟩

theorem value_of_length_le (h : d.length ≤ d.point) :
    d.value = ((d.digits * 10 ^ (d.point - d.length).toNat : ℕ) : ℚ) := by
  have hexp : d.point - d.length = ((d.point - d.length).toNat : ℤ) := by omega
  rw [value, hexp, zpow_natCast]
  push_cast
  simp

theorem value_pos : 0 < d.value :=
  mul_pos (by exact_mod_cast d.digits_pos) (zpow_pos (by norm_num) _)

/-- Digits that do not end in zero are not a multiple of ten, so a fraction is not whole. -/
theorem length_le_of_whole {n : ℕ} (h : d.value = n) : d.length ≤ d.point := by
  by_contra hlt
  push Not at hlt
  obtain ⟨j, hj⟩ : ∃ j : ℕ, (d.length : ℤ) - d.point = j + 1 :=
    ⟨((d.length : ℤ) - d.point - 1).toNat, by omega⟩
  have hexp : d.point - d.length = -((j + 1 : ℕ) : ℤ) := by
    push_cast
    omega
  rw [value, hexp, zpow_neg, zpow_natCast, ← div_eq_mul_inv,
    div_eq_iff (by positivity)] at h
  have hnat : d.digits = n * 10 ^ (j + 1) := by exact_mod_cast h
  have hmod := d.shortest
  rw [hnat, pow_succ, ← Nat.mul_assoc] at hmod
  exact hmod (Nat.mul_mod_left _ _)

theorem le_digits : 10 ^ (d.length - 1) ≤ d.digits := by
  rcases Nat.eq_or_lt_of_le (Nat.succ_le_of_lt d.length_pos) with hone | hmany
  · rw [← hone]
    exact d.digits_pos
  · by_contra hlt
    have hle := (Nat.length_toDigits_le_iff (b := 10) (n := d.digits) (k := d.length - 1)
      (by decide) (by omega)).mpr (by omega)
    change d.length ≤ d.length - 1 at hle
    omega

theorem pow_le_value_of_point (h : d.length ≤ d.point) (hpoint : 21 < d.point) :
    10 ^ 21 ≤ d.digits * 10 ^ (d.point - d.length).toNat := by
  have hpow := Nat.mul_le_mul_right (10 ^ (d.point - d.length).toNat) d.le_digits
  rw [← Nat.pow_add] at hpow
  refine le_trans (Nat.pow_le_pow_right (by decide) ?_) hpow
  have hpos := d.length_pos
  omega

end ShortestDecimal

inductive JsNumber where
  | nan
  | infinity (negative : Bool)
  | zero (negative : Bool)
  | finite (negative : Bool) (decimal : ShortestDecimal)
  deriving DecidableEq

namespace JsNumber

def value? : JsNumber → Option ℚ
  | .nan => none
  | .infinity _ => none
  | .zero _ => some 0
  | .finite negative d => some (if negative then -d.value else d.value)

def lessThan (x : JsNumber) (bound : ℕ) : Bool :=
  match x with
  | .infinity negative => negative
  | x => x.value?.any (fun v => decide (v < (bound : ℚ)))

def greaterThan (x : JsNumber) (bound : ℕ) : Bool :=
  match x with
  | .infinity negative => !negative
  | x => x.value?.any (fun v => decide ((bound : ℚ) < v))

def toJson : JsNumber → Json
  | .nan => .null
  | .infinity _ => .null
  | .zero _ => .number ['0']
  | .finite negative d => .number (d.text negative).chars

theorem isNumber_zero : Json.IsNumber ['0'] :=
  NumberText.isNumber ⟨false, ['0'], [], none, Or.inl rfl, rfl, by simp⟩

theorem toJson_wellFormed (x : JsNumber) : Json.WellFormed x.toJson := by
  cases x with
  | nan => trivial
  | infinity negative => trivial
  | zero negative => exact isNumber_zero
  | finite negative d => exact NumberText.isNumber _

end JsNumber
end ReplayBackoff
