import Mathlib.Data.UInt
import Mathlib.Data.List.Basic

/-!
# Unsigned decimal text

`digitsValue` reads a non-empty run of ASCII digits. `parseU32` is the documented reading of
`str::parse::<u32>`: an optional `+`, then digits whose value fits 32 bits. Formatting a number and
parsing the text gives the number back.
-/

namespace ReplayBackoff.DecimalText

def digitsValue (ds : List Char) : Option ℕ :=
  if !ds.isEmpty && ds.all Char.isDigit then some (Nat.ofDigitChars 10 ds 0) else none

def stripPlus : List Char → List Char
  | '+' :: ds => ds
  | ds => ds

def toU32 (n : ℕ) : Option UInt32 := if n < UInt32.size then some (UInt32.ofNat n) else none

def parseU32 (text : String) : Option UInt32 :=
  (digitsValue (stripPlus text.toList)).bind toU32

/-- `u32::to_string`. -/
def formatU32 (n : UInt32) : String := toString n.toNat

theorem toList_toString (n : ℕ) : (toString n).toList = Nat.toDigits 10 n := by
  rw [Nat.toString_eq_ofList_toDigits, String.toList_ofList]

theorem toDigits_all_isDigit (n : ℕ) : (Nat.toDigits 10 n).all Char.isDigit = true :=
  List.all_eq_true.mpr (fun _ hc => Nat.isDigit_of_mem_toDigits (by decide) (by decide) hc)

theorem digitsValue_toDigits (n : ℕ) : digitsValue (Nat.toDigits 10 n) = some n := by
  have hne : (Nat.toDigits 10 n).isEmpty = false := by
    simp
  rw [digitsValue, hne, toDigits_all_isDigit, Nat.ofDigitChars_ten_toDigits]
  rfl

theorem digitsValue_eq_none_of_mem {ds : List Char} {c : Char} (hc : c ∈ ds)
    (hdigit : c.isDigit = false) : digitsValue ds = none := by
  have hall : ds.all Char.isDigit = false :=
    List.all_eq_false.mpr ⟨c, hc, by simp [hdigit]⟩
  simp [digitsValue, hall]

theorem stripPlus_of_isDigit {ds : List Char} (h : ds.all Char.isDigit = true) :
    stripPlus ds = ds := by
  unfold stripPlus
  split
  · simp at h
  · rfl

theorem toU32_toNat (n : UInt32) : toU32 n.toNat = some n := by
  rw [toU32, if_pos n.toNat_lt_size, UInt32.ofNat_toNat]

theorem toU32_eq_some {n : ℕ} {m : UInt32} : toU32 n = some m ↔ n = m.toNat := by
  constructor
  · intro h
    unfold toU32 at h
    split_ifs at h with hn
    rw [← Option.some.inj h, UInt32.toNat_ofNat_of_lt' hn]
  · rintro rfl
    exact toU32_toNat m

@[simp] theorem parseU32_formatU32 (n : UInt32) : parseU32 (formatU32 n) = some n := by
  rw [parseU32, formatU32, toList_toString, stripPlus_of_isDigit (toDigits_all_isDigit _),
    digitsValue_toDigits, Option.bind_some, toU32_toNat]

example : parseU32 "+007" = some 7 ∧ parseU32 "+" = none ∧ parseU32 "4294967296" = none := by decide

end ReplayBackoff.DecimalText
