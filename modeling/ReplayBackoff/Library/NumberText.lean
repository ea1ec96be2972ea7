import ReplayBackoff.Library.JsonRoundTrip

/-!
# The text of a JSON number

A number is written as an optional sign, an integer part without leading zeros, digits after the
point, and an exponent with its sign. Every such text is a JSON number. Only a text of digits alone
can be read as an unsigned integer.
-/

namespace ReplayBackoff

namespace Json

def NoDigit (cs : List Char) : Prop := ∀ c, cs.head? = some c → c.isDigit = false

theorem noDigit_of_delimited {rest : List Char} (h : Delimited rest) : NoDigit rest := by
  intro c hc
  rcases h c hc with rfl | rfl | rfl <;> rfl

theorem readDigits_append {ds rest : List Char} (hds : ds.all Char.isDigit = true)
    (hrest : NoDigit rest) : readDigits (ds ++ rest) = (ds, rest) := by
  induction ds with
  | nil =>
    cases rest with
    | nil => rfl
    | cons c rest => simp [readDigits, hrest c rfl]
  | cons d ds ih =>
    rw [List.all_cons, Bool.and_eq_true] at hds
    have htail := ih hds.2
    simp only [readDigits, Prod.mk.injEq] at htail
    simp [readDigits, hds.1, htail.1, htail.2]

theorem readDigits1_append {ds rest : List Char} (hne : ds ≠ []) (hds : ds.all Char.isDigit = true)
    (hrest : NoDigit rest) : readDigits1 (ds ++ rest) = some (ds, rest) := by
  simp [readDigits1, readDigits_append hds hrest, hne]

/-- The integer part of a number: zero, or digits of which the first is not zero. -/
def IsInteger (ds : List Char) : Prop :=
  ds = ['0'] ∨ (ds ≠ [] ∧ ds.head? ≠ some '0' ∧ ds.all Char.isDigit = true)

theorem IsInteger.all_isDigit {ds : List Char} (h : IsInteger ds) : ds.all Char.isDigit = true := by
  rcases h with rfl | ⟨-, -, h⟩
  · decide
  · exact h

theorem readInteger_append {ds rest : List Char} (hds : IsInteger ds) (hrest : NoDigit rest) :
    readInteger (ds ++ rest) = some (ds, rest) := by
  rcases hds with rfl | ⟨hne, hzero, hall⟩
  · rfl
  · cases ds with
    | nil => exact absurd rfl hne
    | cons d ds =>
      have hd : d ≠ '0' := fun h => hzero (congrArg some h)
      rw [List.cons_append, readInteger.eq_def]
      split
      · rename_i heq
        exact absurd (List.cons.inj heq).1 hd
      · exact readDigits1_append hne hall hrest

/-- A fraction: nothing, or a point with digits after it. -/
def IsFraction (cs : List Char) : Prop :=
  cs = [] ∨ ∃ ds, cs = '.' :: ds ∧ ds ≠ [] ∧ ds.all Char.isDigit = true

/-- An exponent: nothing, or a letter with an optional sign and digits after it. -/
def IsExponent (cs : List Char) : Prop :=
  cs = [] ∨ ∃ e sign ds, cs = e :: (sign ++ ds) ∧ (e = 'e' ∨ e = 'E') ∧
    (sign = [] ∨ sign = ['+'] ∨ sign = ['-']) ∧ ds ≠ [] ∧ ds.all Char.isDigit = true

def NoFraction (cs : List Char) : Prop := ∀ c, cs.head? = some c → c ≠ '.' ∧ c.isDigit = false

section

variable {int frac exp rest : List Char}

theorem readExponent_delimited (hrest : Delimited rest) : readExponent rest = some ([], rest) := by
  cases rest with
  | nil => rfl
  | cons c rest =>
    have hc : ¬ (c = 'e' ∨ c = 'E') := by
      rcases hrest c rfl with rfl | rfl | rfl <;> decide
    cases rest <;> simp [readExponent, hc]

theorem readExponent_append (hexp : IsExponent exp) (hrest : Delimited rest) :
    readExponent (exp ++ rest) = some (exp, rest) := by
  rcases hexp with rfl | ⟨e, sign, ds, rfl, he, hsign, hne, hall⟩
  · exact readExponent_delimited hrest
  · have hread := readDigits1_append hne hall (noDigit_of_delimited hrest)
    rcases hsign with rfl | rfl | rfl
    · obtain ⟨d, ds, rfl⟩ := List.exists_cons_of_ne_nil hne
      have hsign : ¬ (d = '+' ∨ d = '-') := by
        rw [List.all_cons, Bool.and_eq_true] at hall
        rintro (rfl | rfl) <;> exact absurd hall.1 (by decide)
      rw [List.cons_append] at hread
      simp [readExponent, he, hsign, hread]
    · simp [readExponent, he, hread]
    · simp [readExponent, he, hread]

theorem noFraction_exponent (hexp : IsExponent exp) (hrest : Delimited rest) :
    NoFraction (exp ++ rest) := by
  intro c hc
  rcases hexp with rfl | ⟨e, sign, ds, rfl, he, -⟩
  · rcases hrest c hc with rfl | rfl | rfl <;> decide
  · obtain rfl := Option.some.inj hc
    rcases he with rfl | rfl <;> decide

theorem readFraction_append (hfrac : IsFraction frac) (hrest : NoFraction rest) :
    readFraction (frac ++ rest) = some (frac, rest) := by
  rcases hfrac with rfl | ⟨ds, rfl, hne, hall⟩
  · rw [List.nil_append]
    unfold readFraction
    split
    · exact absurd rfl (hrest '.' rfl).1
    · rfl
  · have hread := readDigits1_append hne hall (fun c hc => (hrest c hc).2)
    simp [readFraction, hread]

theorem noDigit_fraction (hfrac : IsFraction frac) (hrest : NoFraction rest) :
    NoDigit (frac ++ rest) := by
  intro c hc
  rcases hfrac with rfl | ⟨ds, rfl, -⟩
  · exact (hrest c hc).2
  · obtain rfl := Option.some.inj hc
    rfl

/-- Each part is read up to where the next one starts. -/
theorem readUnsigned_append (hint : IsInteger int) (hfrac : IsFraction frac)
    (hexp : IsExponent exp) (hrest : Delimited rest) :
    readUnsigned (int ++ (frac ++ exp) ++ rest) = some (int ++ (frac ++ exp), rest) := by
  have hstop := noFraction_exponent hexp hrest
  rw [List.append_assoc, List.append_assoc, readUnsigned,
    readInteger_append hint (noDigit_fraction hfrac hstop)]
  simp only [Option.bind_eq_bind, Option.bind_some, readFraction_append hfrac hstop,
    readExponent_append hexp hrest, pure, List.append_assoc]

theorem IsInteger.starts (hint : IsInteger int) : ∃ c cs, int = c :: cs ∧ c.isDigit = true := by
  have hall := hint.all_isDigit
  cases int with
  | nil => rcases hint with h | ⟨hne, -⟩ <;> contradiction
  | cons c cs =>
    rw [List.all_cons, Bool.and_eq_true] at hall
    exact ⟨c, cs, rfl, hall.1⟩

theorem readNumber_of_digit {c : Char} (hdigit : c.isDigit = true) (cs : List Char) :
    readNumber (c :: cs) = readUnsigned (c :: cs) := by
  rw [readNumber.eq_def]
  split
  · rename_i heq
    obtain rfl := (List.cons.inj heq).1
    exact absurd hdigit (by decide)
  · rfl

theorem isNumber_of_parts (hint : IsInteger int) (hfrac : IsFraction frac) (hexp : IsExponent exp) :
    IsNumber (int ++ (frac ++ exp)) ∧ IsNumber ('-' :: (int ++ (frac ++ exp))) := by
  constructor
  · obtain ⟨c, cs, rfl, hdigit⟩ := hint.starts
    refine ⟨⟨c, cs ++ (frac ++ exp), rfl, Or.inr hdigit⟩, ?_⟩
    intro rest hrest
    have hread := readUnsigned_append hint hfrac hexp hrest
    rwa [List.cons_append, List.cons_append, readNumber_of_digit hdigit] at *
  · refine ⟨⟨'-', _, rfl, Or.inl rfl⟩, ?_⟩
    intro rest hrest
    rw [List.cons_append, readNumber, readUnsigned_append hint hfrac hexp hrest]
    rfl

end

end Json

/-- The parts of a written number. An empty fraction is not written. -/
structure NumberText where
  negative : Bool
  integer : List Char
  fraction : List Char
  exponent : Option (Bool × List Char)
  integer_ok : Json.IsInteger integer
  fraction_ok : fraction.all Char.isDigit = true
  exponent_ok : ∀ e, exponent = some e → e.2 ≠ [] ∧ e.2.all Char.isDigit = true

namespace NumberText

open Json

def sign (negative : Bool) : List Char := if negative then ['-'] else []

def fractionChars (ds : List Char) : List Char := if ds = [] then [] else '.' :: ds

def exponentChars : Option (Bool × List Char) → List Char
  | none => []
  | some (negative, ds) => 'e' :: (if negative then '-' else '+') :: ds

def unsigned (t : NumberText) : List Char :=
  t.integer ++ (fractionChars t.fraction ++ exponentChars t.exponent)

def chars (t : NumberText) : List Char := sign t.negative ++ t.unsigned

theorem isFraction (t : NumberText) : IsFraction (fractionChars t.fraction) := by
  by_cases hfrac : t.fraction = []
  · exact Or.inl (if_pos hfrac)
  · exact Or.inr ⟨t.fraction, if_neg hfrac, hfrac, t.fraction_ok⟩

theorem isExponent (t : NumberText) : IsExponent (exponentChars t.exponent) := by
  cases hexp : t.exponent with
  | none => exact Or.inl rfl
  | some e =>
    obtain ⟨negative, ds⟩ := e
    obtain ⟨hne, hall⟩ := t.exponent_ok _ hexp
    refine Or.inr ⟨'e', [if negative then '-' else '+'], ds, rfl, Or.inl rfl, Or.inr ?_, hne, hall⟩
    cases negative
    · exact Or.inl rfl
    · exact Or.inr rfl

theorem isNumber (t : NumberText) : IsNumber t.chars := by
  obtain ⟨hplain, hsigned⟩ := isNumber_of_parts t.integer_ok t.isFraction t.isExponent
  cases hneg : t.negative with
  | true =>
    have hchars : t.chars = '-' :: t.unsigned := by simp [chars, sign, hneg]
    rw [hchars]
    exact hsigned
  | false =>
    have hchars : t.chars = t.unsigned := by simp [chars, sign, hneg]
    rw [hchars]
    exact hplain

theorem digitsValue_of_integer {t : NumberText} (hneg : t.negative = false)
    (hfrac : t.fraction = []) (hexp : t.exponent = none) :
    DecimalText.digitsValue t.chars = DecimalText.digitsValue t.integer := by
  simp [chars, sign, unsigned, fractionChars, exponentChars, hneg, hfrac, hexp]

theorem digitsValue_of_not_integer {t : NumberText}
    (h : t.negative = true ∨ t.fraction ≠ [] ∨ t.exponent ≠ none) :
    DecimalText.digitsValue t.chars = none := by
  rcases h with hneg | hfrac | hexp
  · exact DecimalText.digitsValue_eq_none_of_mem (c := '-') (by simp [chars, sign, hneg]) rfl
  · exact DecimalText.digitsValue_eq_none_of_mem (c := '.')
      (by simp [chars, unsigned, fractionChars, hfrac]) rfl
  · obtain ⟨⟨negative, ds⟩, hexp⟩ := Option.ne_none_iff_exists'.mp hexp
    exact DecimalText.digitsValue_eq_none_of_mem (c := 'e')
      (by simp [chars, unsigned, exponentChars, hexp]) rfl

end NumberText
end ReplayBackoff
