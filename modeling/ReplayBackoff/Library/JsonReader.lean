import ReplayBackoff.Library.NumberText

/-!
# What the reader accepts

Whatever text is read as a JSON value, the value is well-formed: the numbers in it are kept with a
text that is a number again wherever it is written. So a value that was read can be written in the
normal form of `stringify`, and is read back from it.
-/

namespace ReplayBackoff.Json

section

variable {cs out rest : List Char}

theorem digits_of_readDigits1 (h : readDigits1 cs = some (out, rest)) :
    out ≠ [] ∧ out.all Char.isDigit = true ∧ out.head? = cs.head? := by
  unfold readDigits1 at h
  split_ifs at h with hempty
  obtain ⟨rfl, -⟩ := Prod.mk.inj (Option.some.inj h)
  refine ⟨by simpa [readDigits] using hempty, List.all_takeWhile, ?_⟩
  cases cs with
  | nil => rfl
  | cons c cs =>
    cases hdigit : c.isDigit with
    | true => simp [hdigit]
    | false => simp [readDigits, hdigit] at hempty

theorem isInteger_of_readInteger (h : readInteger cs = some (out, rest)) : IsInteger out := by
  unfold readInteger at h
  split at h
  · obtain ⟨rfl, -⟩ := Prod.mk.inj (Option.some.inj h)
    exact Or.inl rfl
  · rename_i hzero
    obtain ⟨hne, hall, hhead⟩ := digits_of_readDigits1 h
    refine Or.inr ⟨hne, ?_, hall⟩
    rw [hhead]
    cases cs with
    | nil => simp
    | cons c cs =>
      intro hc
      exact hzero cs (by rw [Option.some.inj hc])

theorem isFraction_of_readFraction (h : readFraction cs = some (out, rest)) : IsFraction out := by
  unfold readFraction at h
  split at h
  · obtain ⟨⟨ds, rest'⟩, hread, heq⟩ := Option.map_eq_some_iff.mp h
    obtain ⟨rfl, -⟩ := Prod.mk.inj heq
    obtain ⟨hne, hall, -⟩ := digits_of_readDigits1 hread
    exact Or.inr ⟨ds, rfl, hne, hall⟩
  · obtain ⟨rfl, -⟩ := Prod.mk.inj (Option.some.inj h)
    exact Or.inl rfl

theorem isExponent_of_readExponent (h : readExponent cs = some (out, rest)) : IsExponent out := by
  unfold readExponent at h
  split at h
  · rename_i e sign tail
    split_ifs at h with he hsign
    · obtain ⟨⟨ds, rest'⟩, hread, heq⟩ := Option.map_eq_some_iff.mp h
      obtain ⟨rfl, -⟩ := Prod.mk.inj heq
      obtain ⟨hne, hall, -⟩ := digits_of_readDigits1 hread
      exact Or.inr ⟨e, [sign], ds, rfl, he, Or.inr (by simpa using hsign), hne, hall⟩
    · obtain ⟨⟨ds, rest'⟩, hread, heq⟩ := Option.map_eq_some_iff.mp h
      obtain ⟨rfl, -⟩ := Prod.mk.inj heq
      obtain ⟨hne, hall, -⟩ := digits_of_readDigits1 hread
      exact Or.inr ⟨e, [], ds, rfl, he, Or.inl rfl, hne, hall⟩
    · obtain ⟨rfl, -⟩ := Prod.mk.inj (Option.some.inj h)
      exact Or.inl rfl
  · split_ifs at h
    obtain ⟨rfl, -⟩ := Prod.mk.inj (Option.some.inj h)
    exact Or.inl rfl
  · obtain ⟨rfl, -⟩ := Prod.mk.inj (Option.some.inj h)
    exact Or.inl rfl

theorem parts_of_readUnsigned (h : readUnsigned cs = some (out, rest)) :
    ∃ int frac exp, out = int ++ (frac ++ exp) ∧ IsInteger int ∧ IsFraction frac ∧
      IsExponent exp := by
  simp only [readUnsigned, Option.bind_eq_bind, Option.bind_eq_some_iff] at h
  obtain ⟨⟨int, afterInt⟩, hint, ⟨frac, afterFrac⟩, hfrac, ⟨exp, afterExp⟩, hexp, heq⟩ := h
  obtain ⟨rfl, -⟩ := Prod.mk.inj (Option.some.inj heq)
  exact ⟨int, frac, exp, List.append_assoc _ _ _, isInteger_of_readInteger hint,
    isFraction_of_readFraction hfrac, isExponent_of_readExponent hexp⟩

theorem isNumber_of_readNumber (h : readNumber cs = some (out, rest)) : IsNumber out := by
  unfold readNumber at h
  split at h
  · obtain ⟨⟨digits, rest'⟩, hread, heq⟩ := Option.map_eq_some_iff.mp h
    obtain ⟨rfl, -⟩ := Prod.mk.inj heq
    obtain ⟨int, frac, exp, rfl, hint, hfrac, hexp⟩ := parts_of_readUnsigned hread
    exact (isNumber_of_parts hint hfrac hexp).2
  · obtain ⟨int, frac, exp, rfl, hint, hfrac, hexp⟩ := parts_of_readUnsigned h
    exact (isNumber_of_parts hint hfrac hexp).1

end

/-- What the four readers return is well-formed, by induction on the fuel they share. -/
structure ReadsWellFormed (fuel : ℕ) : Prop where
  value : ∀ cs j rest, readValue fuel cs = some (j, rest) → WellFormed j
  items : ∀ cs items rest, readItems fuel cs = some (items, rest) → WellFormedItems items
  member : ∀ cs member rest, readMember fuel cs = some (member, rest) →
    ∀ m ∈ member, WellFormed m.2
  members : ∀ cs members rest, readMembers fuel cs = some (members, rest) →
    ∀ ms ∈ members, WellFormedMembers ms

theorem wellFormed_ofChars (chars : Option (List Char)) : WellFormed (ofChars chars) := by
  cases chars <;> trivial

theorem wellFormed_ofMembers {members : Option (List (String × Json))}
    (h : ∀ ms ∈ members, WellFormedMembers ms) : WellFormed (ofMembers members) := by
  cases members with
  | none => trivial
  | some ms => exact h ms rfl

theorem wellFormed_consMember {member : Option (String × Json)}
    {members : Option (List (String × Json))} (hmember : ∀ m ∈ member, WellFormed m.2)
    (hmembers : ∀ ms ∈ members, WellFormedMembers ms) :
    ∀ ms ∈ consMember member members, WellFormedMembers ms := by
  cases member with
  | none => simp [consMember]
  | some m =>
    cases members with
    | none => simp [consMember]
    | some ms =>
      rintro _ ⟨rfl⟩
      exact ⟨hmember m rfl, hmembers ms rfl⟩

theorem wellFormed_of_readKeyword {cs rest : List Char} {j : Json}
    (h : readKeyword cs = some (j, rest)) : WellFormed j := by
  unfold readKeyword at h
  split at h
  · obtain ⟨rfl, -⟩ := Prod.mk.inj (Option.some.inj h)
    trivial
  · obtain ⟨rfl, -⟩ := Prod.mk.inj (Option.some.inj h)
    trivial
  · obtain ⟨rfl, -⟩ := Prod.mk.inj (Option.some.inj h)
    trivial
  · cases h

theorem ReadsWellFormed.zero : ReadsWellFormed 0 where
  value _ _ _ h := by simp [readValue] at h
  items _ _ _ h := by simp [readItems] at h
  member _ _ _ h := by simp [readMember] at h
  members _ _ _ h := by simp [readMembers] at h

variable {fuel : ℕ}

theorem ReadsWellFormed.succ_value (ih : ReadsWellFormed fuel) {cs rest : List Char} {j : Json}
    (h : readValue (fuel + 1) cs = some (j, rest)) : WellFormed j := by
  rw [readValue] at h
  split at h
  · cases h
  · split_ifs at h with hquote harray hempty hobject hempty hnumber
    · obtain ⟨p, -, heq⟩ := Option.map_eq_some_iff.mp h
      obtain ⟨rfl, -⟩ := Prod.mk.inj heq
      exact wellFormed_ofChars p.1
    · obtain ⟨rfl, -⟩ := Prod.mk.inj (Option.some.inj h)
      trivial
    · simp only [Option.bind_eq_bind, Option.bind_eq_some_iff] at h
      obtain ⟨⟨item, after⟩, hitem, ⟨items, after'⟩, hitems, heq⟩ := h
      obtain ⟨rfl, -⟩ := Prod.mk.inj (Option.some.inj heq)
      exact ⟨ih.value _ _ _ hitem, ih.items _ _ _ hitems⟩
    · obtain ⟨rfl, -⟩ := Prod.mk.inj (Option.some.inj h)
      trivial
    · simp only [Option.bind_eq_bind, Option.bind_eq_some_iff] at h
      obtain ⟨⟨member, after⟩, hmember, ⟨members, after'⟩, hmembers, heq⟩ := h
      obtain ⟨rfl, -⟩ := Prod.mk.inj (Option.some.inj heq)
      exact wellFormed_ofMembers
        (wellFormed_consMember (ih.member _ _ _ hmember) (ih.members _ _ _ hmembers))
    · obtain ⟨p, hread, heq⟩ := Option.map_eq_some_iff.mp h
      obtain ⟨rfl, -⟩ := Prod.mk.inj heq
      exact isNumber_of_readNumber hread
    · exact wellFormed_of_readKeyword h

theorem ReadsWellFormed.succ (ih : ReadsWellFormed fuel) : ReadsWellFormed (fuel + 1) where
  value _ _ _ h := ih.succ_value h
  items cs items rest h := by
    rw [readItems] at h
    split at h
    · obtain ⟨rfl, -⟩ := Prod.mk.inj (Option.some.inj h)
      trivial
    · simp only [Option.bind_eq_bind, Option.bind_eq_some_iff] at h
      obtain ⟨⟨item, after⟩, hitem, ⟨items', after'⟩, hitems, heq⟩ := h
      obtain ⟨rfl, -⟩ := Prod.mk.inj (Option.some.inj heq)
      exact ⟨ih.value _ _ _ hitem, ih.items _ _ _ hitems⟩
    · cases h
  member cs member rest h := by
    rw [readMember] at h
    split at h
    · simp only [Option.bind_eq_bind, Option.bind_eq_some_iff] at h
      obtain ⟨⟨key, after⟩, -, h⟩ := h
      split at h
      · obtain ⟨⟨value, after'⟩, hvalue, heq⟩ := Option.bind_eq_some_iff.mp h
        obtain ⟨rfl, -⟩ := Prod.mk.inj (Option.some.inj heq)
        intro m hm
        obtain ⟨chars, -, rfl⟩ := Option.map_eq_some_iff.mp hm
        exact ih.value _ _ _ hvalue
      · cases h
    · cases h
  members cs members rest h := by
    rw [readMembers] at h
    split at h
    · obtain ⟨rfl, -⟩ := Prod.mk.inj (Option.some.inj h)
      rintro _ ⟨rfl⟩
      trivial
    · simp only [Option.bind_eq_bind, Option.bind_eq_some_iff] at h
      obtain ⟨⟨member, after⟩, hmember, ⟨members', after'⟩, hmembers, heq⟩ := h
      obtain ⟨rfl, -⟩ := Prod.mk.inj (Option.some.inj heq)
      exact wellFormed_consMember (ih.member _ _ _ hmember) (ih.members _ _ _ hmembers)
    · cases h

theorem readsWellFormed (fuel : ℕ) : ReadsWellFormed fuel := by
  induction fuel with
  | zero => exact .zero
  | succ fuel ih => exact ih.succ

theorem wellFormed_of_parse {text : String} {j : Json} (h : parse text = some j) :
    WellFormed j := by
  unfold parse at h
  split at h
  · rename_i j' rest hread
    split_ifs at h
    obtain rfl := Option.some.inj h
    exact (readsWellFormed _).value _ _ _ hread
  · cases h

theorem parse_stringify_of_parse {text : String} {j : Json} (h : parse text = some j) :
    parse (stringify j) = some j := parse_stringify j (wellFormed_of_parse h)

end ReplayBackoff.Json
