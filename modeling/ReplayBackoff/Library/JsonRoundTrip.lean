import ReplayBackoff.Library.JsonText
import ReplayBackoff.Library.DecimalText

/-!
# Reading back written JSON

`parse (stringify j)` gives `j` back when every number in `j` is the text of a JSON number. The
proof follows the value. The fuel is an upper bound for the length of the text still to be read.
-/

namespace ReplayBackoff.Json

/-- What may follow a value inside written JSON. -/
def Delimited (rest : List Char) : Prop :=
  ∀ c, rest.head? = some c → c = ',' ∨ c = ']' ∨ c = '}'

structure IsNumber (lexeme : List Char) : Prop where
  starts : ∃ c cs, lexeme = c :: cs ∧ (c = '-' ∨ c.isDigit = true)
  reads : ∀ rest, Delimited rest → readNumber (lexeme ++ rest) = some (lexeme, rest)

mutual
def WellFormed : Json → Prop
  | .number lexeme => IsNumber lexeme
  | .array items => WellFormedItems items
  | .object members => WellFormedMembers members
  | _ => True

def WellFormedItems : List Json → Prop
  | [] => True
  | item :: items => WellFormed item ∧ WellFormedItems items

def WellFormedMembers : List (String × Json) → Prop
  | [] => True
  | (_, value) :: members => WellFormed value ∧ WellFormedMembers members
end

theorem delimited_nil : Delimited [] := by
  intro c hc
  cases hc

theorem delimited_cons {c : Char} (cs : List Char) (h : c = ',' ∨ c = ']' ∨ c = '}') :
    Delimited (c :: cs) := by
  intro d hd
  obtain rfl : c = d := by simpa using hd
  exact h

theorem delimited_renderItems (items : List Json) (rest : List Char) :
    Delimited (renderItems items ++ rest) := by
  cases items <;> exact delimited_cons _ (by simp)

theorem delimited_renderMembers (members : List (String × Json)) (rest : List Char) :
    Delimited (renderMembers members ++ rest) := by
  cases members <;> exact delimited_cons _ (by simp)

theorem skipSpace_cons {c : Char} {cs : List Char} (h : isSpace c = false) :
    skipSpace (c :: cs) = c :: cs := by simp [skipSpace, h]

theorem hexValue_hexDigit {d : ℕ} (h : d < 16) : hexValue (hexDigit d) = some d := by
  revert d
  decide

theorem hexUnit_control {n : ℕ} (h : n < 256) :
    hexUnit '0' '0' (hexDigit (n / 16)) (hexDigit (n % 16)) = some n := by
  have hhigh := hexValue_hexDigit (d := n / 16) (by omega)
  have hlow := hexValue_hexDigit (d := n % 16) (by omega)
  have hzero : hexValue '0' = some 0 := by decide
  simp only [hexUnit, hzero, hhigh, hlow, Option.bind_eq_bind, Option.bind_some, pure]
  congr 1
  omega

def consChar (c : Char) (p : Option (List Char) × List Char) : Option (List Char) × List Char :=
  (p.1.map (c :: ·), p.2)

/-- A piece that stands for one character is read as that character. -/
theorem readChars_of_piece {cs rest : List Char} {piece : Piece} {c : Char}
    (hread : readPieces cs = (readPieces rest).map (consPiece piece))
    (hdecode : ∀ pieces, decodePieces (piece :: pieces) = (decodePieces pieces).map (c :: ·)) :
    readChars cs = (readChars rest).map (consChar c) := by
  rw [readChars, readChars, hread, Option.map_map, Option.map_map]
  congr 1
  funext p
  simp only [Function.comp_apply, consPiece, consChar, hdecode]

theorem decodePieces_char (c : Char) (pieces : List Piece) :
    decodePieces (.char c :: pieces) = (decodePieces pieces).map (c :: ·) := by
  rw [decodePieces]

theorem readChars_plain {c : Char} (hq : c ≠ '"') (hb : c ≠ '\\') (hc : ¬ c.toNat < 32)
    (rest : List Char) : readChars (c :: rest) = (readChars rest).map (consChar c) := by
  refine @readChars_of_piece _ _ (.char c) _ ?_ (decodePieces_char c)
  rw [readPieces.eq_def]
  split
  · contradiction
  · simp_all
  · simp_all
  · simp_all
  · simp_all

theorem readChars_control {c : Char} (hc : c.toNat < 32) (rest : List Char) :
    readChars ('\\' :: 'u' :: '0' :: '0' :: hexDigit (c.toNat / 16) :: hexDigit (c.toNat % 16) ::
      rest) = (readChars rest).map (consChar c) := by
  have hunit := hexUnit_control (n := c.toNat) (by omega)
  have hhigh : isHighSurrogate c.toNat = false := by
    simp only [isHighSurrogate, Bool.and_eq_false_iff, decide_eq_false_iff_not]
    omega
  have hlow : isLowSurrogate c.toNat = false := by
    simp only [isLowSurrogate, Bool.and_eq_false_iff, decide_eq_false_iff_not]
    omega
  apply @readChars_of_piece _ _ (.unit c.toNat)
  · rw [readPieces]
    simp only [hunit]
  · intro pieces
    rw [decodePieces.eq_def]
    simp only [hhigh, hlow, Bool.false_eq_true, if_false, Char.ofNat_toNat]

theorem readChars_escape {e c : Char} (hu : e ≠ 'u') (he : unescape e = some c)
    (rest : List Char) : readChars ('\\' :: e :: rest) = (readChars rest).map (consChar c) := by
  refine @readChars_of_piece _ _ (.char c) _ ?_ (decodePieces_char c)
  rw [readPieces]
  · simp only [he]
  · rintro a b d f rest' rfl
    exact absurd rfl hu

theorem readChars_escapeChar (c : Char) (rest : List Char) :
    readChars (escapeChar c ++ rest) = (readChars rest).map (consChar c) := by
  unfold escapeChar
  split_ifs with hq hb h8 ht hn hf hr hctl
  · subst c
    exact readChars_escape (by decide) (by decide) rest
  · subst c
    exact readChars_escape (by decide) (by decide) rest
  · subst c
    exact readChars_escape (by decide) (by decide) rest
  · subst c
    exact readChars_escape (by decide) (by decide) rest
  · subst c
    exact readChars_escape (by decide) (by decide) rest
  · subst c
    exact readChars_escape (by decide) (by decide) rest
  · subst c
    exact readChars_escape (by decide) (by decide) rest
  · exact readChars_control hctl rest
  · exact readChars_plain hq hb hctl rest

theorem readChars_escaped (cs rest : List Char) :
    readChars (cs.flatMap escapeChar ++ '"' :: rest) = some (some cs, rest) := by
  induction cs with
  | nil => rfl
  | cons c cs ih =>
    rw [List.flatMap_cons, List.append_assoc, readChars_escapeChar, ih]
    rfl

theorem readChars_unpaired (rest : List Char) :
    readChars ('\\' :: 'u' :: 'd' :: '8' :: '0' :: '0' :: '"' :: rest) = some (none, rest) := by
  rfl

theorem readChars_quote (s : String) (rest : List Char) :
    readChars ((quote s).tail ++ rest) = some (some s.toList, rest) := by
  simpa [quote] using readChars_escaped s.toList rest

theorem quote_eq (s : String) : quote s = '"' :: (quote s).tail := rfl

theorem quote_length_pos (s : String) : 2 ≤ (quote s).length := by
  simp only [quote, List.length_cons, List.length_append]
  omega

/-- Written JSON starts with a character that is neither space nor a closing bracket. -/
theorem render_starts (j : Json) (hj : WellFormed j) :
    ∃ c cs, render j = c :: cs ∧ isSpace c = false ∧ c ≠ ']' ∧ c ≠ '}' := by
  cases j with
  | null => exact ⟨_, _, rfl, by decide⟩
  | bool b => cases b <;> exact ⟨_, _, rfl, by decide⟩
  | number lexeme =>
    rw [WellFormed] at hj
    obtain ⟨c, cs, rfl, hc⟩ := hj.starts
    refine ⟨c, cs, by rw [render], ?_⟩
    rcases hc with rfl | hdigit
    · decide
    · refine ⟨?_, ?_, ?_⟩
      · simp only [isSpace, Bool.or_eq_false_iff, decide_eq_false_iff_not]
        refine ⟨⟨⟨?_, ?_⟩, ?_⟩, ?_⟩ <;> rintro rfl <;> exact absurd hdigit (by decide)
      · rintro rfl
        exact absurd hdigit (by decide)
      · rintro rfl
        exact absurd hdigit (by decide)
  | string s => exact ⟨'"', (quote s).tail, by rw [render]; rfl, by decide⟩
  | undecodable => exact ⟨_, _, by rw [render], by decide⟩
  | array items => cases items <;> exact ⟨'[', _, by rw [render], by decide⟩
  | object members =>
    cases members with
    | nil => exact ⟨'{', _, by rw [render], by decide⟩
    | cons m ms =>
      obtain ⟨key, value⟩ := m
      exact ⟨'{', _, by rw [render], by decide⟩

theorem render_length_pos (j : Json) (hj : WellFormed j) : 1 ≤ (render j).length := by
  obtain ⟨c, cs, hr, -⟩ := render_starts j hj
  rw [hr, List.length_cons]
  omega

theorem head_skipSpace_render (j : Json) (hj : WellFormed j) (rest : List Char) (c : Char)
    (hc : c = ']' ∨ c = '}') : (skipSpace (render j ++ rest)).head? ≠ some c := by
  obtain ⟨d, ds, hr, hspace, hbracket, hbrace⟩ := render_starts j hj
  rw [hr, List.cons_append, skipSpace_cons hspace, List.head?_cons]
  rintro ⟨rfl⟩
  rcases hc with rfl | rfl
  · exact hbracket rfl
  · exact hbrace rfl

theorem readValue_number {lexeme rest : List Char} (h : IsNumber lexeme) (hrest : Delimited rest)
    (fuel : ℕ) : readValue (fuel + 1) (lexeme ++ rest) = some (.number lexeme, rest) := by
  have hj : WellFormed (.number lexeme) := h
  obtain ⟨c, cs, hr, hspace, -⟩ := render_starts (.number lexeme) hj
  obtain ⟨d, ds, rfl, hd⟩ := h.starts
  obtain ⟨rfl, rfl⟩ : d = c ∧ ds = cs := by simpa [render] using hr
  have hne : ∀ e : Char, e.isDigit = false → e ≠ '-' → d ≠ e := by
    rintro e he hminus rfl
    rcases hd with rfl | hdigit
    · exact hminus rfl
    · rw [he] at hdigit
      cases hdigit
  have hread := h.reads rest hrest
  rw [List.cons_append] at hread ⊢
  rw [readValue, skipSpace_cons hspace]
  simp only [if_neg (hne '"' (by decide) (by decide)), if_neg (hne '[' (by decide) (by decide)),
    if_neg (hne '{' (by decide) (by decide)), if_pos hd, hread, Option.map_some]

mutual
theorem readValue_render : ∀ (j : Json) (fuel : ℕ) (rest : List Char), WellFormed j →
    (render j).length ≤ fuel → Delimited rest → readValue fuel (render j ++ rest) = some (j, rest)
  | j, 0, rest, hj, hfuel, hrest => by
    have hpos := render_length_pos j hj
    omega
  | .null, fuel + 1, rest, hj, hfuel, hrest => by
    simp [render, readValue, skipSpace, isSpace, readKeyword]
  | .bool true, fuel + 1, rest, hj, hfuel, hrest => by
    simp [render, readValue, skipSpace, isSpace, readKeyword]
  | .bool false, fuel + 1, rest, hj, hfuel, hrest => by
    simp [render, readValue, skipSpace, isSpace, readKeyword]
  | .number lexeme, fuel + 1, rest, hj, hfuel, hrest => by
    rw [render]
    exact readValue_number hj hrest fuel
  | .string s, fuel + 1, rest, hj, hfuel, hrest => by
    rw [render, quote_eq, List.cons_append, readValue, skipSpace_cons (by decide)]
    simp only [if_true, readChars_quote, Option.map_some, ofChars, String.ofList_toList]
  | .undecodable, fuel + 1, rest, hj, hfuel, hrest => by
    rw [render, List.cons_append, readValue, skipSpace_cons (by decide)]
    simp only [if_true, List.cons_append, List.nil_append, readChars_unpaired, Option.map_some,
      ofChars]
  | .array [], fuel + 1, rest, hj, hfuel, hrest => by
    simp [render, readValue, skipSpace, isSpace]
  | .array (item :: items), fuel + 1, rest, hj, hfuel, hrest => by
    rw [WellFormed, WellFormedItems] at hj
    simp only [render, List.length_cons, List.length_append] at hfuel
    have hvalue := readValue_render item fuel (renderItems items ++ rest) hj.1 (by omega)
      (delimited_renderItems items rest)
    have hitems := readItems_renderItems items fuel rest hj.2 (by omega)
    have hhead := head_skipSpace_render item hj.1 (renderItems items ++ rest) ']' (Or.inl rfl)
    rw [render, List.cons_append, List.append_assoc, readValue, skipSpace_cons (by decide)]
    simp only [if_neg (show ¬ '[' = '"' by decide), if_true, if_neg hhead, hvalue, hitems,
      Option.bind_eq_bind, Option.bind_some, pure]
  | .object [], fuel + 1, rest, hj, hfuel, hrest => by
    simp [render, readValue, skipSpace, isSpace]
  | .object ((key, value) :: members), fuel + 1, rest, hj, hfuel, hrest => by
    rw [WellFormed, WellFormedMembers] at hj
    simp only [render, List.length_cons, List.length_append] at hfuel
    have hmember := readMember_render key value fuel (renderMembers members ++ rest) hj.1
      (by simp only [List.length_cons, List.length_append]; omega)
      (delimited_renderMembers members rest)
    have hmembers := readMembers_renderMembers members fuel rest hj.2 (by omega)
    have hhead : (skipSpace (quote key ++ ':' :: (render value ++ (renderMembers members ++
        rest)))).head? ≠ some '}' := by
      rw [quote_eq, List.cons_append, skipSpace_cons (by decide)]
      simp
    rw [render]
    simp only [List.cons_append, List.append_assoc] at hmember ⊢
    rw [readValue, skipSpace_cons (by decide)]
    simp only [if_neg (show ¬ '{' = '"' by decide), if_neg (show ¬ '{' = '[' by decide), if_true,
      if_neg hhead, hmember, hmembers, Option.bind_eq_bind, Option.bind_some, consMember, ofMembers,
      pure]

theorem readMember_render : ∀ (key : String) (value : Json) (fuel : ℕ) (rest : List Char),
    WellFormed value → (quote key ++ ':' :: render value).length ≤ fuel → Delimited rest →
    readMember fuel ((quote key ++ ':' :: render value) ++ rest) = some (some (key, value), rest)
  | key, value, 0, rest, hvalue, hfuel, hrest => by
    simp at hfuel
  | key, value, fuel + 1, rest, hvalue, hfuel, hrest => by
    have hquote := quote_length_pos key
    simp only [List.length_cons, List.length_append] at hfuel
    have hread := readValue_render value fuel rest hvalue (by omega) hrest
    rw [List.append_assoc, quote_eq, List.cons_append, readMember, skipSpace_cons (by decide)]
    simp only [readChars_quote, Option.bind_eq_bind, Option.bind_some]
    rw [List.cons_append, skipSpace_cons (by decide)]
    simp only [hread, Option.bind_some, Option.map_some, String.ofList_toList, pure]

theorem readItems_renderItems : ∀ (items : List Json) (fuel : ℕ) (rest : List Char),
    WellFormedItems items → (renderItems items).length ≤ fuel →
    readItems fuel (renderItems items ++ rest) = some (items, rest)
  | [], 0, rest, hitems, hfuel => by simp [renderItems] at hfuel
  | _ :: _, 0, rest, hitems, hfuel => by simp [renderItems] at hfuel
  | [], fuel + 1, rest, hitems, hfuel => by simp [renderItems, readItems, skipSpace, isSpace]
  | item :: items, fuel + 1, rest, hitems, hfuel => by
    rw [WellFormedItems] at hitems
    simp only [renderItems, List.length_cons, List.length_append] at hfuel
    have hvalue := readValue_render item fuel (renderItems items ++ rest) hitems.1 (by omega)
      (delimited_renderItems items rest)
    have hrest := readItems_renderItems items fuel rest hitems.2 (by omega)
    rw [renderItems, List.cons_append, List.append_assoc, readItems, skipSpace_cons (by decide)]
    simp only [hvalue, hrest, Option.bind_eq_bind, Option.bind_some, pure]

theorem readMembers_renderMembers : ∀ (members : List (String × Json)) (fuel : ℕ)
    (rest : List Char), WellFormedMembers members → (renderMembers members).length ≤ fuel →
    readMembers fuel (renderMembers members ++ rest) = some (some members, rest)
  | [], 0, rest, hmembers, hfuel => by simp [renderMembers] at hfuel
  | (_, _) :: _, 0, rest, hmembers, hfuel => by simp [renderMembers] at hfuel
  | [], fuel + 1, rest, hmembers, hfuel => by simp [renderMembers, readMembers, skipSpace, isSpace]
  | (key, value) :: members, fuel + 1, rest, hmembers, hfuel => by
    rw [WellFormedMembers] at hmembers
    simp only [renderMembers, List.length_cons, List.length_append] at hfuel
    have hmember := readMember_render key value fuel (renderMembers members ++ rest) hmembers.1
      (by simp only [List.length_cons, List.length_append]; omega)
      (delimited_renderMembers members rest)
    have hrest := readMembers_renderMembers members fuel rest hmembers.2 (by omega)
    rw [renderMembers]
    simp only [List.cons_append, List.append_assoc] at hmember ⊢
    rw [readMembers, skipSpace_cons (by decide)]
    simp only [hmember, hrest, Option.bind_eq_bind, Option.bind_some, consMember, pure]
end

theorem parse_stringify (j : Json) (hj : WellFormed j) : parse (stringify j) = some j := by
  have hread := readValue_render j ((render j).length + 1) [] hj (Nat.le_succ _) delimited_nil
  rw [List.append_nil] at hread
  simp only [parse, stringify, String.toList_ofList, hread]
  rfl

end ReplayBackoff.Json
