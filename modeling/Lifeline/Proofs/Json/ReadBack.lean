import Lifeline.Proofs.Json.Grammar

/-!
# Texts of a value are read as that value

What the grammar admits, the reader reads as the value that it spells. The induction is
on the spelling, with the text behind it and the fuel as parameters: a value leaves what
stands behind it, and items and members leave what stands behind their bracket.
-/

namespace Lifeline.Json

open Text

/-- What the reader has to make of a text that spells a part, whatever stands behind it. A value may
be followed by anything that ends a number; items and members are read from their first character
that is no blank, and end with their bracket. Every text is longer than half the depth to which its
reading goes. -/
def Part.ReadBack (t : List Char) : Part → Prop
  | .value v => ∀ fuel rest, 2 * t.length ≤ fuel → Ends rest →
      readValue fuel (t ++ rest) = .ok (v, rest)
  | .items vs => ∀ fuel rest, 2 * t.length + 1 ≤ fuel →
      readItems fuel (skipSpace (t ++ ']' :: rest)) = .ok (vs, rest)
  | .members ms => ∀ fuel rest, 2 * t.length + 1 ≤ fuel →
      readMembers fuel (skipSpace (t ++ '\x7d' :: rest)) = .ok (ms, rest)

section Reading

variable {a s t rest : List Char} {v : Value} {vs : List Value} {ms : List (String × Value)}

private theorem skipSpace_append (ha : Spaces a) (s : List Char) :
    skipSpace (a ++ s) = skipSpace s :=
  List.dropWhile_append_of_pos ha

theorem skipSpace_append_cons {c : Char} (ha : Spaces a) (hc : isSpace c = false) (s : List Char) :
    skipSpace (a ++ c :: s) = c :: s := by
  rw [skipSpace_append ha, skipSpace, List.dropWhile_cons_of_neg (by simp [hc])]

private theorem ends_append {c : Char} (ha : Spaces a) (hc : c = ',' ∨ c = ']' ∨ c = '\x7d')
    (s : List Char) : Ends (a ++ c :: s) := by
  cases a with
  | nil =>
    rintro d ⟨⟩
    exact .inr hc
  | cons b a =>
    rintro d ⟨⟩
    exact .inl (ha _ List.mem_cons_self)

/-- A value starts with neither a blank nor a closing bracket. -/
theorem Spells.exists_head (h : Spells t (.value v)) :
    ∃ c s, t = c :: s ∧ isSpace c = false ∧ c ≠ ']' := by
  have hdigit {c : Char} (hc : c.isDigit = true) : isSpace c = false ∧ c ≠ ']' := by
    simp only [isSpace, Bool.or_eq_false_iff, beq_eq_false_iff_ne]
    refine ⟨⟨⟨⟨?_, ?_⟩, ?_⟩, ?_⟩, ?_⟩ <;>
    · rintro rfl
      cases hc
  have hnumber (negative : Bool) {ds : List Char} (hw : Whole ds) (s : List Char) :
      ∃ c r, minus negative ++ (ds ++ s) = c :: r ∧ isSpace c = false ∧ c ≠ ']' := by
    obtain ⟨⟨hne, hdigits⟩, -⟩ := hw
    cases ds with
    | nil => exact absurd rfl hne
    | cons d ds =>
      cases negative with
      | true => exact ⟨_, _, rfl, rfl, by decide⟩
      | false =>
        exact ⟨d, ds ++ s, rfl, hdigit (hdigits d List.mem_cons_self)⟩
  cases h with
  | integer negative hw =>
    have hhead := hnumber negative hw []
    rwa [List.append_nil] at hhead
  | real negative hw =>
    rw [List.append_assoc]
    exact hnumber negative hw _
  | _ => exact ⟨_, _, rfl, rfl, by decide⟩

/-- Items start with neither a blank nor the bracket that closes them. -/
theorem Spells.skipSpace_items (h : Spells t (.items vs)) (rest : List Char) :
    ∃ c s, skipSpace (t ++ rest) = c :: s ∧ c ≠ ']' := by
  have hskip {a t b : List Char} {v : Value} (ha : Spaces a) (ht : Spells t (.value v)) :
      ∃ c s, skipSpace (a ++ (t ++ b)) = c :: s ∧ c ≠ ']' := by
    obtain ⟨c, s, rfl, hc, hne⟩ := ht.exists_head
    exact ⟨c, s ++ b, skipSpace_append_cons ha hc _, hne⟩
  cases h with
  | lastItem ha ht =>
    simp only [List.append_assoc]
    exact hskip ha ht
  | item ha ht =>
    simp only [List.append_assoc]
    exact hskip ha ht

/-- Members start with the quote of a name. -/
theorem Spells.skipSpace_members (h : Spells t (.members ms)) (rest : List Char) :
    ∃ s, skipSpace (t ++ rest) = '"' :: s := by
  cases h with
  | lastMember ha =>
    simp only [List.append_assoc, List.cons_append]
    exact ⟨_, skipSpace_append_cons ha rfl _⟩
  | member ha =>
    simp only [List.append_assoc, List.cons_append]
    exact ⟨_, skipSpace_append_cons ha rfl _⟩

variable {fuel : Nat}

/-- What starts with no quote and no opening bracket is a word or a number. -/
theorem readValue_atom {c : Char} (h : c ≠ '"' ∧ c ≠ '[' ∧ c ≠ '\x7b') (s : List Char) :
    readValue (fuel + 1) (c :: s) = readAtom (c :: s) := by
  rw [readValue.eq_def]
  dsimp only
  split
  · next he => exact absurd (List.cons.inj he).1 h.1
  · next he => exact absurd (List.cons.inj he).1 h.2.1
  · next he => exact absurd (List.cons.inj he).1 h.2.2
  · rfl

/-- A string is read from behind its quote. -/
theorem readValue_string {text : String} (h : readString s = .ok (text, rest)) :
    readValue (fuel + 1) ('"' :: s) = .ok (.string text, rest) := by
  rw [readValue, h]
  rfl

/-- An array is read from its items. -/
theorem readValue_array {c : Char} (hs : skipSpace s = c :: t) (hc : c ≠ ']')
    (h : readItems fuel (c :: t) = .ok (vs, rest)) :
    readValue (fuel + 1) ('[' :: s) = .ok (.array vs, rest) := by
  rw [readValue]
  split
  · next he =>
    rw [hs] at he
    exact absurd (List.cons.inj he).1 hc
  · rw [hs, h]
    rfl

/-- An object is read from its members. -/
theorem readValue_object (hs : skipSpace s = '"' :: t)
    (h : readMembers fuel ('"' :: t) = .ok (ms, rest)) :
    readValue (fuel + 1) ('\x7b' :: s) = .ok (.object ms, rest) := by
  rw [readValue]
  split
  · next he =>
    rw [hs] at he
    cases he
  · rw [hs, h]
    rfl

private theorem readItems_last (h : readValue fuel s = .ok (v, t))
    (ht : skipSpace t = ']' :: rest) :
    readItems (fuel + 1) s = .ok ([v], rest) := by
  rw [readItems, h]
  simp only [bind, Except.bind, ht]
  rfl

private theorem readItems_cons {u : List Char} (h : readValue fuel s = .ok (v, t))
    (ht : skipSpace t = ',' :: u) (hu : readItems fuel (skipSpace u) = .ok (vs, rest)) :
    readItems (fuel + 1) s = .ok (v :: vs, rest) := by
  rw [readItems, h]
  simp only [bind, Except.bind, ht, hu]
  rfl

variable {name : String} {u w : List Char}

private theorem readMembers_last (hname : readString s = .ok (name, t))
    (ht : skipSpace t = ':' :: u) (hv : readValue fuel (skipSpace u) = .ok (v, w))
    (hw : skipSpace w = '\x7d' :: rest) :
    readMembers (fuel + 1) ('"' :: s) = .ok ([(name, v)], rest) := by
  rw [readMembers, hname]
  simp only [bind, Except.bind, ht, hv, hw]
  rfl

private theorem readMembers_cons {x : List Char} (hname : readString s = .ok (name, t))
    (ht : skipSpace t = ':' :: u) (hv : readValue fuel (skipSpace u) = .ok (v, w))
    (hw : skipSpace w = ',' :: x) (hx : readMembers fuel (skipSpace x) = .ok (ms, rest)) :
    readMembers (fuel + 1) ('"' :: s) = .ok ((name, v) :: ms, rest) := by
  rw [readMembers, hname]
  simp only [bind, Except.bind, ht, hv, hw, hx]
  rfl

end Reading

namespace Part.ReadBack

variable {a b c d k t u name : List Char} {v : Value} {vs : List Value}
  {ms : List (String × Value)}

/-- A word or a number is read back if it is read as such. -/
theorem atom {c : Char} (hc : c ≠ '"' ∧ c ≠ '[' ∧ c ≠ '\x7b')
    (h : ∀ rest, Ends rest → readAtom (c :: t ++ rest) = .ok (v, rest)) :
    ReadBack (c :: t) (.value v) := by
  intro fuel rest hfuel hr
  cases fuel with
  | zero => simp at hfuel
  | succ fuel => rw [← h rest hr, List.cons_append, readValue_atom hc]

/-- A number is read back. -/
theorem number {ds fs es : List Char} (negative : Bool) (hw : Whole ds)
    (h : ∀ rest, Ends rest →
      readAtom (minus negative ++ (ds ++ fs ++ es) ++ rest) = .ok (v, rest)) :
    ReadBack (minus negative ++ (ds ++ fs ++ es)) (.value v) := by
  obtain ⟨⟨hne, hdigits⟩, -⟩ := hw
  cases ds with
  | nil => exact absurd rfl hne
  | cons d ds =>
    cases negative with
    | true => exact atom (by decide) h
    | false =>
      have hd : d ≠ '"' ∧ d ≠ '[' ∧ d ≠ '\x7b' := by
        have hdigit := hdigits d List.mem_cons_self
        refine ⟨?_, ?_, ?_⟩ <;>
        · rintro rfl
          revert hdigit
          decide
      exact atom hd h

/-- A string is read back. -/
theorem string {s : List Char} (h : SpellsText t s) :
    ReadBack ('"' :: t ++ ['"']) (.value (.string (String.ofList s))) := by
  intro fuel rest hfuel _
  cases fuel with
  | zero => simp at hfuel
  | succ fuel =>
    rw [List.append_assoc, List.cons_append]
    exact readValue_string (readString_of_spellsText h rest)

/-- The empty array is read back. -/
theorem emptyArray (ha : Spaces a) : ReadBack ('[' :: a ++ [']']) (.value (.array [])) := by
  intro fuel rest hfuel _
  cases fuel with
  | zero => simp at hfuel
  | succ fuel =>
    rw [List.append_assoc, List.cons_append, readValue, List.singleton_append,
      skipSpace_append_cons ha rfl]
    rfl

/-- The empty object is read back. -/
theorem emptyObject (ha : Spaces a) :
    ReadBack ('\x7b' :: a ++ ['\x7d']) (.value (.object [])) := by
  intro fuel rest hfuel _
  cases fuel with
  | zero => simp at hfuel
  | succ fuel =>
    rw [List.append_assoc, List.cons_append, readValue, List.singleton_append,
      skipSpace_append_cons ha rfl]
    rfl

/-- An array is read back if its items are. -/
theorem array (ht : Spells t (.items vs)) (h : ReadBack t (.items vs)) :
    ReadBack ('[' :: t ++ [']']) (.value (.array vs)) := by
  intro fuel rest hfuel _
  simp only [List.length_append, List.length_cons, List.length_nil] at hfuel
  cases fuel with
  | zero => omega
  | succ fuel =>
    obtain ⟨c, s, hs, hc⟩ := ht.skipSpace_items (']' :: rest)
    have hitems := h fuel rest (by omega)
    rw [hs] at hitems
    rw [List.append_assoc, List.cons_append]
    exact readValue_array hs hc hitems

/-- An object is read back if its members are. -/
theorem object (ht : Spells t (.members ms)) (h : ReadBack t (.members ms)) :
    ReadBack ('\x7b' :: t ++ ['\x7d']) (.value (.object ms)) := by
  intro fuel rest hfuel _
  simp only [List.length_append, List.length_cons, List.length_nil] at hfuel
  cases fuel with
  | zero => omega
  | succ fuel =>
    obtain ⟨s, hs⟩ := ht.skipSpace_members ('\x7d' :: rest)
    have hmembers := h fuel rest (by omega)
    rw [hs] at hmembers
    rw [List.append_assoc, List.cons_append]
    exact readValue_object hs hmembers

/-- A value is read back between blanks. -/
theorem between {fuel : Nat} {c : Char} (ha : Spaces a) (ht : Spells t (.value v))
    (hb : Spaces b) (h : ReadBack t (.value v)) (hc : c = ',' ∨ c = ']' ∨ c = '\x7d')
    (hfuel : 2 * t.length ≤ fuel) (rest : List Char) :
    readValue fuel (skipSpace (a ++ (t ++ (b ++ c :: rest)))) = .ok (v, b ++ c :: rest) ∧
      skipSpace (b ++ c :: rest) = c :: rest := by
  have hspace : isSpace c = false := by rcases hc with rfl | rfl | rfl <;> rfl
  refine ⟨?_, skipSpace_append_cons hb hspace rest⟩
  rw [← h fuel _ hfuel (ends_append hb hc rest)]
  obtain ⟨d, s, rfl, hd, -⟩ := ht.exists_head
  rw [List.cons_append, skipSpace_append_cons ha hd]

/-- The last item is read back. -/
theorem lastItem (ha : Spaces a) (ht : Spells t (.value v)) (hb : Spaces b)
    (h : ReadBack t (.value v)) : ReadBack (a ++ t ++ b) (.items [v]) := by
  intro fuel rest hfuel
  simp only [List.length_append] at hfuel
  cases fuel with
  | zero => omega
  | succ fuel =>
    obtain ⟨hv, hend⟩ := between ha ht hb h (.inr (.inl rfl))
      (by omega : 2 * t.length ≤ fuel) rest
    simp only [List.append_assoc]
    exact readItems_last hv hend

/-- Items are read back if the first one and the others are. -/
theorem item (ha : Spaces a) (ht : Spells t (.value v)) (hb : Spaces b)
    (h : ReadBack t (.value v)) (hu : ReadBack u (.items vs)) :
    ReadBack (a ++ t ++ b ++ ',' :: u) (.items (v :: vs)) := by
  intro fuel rest hfuel
  simp only [List.length_append, List.length_cons] at hfuel
  cases fuel with
  | zero => omega
  | succ fuel =>
    obtain ⟨hv, hend⟩ := between ha ht hb h (.inl rfl)
      (by omega : 2 * t.length ≤ fuel) (u ++ ']' :: rest)
    simp only [List.append_assoc, List.cons_append]
    exact readItems_cons hv hend (hu fuel rest (by omega))

/-- The last member is read back. -/
theorem lastMember (ha : Spaces a) (hk : SpellsText k name) (hb : Spaces b) (hc : Spaces c)
    (ht : Spells t (.value v)) (hd : Spaces d) (h : ReadBack t (.value v)) :
    ReadBack (a ++ '"' :: k ++ '"' :: b ++ ':' :: c ++ t ++ d)
      (.members [(String.ofList name, v)]) := by
  intro fuel rest hfuel
  simp only [List.length_append, List.length_cons] at hfuel
  cases fuel with
  | zero => omega
  | succ fuel =>
    obtain ⟨hv, hend⟩ := between hc ht hd h (.inr (.inr rfl))
      (by omega : 2 * t.length ≤ fuel) rest
    simp only [List.append_assoc, List.cons_append]
    rw [skipSpace_append_cons ha rfl]
    exact readMembers_last (readString_of_spellsText hk _) (skipSpace_append_cons hb rfl _) hv hend

/-- Members are read back if the first one and the others are. -/
theorem member (ha : Spaces a) (hk : SpellsText k name) (hb : Spaces b) (hc : Spaces c)
    (ht : Spells t (.value v)) (hd : Spaces d) (h : ReadBack t (.value v))
    (hu : ReadBack u (.members ms)) :
    ReadBack (a ++ '"' :: k ++ '"' :: b ++ ':' :: c ++ t ++ d ++ ',' :: u)
      (.members ((String.ofList name, v) :: ms)) := by
  intro fuel rest hfuel
  simp only [List.length_append, List.length_cons] at hfuel
  cases fuel with
  | zero => omega
  | succ fuel =>
    obtain ⟨hv, hend⟩ := between hc ht hd h (.inl rfl)
      (by omega : 2 * t.length ≤ fuel) (u ++ '\x7d' :: rest)
    simp only [List.append_assoc, List.cons_append]
    rw [skipSpace_append_cons ha rfl]
    exact readMembers_cons (readString_of_spellsText hk _) (skipSpace_append_cons hb rfl _) hv hend
      (hu fuel rest (by omega))

end Part.ReadBack

/-- What spells a part is read back as that part. -/
theorem Spells.readBack {t : List Char} {p : Part} (h : Spells t p) : p.ReadBack t := by
  induction h with
  | nullWord | trueWord | falseWord | undefinedWord | infinityWord | negativeInfinityWord =>
    exact .atom (by decide) fun _ _ => rfl
  | @integer ds negative hw hl =>
    have hread : ∀ rest, Ends rest → readAtom (minus negative ++ (ds ++ [] ++ []) ++ rest) =
        .ok (.integer (spelledInteger negative ds), rest) := fun rest hr => by
      rw [readAtom_number negative hw .missing .missing hr, if_pos (List.nil_append []), if_pos hl]
    have hnumber := Part.ReadBack.number negative hw hread
    rwa [List.append_nil, List.append_nil] at hnumber
  | real negative hw hf he hne =>
    refine .number negative hw fun rest hr => ?_
    rw [readAtom_number negative hw hf he hr, if_neg hne]
  | string h => exact .string h
  | emptyArray ha => exact .emptyArray ha
  | array h ih => exact .array h ih
  | emptyObject ha => exact .emptyObject ha
  | object h ih => exact .object h ih
  | lastItem ha ht hb ih => exact .lastItem ha ht hb ih
  | item ha ht hb _ iht ihu => exact .item ha ht hb iht ihu
  | lastMember ha hk hb hc ht hd ih => exact .lastMember ha hk hb hc ht hd ih
  | member ha hk hb hc ht hd _ iht ihu => exact .member ha hk hb hc ht hd iht ihu

/-- A text of a value is read as that value. -/
theorem read_of_textOf {s : List Char} {v : Value} (h : TextOf s v) : read s = .ok v := by
  obtain ⟨a, t, b, ha, ht, hb, rfl⟩ := h
  have hend : Ends b := by
    intro c hc
    exact .inl (hb c (List.mem_of_mem_head? hc))
  have hskip : skipSpace (a ++ t ++ b) = t ++ b := by
    obtain ⟨c, s, rfl, hc, -⟩ := ht.exists_head
    rw [List.append_assoc, List.cons_append, skipSpace_append_cons ha hc]
  have hvalue := ht.readBack (2 * (a ++ t ++ b).length + 2) b
    (by simp only [List.length_append]; omega) hend
  have hrest : skipSpace b = [] := List.dropWhile_eq_nil_iff.mpr hb
  rw [read, hskip, hvalue]
  simp only [bind, Except.bind, hrest]
  rfl

end Lifeline.Json
