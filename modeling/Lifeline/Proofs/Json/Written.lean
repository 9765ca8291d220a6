import Lifeline.Json.Writer
import Lifeline.Proofs.Json.ReadBack
import Mathlib.Algebra.Group.Nat.Defs
import Mathlib.Data.List.Basic

/-!
# Written values are read back

What is written for a value is a text of that value in every layout: layouts differ in
the blanks between the parts only, and an escape spells the character that it stands
for. So a written value is read back as it was, provided that its numbers are such as
can be read at all.
-/

namespace Lifeline.Json

open Text

section Leaves

private theorem hexDigits_control : ∀ n < 0x20,
    hexDigits 4 n = ['0', '0', (n / 16).digitChar, (n % 16).digitChar] := by
  decide

/-- The digits that are written for a control character spell it. -/
theorem spellsUnit_hexDigits {n : Nat} (h : n < 0x20) : SpellsUnit (hexDigits 4 n) n := by
  have hdigit {d : Nat} (hd : d < 16) : HexDigit d.digitChar d := ⟨hd, .inl rfl⟩
  have hunit : SpellsUnit ['0', '0', (n / 16).digitChar, (n % 16).digitChar]
      (((0 * 16 + 0) * 16 + n / 16) * 16 + n % 16) :=
    .intro (hdigit (by omega)) (hdigit (by omega)) (hdigit (by omega)) (hdigit (by omega))
  have hvalue : ((0 * 16 + 0) * 16 + n / 16) * 16 + n % 16 = n := by omega
  rwa [hvalue, ← hexDigits_control n h] at hunit

/-- What is written for a character spells it. -/
theorem spellsChar_escapeChar (c : Char) : SpellsChar (escapeChar c) c := by
  rw [escapeChar.eq_def]
  split
  iterate 7 exact .letter (by decide)
  next hquote hbackslash _ _ _ _ _ =>
    split
    · next hcontrol => exact .unit (spellsUnit_hexDigits hcontrol)
    · next hcontrol => exact .plain (Nat.not_lt.mp hcontrol) hquote hbackslash

/-- What is written between the quotes of a string spells its characters. -/
theorem spellsText_escape (s : List Char) : SpellsText (s.flatMap escapeChar) s := by
  induction s with
  | nil => exact .nil
  | cons c s ih => exact .cons (spellsChar_escapeChar c) ih

private theorem head?_toDigits_ne {n : Nat} (hn : n ≠ 0) :
    (Nat.toDigits 10 n).head? ≠ some '0' := by
  induction n using Nat.strongRecOn with
  | ind n ih =>
    rw [Nat.toDigits_eq_if (by decide)]
    split
    · next hlt =>
      have hdigit : ∀ d < 10, d ≠ 0 → d.digitChar ≠ '0' := by decide
      simpa using hdigit n hlt hn
    · have hfront := ih (n / 10) (by omega) (by omega)
      rwa [List.head?_append_of_ne_nil _ Nat.toDigits_ne_nil]

/-- The digits of a natural number are the whole part of a number. -/
theorem whole_toDigits (n : Nat) : Whole (Nat.toDigits 10 n) := by
  refine ⟨⟨Nat.toDigits_ne_nil, fun c hc => ?_⟩, fun hzero => ?_⟩
  · exact Nat.isDigit_of_mem_toDigits (by decide) (by decide) hc
  · by_cases hn : n = 0
    · rw [hn, Nat.toDigits_zero]
    · exact absurd hzero (head?_toDigits_ne hn)

/-- An integer is spelled by what is written for it, unless it is too long to convert. -/
theorem spells_writeInteger {n : Int} (h : n.natAbs < 10 ^ maxDigits) :
    Spells (writeInteger n) (.value (.integer n)) := by
  have hlength {k : Nat} (hk : k < 10 ^ maxDigits) : (Nat.toDigits 10 k).length ≤ maxDigits :=
    (Nat.length_toDigits_le_iff (by decide) (by decide)).mpr hk
  cases n with
  | ofNat k =>
    have hspells := Spells.integer false (whole_toDigits k) (hlength h)
    rwa [spelledInteger, if_neg Bool.false_ne_true, Nat.ofDigitChars_ten_toDigits] at hspells
  | negSucc k =>
    have hspells := Spells.integer true (whole_toDigits (k + 1)) (hlength h)
    rwa [spelledInteger, if_pos rfl, Nat.ofDigitChars_ten_toDigits] at hspells

end Leaves

section Layouts

variable (l : Layout) (depth : Nat)

theorem spaces_nil : Spaces [] := fun _ hc => absurd hc List.not_mem_nil

theorem spaces_space : Spaces [' '] := fun _ hc => by
  rw [List.mem_singleton.mp hc]
  rfl

/-- A line break is made of blanks. -/
theorem spaces_lineBreak : Spaces (l.lineBreak depth) := by
  intro c hc
  cases l with
  | compact => cases hc
  | indented width =>
    rcases List.mem_cons.mp hc with rfl | hc
    · rfl
    · rw [List.eq_of_mem_replicate hc]
      rfl

private theorem exists_separator : ∃ gap, l.separator depth = ',' :: gap ∧ Spaces gap := by
  cases l with
  | compact => exact ⟨[' '], rfl, spaces_space⟩
  | indented width => exact ⟨_, rfl, spaces_lineBreak (.indented width) depth⟩

end Layouts

mutual

/-- The numbers in the value can be read: its integers are not too long to convert, and its other
numbers are numbers. -/
def Value.Readable : Value → Prop
  | .integer n => n.natAbs < 10 ^ maxDigits
  | .real literal => Spells literal.toList (.value (.real literal))
  | .array items => ItemsReadable items
  | .object members => MembersReadable members
  | .null | .bool _ | .string _ => True

/-- So can those in all items. -/
def ItemsReadable : List Value → Prop
  | [] => True
  | v :: vs => v.Readable ∧ ItemsReadable vs

/-- So can those in all members. -/
def MembersReadable : List (String × Value) → Prop
  | [] => True
  | (_, v) :: ms => v.Readable ∧ MembersReadable ms

end

/-- The items of an array can be read if each of them can. -/
theorem itemsReadable_iff {vs : List Value} : ItemsReadable vs ↔ ∀ v ∈ vs, v.Readable := by
  induction vs with
  | nil => simp [ItemsReadable]
  | cons v vs ih => rw [ItemsReadable, ih, List.forall_mem_cons]

/-- The members of an object can be read if the value of each can. -/
theorem membersReadable_iff {ms : List (String × Value)} :
    MembersReadable ms ↔ ∀ m ∈ ms, m.2.Readable := by
  induction ms with
  | nil => simp [MembersReadable]
  | cons m ms ih => rw [MembersReadable, ih, List.forall_mem_cons]

namespace Value

@[simp] theorem readable_bool (b : Bool) : (bool b).Readable := trivial

@[simp] theorem readable_string (s : String) : (string s).Readable := trivial

@[simp] theorem readable_integer (n : Int) : (integer n).Readable ↔ n.natAbs < 10 ^ maxDigits :=
  Iff.rfl

@[simp] theorem readable_array (vs : List Value) :
    (array vs).Readable ↔ ∀ v ∈ vs, v.Readable := itemsReadable_iff

@[simp] theorem readable_object (ms : List (String × Value)) :
    (object ms).Readable ↔ ∀ m ∈ ms, m.2.Readable := membersReadable_iff

end Value

section Joining

variable (l : Layout) (depth : Nat) (t u : List Char) (ts : List (List Char))

/-- What stands between brackets: the items with separators between them, and line breaks around
them. -/
theorem enclose_cons (opener closer : Char) : l.enclose depth opener closer (t :: ts) =
    opener :: (l.lineBreak (depth + 1) ++ joinWith (l.separator (depth + 1)) (t :: ts) ++
      l.lineBreak depth) ++ [closer] := by
  rw [Layout.enclose, if_neg (by simp)]
  simp only [List.append_assoc, List.cons_append]

/-- Behind the first of several items stand a comma, blanks, and the others. -/
theorem exists_joinWith_cons : ∃ gap, Spaces gap ∧
    joinWith (l.separator depth) (t :: u :: ts) =
      t ++ ',' :: (gap ++ joinWith (l.separator depth) (u :: ts)) := by
  obtain ⟨gap, hgap, hspaces⟩ := exists_separator l depth
  refine ⟨gap, hspaces, ?_⟩
  rw [joinWith, hgap, List.append_assoc, List.cons_append]
  exact List.cons_ne_nil u ts

end Joining

mutual

/-- What is written for a value spells the value. -/
theorem Value.spells_write (l : Layout) : ∀ (v : Value) (depth : Nat), v.Readable →
    Spells (v.write l depth) (.value v)
  | .null, _, _ => .nullWord
  | .bool true, _, _ => .trueWord
  | .bool false, _, _ => .falseWord
  | .integer _, _, h => spells_writeInteger h
  | .real _, _, h => h
  | .string s, _, _ => by
    have hstring := Spells.string (spellsText_escape s.toList)
    rwa [String.ofList_toList] at hstring
  | .array [], _, _ => .emptyArray spaces_nil
  | .array (v :: vs), depth, h => by
    rw [Value.write, writeItems, enclose_cons, ← writeItems]
    exact .array (spells_writeItems l (v :: vs) (depth + 1) h (List.cons_ne_nil v vs)
      (spaces_lineBreak l _) (spaces_lineBreak l _))
  | .object [], _, _ => .emptyObject spaces_nil
  | .object ((name, v) :: ms), depth, h => by
    rw [Value.write, writeMembers, enclose_cons, ← writeMembers]
    exact .object (spells_writeMembers l ((name, v) :: ms) (depth + 1) h (List.cons_ne_nil _ ms)
      (spaces_lineBreak l _) (spaces_lineBreak l _))

/-- What is written for items spells them between blanks. -/
theorem spells_writeItems (l : Layout) : ∀ (vs : List Value) (depth : Nat), ItemsReadable vs →
    vs ≠ [] → ∀ {a b : List Char}, Spaces a → Spaces b →
      Spells (a ++ joinWith (l.separator depth) (writeItems l depth vs) ++ b) (.items vs)
  | [], _, _, hne, _, _, _, _ => absurd rfl hne
  | [v], depth, h, _, _, _, ha, hb => .lastItem ha (v.spells_write l depth h.1) hb
  | v :: w :: vs, depth, h, _, a, b, ha, hb => by
    obtain ⟨gap, hgap, hjoin⟩ := exists_joinWith_cons l depth (v.write l depth) (w.write l depth)
      (writeItems l depth vs)
    have hrest := spells_writeItems l (w :: vs) depth h.2 (List.cons_ne_nil w vs) hgap hb
    have hitem := Spells.item ha (v.spells_write l depth h.1) spaces_nil hrest
    rw [writeItems, writeItems, hjoin]
    simpa only [writeItems, List.append_assoc, List.cons_append, List.nil_append] using hitem

/-- What is written for members spells them between blanks. -/
theorem spells_writeMembers (l : Layout) : ∀ (ms : List (String × Value)) (depth : Nat),
    MembersReadable ms → ms ≠ [] → ∀ {a b : List Char}, Spaces a → Spaces b →
      Spells (a ++ joinWith (l.separator depth) (writeMembers l depth ms) ++ b) (.members ms)
  | [], _, _, hne, _, _, _, _ => absurd rfl hne
  | [(name, v)], depth, h, _, a, b, ha, hb => by
    have hmember := Spells.lastMember ha (spellsText_escape name.toList) spaces_nil spaces_space
      (v.spells_write l depth h.1) hb
    rw [String.ofList_toList] at hmember
    simpa only [writeMembers, joinWith, writeString, List.append_assoc, List.cons_append,
      List.nil_append] using hmember
  | (name, v) :: (name', w) :: ms, depth, h, _, a, b, ha, hb => by
    obtain ⟨gap, hgap, hjoin⟩ := exists_joinWith_cons l depth
      (writeString name ++ ':' :: ' ' :: v.write l depth)
      (writeString name' ++ ':' :: ' ' :: w.write l depth) (writeMembers l depth ms)
    have hrest := spells_writeMembers l ((name', w) :: ms) depth h.2 (List.cons_ne_nil _ ms)
      hgap hb
    have hmember := Spells.member ha (spellsText_escape name.toList) spaces_nil spaces_space
      (v.spells_write l depth h.1) spaces_nil hrest
    rw [String.ofList_toList] at hmember
    rw [writeMembers, writeMembers, hjoin]
    simpa only [writeMembers, writeString, List.append_assoc, List.cons_append,
      List.nil_append] using hmember

end

/-- A rendered value is read back as it was, in every layout. -/
theorem Value.read_render (l : Layout) {v : Value} (h : v.Readable) :
    read (v.render l).toList = .ok v := by
  refine read_of_textOf ⟨[], v.write l 0, ['\n'], spaces_nil, v.spells_write l 0 h, ?_, ?_⟩
  · intro c hc
    rw [List.mem_singleton.mp hc]
    rfl
  · rw [render, String.toList_ofList, List.nil_append]

end Lifeline.Json
