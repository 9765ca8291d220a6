import Lifeline.Proofs.AnnotationRecord
import Lifeline.Proofs.Scan.Written

/-!
# What brackets a record can hold

The weight of a record is the number of opening brackets that are written for it.
An annotation adds no more weight than it has opening brackets itself, and an
annotation for a field that has been assigned before takes the place of the weight
of that field. So a run of annotations that gives back a record of the same weight
has wasted nothing.
-/

namespace Lifeline

open Text

/-- A bracket that opens. -/
def isOpener (c : Char) : Bool := c == '(' || c == '\x7b'

/-- The number of opening brackets in a text. -/
def openers (s : List Char) : Nat := s.countP isOpener

@[simp] theorem openers_append (s t : List Char) : openers (s ++ t) = openers s + openers t :=
  List.countP_append ..

theorem openers_cons_of_false {c : Char} (h : isOpener c = false) (s : List Char) :
    openers (c :: s) = openers s := List.countP_cons_of_neg (by simp [h])

theorem openers_opener (b : Bracket) (s : List Char) : openers (b.opener :: s) = openers s + 1 :=
  List.countP_cons_of_pos (by cases b <;> rfl)

private theorem openers_closer (b : Bracket) (s : List Char) :
    openers (b.closer :: s) = openers s :=
  openers_cons_of_false (by cases b <;> rfl) s

/-- The opening brackets of a text are among its brackets. -/
theorem openers_brackets (s : List Char) : openers (brackets s) = openers s := by
  rw [openers, brackets, List.countP_filter, openers]
  refine List.countP_congr fun c _ => ?_
  simp only [isOpener, isBracket, Bool.and_eq_true, Bool.or_eq_true, beq_iff_eq]
  tauto

/-- The most brackets that an annotation can add to a record. -/
def Tag.openers (a : Tag) : Nat :=
  match a.value with
  | some value => Lifeline.openers value.toList + 1
  | none => 0

namespace Annotations

/-- The brackets of what is written for a field. -/
def shown (r : Annotations) (f : Field) : List Char := brackets ((r.valueText? f).getD [])

/-- The number of opening brackets that are written for a field, with the one around its value. -/
def fieldWeight (r : Annotations) (f : Field) : Nat :=
  match r.valueText? f with
  | some v => openers v + 1
  | none => 0

/-- The number of opening brackets that are written for a record. -/
def weight (r : Annotations) : Nat := (Field.all.map r.fieldWeight).sum

variable {r : Annotations} {f g : Field} {value : String}

private theorem present?_nonempty? (s : List Char) : present? (nonempty? s) = nonempty? s := by
  cases h : nonempty? s with
  | none => rfl
  | some t => simp [present?, (nonempty?_eq_some h).1]

private theorem getD_nonempty? (s : List Char) : ((nonempty? s).map String.toList).getD [] = s := by
  cases h : nonempty? s with
  | none =>
    rw [nonempty?] at h
    split at h
    · next hs => rw [List.isEmpty_iff.mp hs]; rfl
    · cases h
  | some t => exact (nonempty?_eq_some h).2

/-- A field is assigned with all the brackets of the value. -/
theorem shown_assign (r : Annotations) (f : Field) (value : String) :
    (r.assign f value).shown f = brackets value.toList := by
  cases f with
  | timeout => rfl
  | queue => rfl
  | request => simp [shown, valueText?, assign]
  | response => simp [shown, valueText?, assign]
  | type =>
    simp only [shown, valueText?, assign, present?_nonempty?, getD_nonempty?, brackets_upper,
      brackets_trim]
  | flow =>
    have hflows : ((splitFlows value.toList).map String.ofList).map String.toList =
        splitFlows value.toList := by
      have hid : String.toList ∘ String.ofList = id := funext fun s => String.toList_ofList
      rw [List.map_map, hid, List.map_id]
    rw [← brackets_splitFlows value.toList, ← brackets_joinWith [',', ' '] rfl]
    simp only [shown, valueText?, assign, hflows, List.isEmpty_map]
    split
    · next he => rw [List.isEmpty_iff.mp he]; rfl
    · rfl
  | path =>
    rcases splitPath_cases value.toList with ⟨hs, -⟩ | ⟨method, path, hs, hm, hp, -, hb⟩
    · have htext (m : Option String) (h : m = none) (p : Option String) :
          p.map (pathText { r with path := p, method := m }) = p.map String.toList := by
        rw [h]
        rfl
      simp only [shown, valueText?, assign, hs, Option.map_none, present?_nonempty?]
      rw [htext none rfl, getD_nonempty?, brackets_trim]
    · have hpath : nonempty? path = some (String.ofList path) := by
        rw [nonempty?, if_neg (by simpa [List.isEmpty_iff] using hp)]
      have hmethod : String.ofList method ≠ "" := by
        intro h
        refine hm ?_
        rw [← String.toList_ofList (l := method), h]
        rfl
      have hpresent : present? (some (String.ofList path)) = some (String.ofList path) := by
        rw [← hpath, present?_nonempty?]
      simp only [shown, valueText?, assign, hs, hpath, hpresent, Option.map_some,
        Option.getD_some, pathText, String.toList_ofList]
      rw [if_neg (by simpa using hmethod), hb]

private theorem fieldWeight_le (r : Annotations) (f : Field) :
    r.fieldWeight f ≤ openers (r.shown f) + 1 := by
  rw [fieldWeight, shown, openers_brackets]
  split
  · next v hv => rw [hv, Option.getD_some]
  · exact Nat.zero_le _

/-- A field that is assigned exchanges its weight. -/
theorem weight_assign (r : Annotations) (f : Field) (value : String) :
    (r.assign f value).weight + r.fieldWeight f =
      r.weight + (r.assign f value).fieldWeight f := by
  have hne (g : Field) (h : g ≠ f) : (r.assign f value).fieldWeight g = r.fieldWeight g := by
    rw [fieldWeight, fieldWeight, valueText?_assign_of_ne h value]
  cases f <;> simp [weight, Field.all, hne] <;> omega

/-- The weight of what is assigned is at most that of the annotation. -/
theorem fieldWeight_assign_le (r : Annotations) (f : Field) (value : String) :
    (r.assign f value).fieldWeight f ≤ openers value.toList + 1 := by
  have h := fieldWeight_le (r.assign f value) f
  rwa [shown_assign, openers_brackets] at h

private theorem openers_of_effect {a : Tag} (h : a.effect = .assign f value) :
    a.openers = openers value.toList + 1 := by
  rw [Tag.effect] at h
  split at h
  · cases h
  split at h
  · cases h
  split at h
  · cases h
  · next v g hv _ =>
    cases h
    rw [Tag.openers, hv]
  · cases h

/-- One more annotation assigns a field, whose weight it exchanges for no more than its own opening
brackets, or it leaves the field alone and adds no more than those. -/
theorem weight_apply_le (r : Annotations) (a : Tag) (f : Field) :
    (r.apply a).weight + r.fieldWeight f ≤ r.weight + a.openers ∨
      (r.apply a).valueText? f = r.valueText? f ∧ (r.apply a).weight ≤ r.weight + a.openers := by
  rw [apply]
  split
  · exact .inr ⟨by cases f <;> rfl, Nat.le_add_right _ _⟩
  · next g value he =>
    have hw := weight_assign r g value
    have hle := fieldWeight_assign_le r g value
    rw [openers_of_effect he]
    by_cases hg : f = g
    · subst hg
      exact .inl (by omega)
    · exact .inr ⟨valueText?_assign_of_ne hg value, by omega⟩
  · exact .inr ⟨rfl, Nat.le_add_right _ _⟩
  · exact .inr ⟨rfl, Nat.le_add_right _ _⟩

/-- Further annotations add no more than their own opening brackets. -/
theorem weight_foldl_le (r : Annotations) (items : List Tag) :
    (items.foldl apply r).weight ≤ r.weight + (items.map Tag.openers).sum := by
  induction items generalizing r with
  | nil => exact Nat.le_refl _
  | cons a items ih =>
    have ha : (r.apply a).weight ≤ r.weight + a.openers := by
      rcases weight_apply_le r a .path with h | h
      · omega
      · exact h.2
    have hr := ih (r.apply a)
    rw [List.map_cons, List.sum_cons]
    simp only [List.foldl_cons]
    omega

/-- Further annotations leave a field alone, or the weight that it had is lost. -/
theorem weight_foldl_of_shown_ne {items : List Tag}
    (h : (items.foldl apply r).shown f ≠ r.shown f) :
    (items.foldl apply r).weight + r.fieldWeight f ≤ r.weight + (items.map Tag.openers).sum := by
  induction items generalizing r with
  | nil => exact absurd rfl h
  | cons a items ih =>
    rw [List.map_cons, List.sum_cons]
    simp only [List.foldl_cons] at h ⊢
    rcases weight_apply_le r a f with ha | ⟨hf, ha⟩
    · have hr := weight_foldl_le (r.apply a) items
      omega
    · have hshown : (r.apply a).shown f = r.shown f := by rw [shown, shown, hf]
      have hweight : (r.apply a).fieldWeight f = r.fieldWeight f := by
        rw [fieldWeight, fieldWeight, hf]
      have hr := ih (r := r.apply a) (by rwa [hshown])
      omega

/-- A record from nothing weighs no more than the opening brackets of its annotations. -/
theorem weight_ofList_le (items : List Tag) :
    (ofList items).weight ≤ (items.map Tag.openers).sum := by
  have h := weight_foldl_le {} items
  rwa [show weight {} = 0 from rfl, Nat.zero_add] at h

/-- If a field does not end up with the brackets of an annotation for it, that annotation adds
nothing to the weight of the record. -/
theorem weight_ofList_of_shown_ne {before more : List Tag}
    (h : (ofList (before ++ ⟨f.name, some value⟩ :: more)).shown f ≠ brackets value.toList) :
    (ofList (before ++ ⟨f.name, some value⟩ :: more)).weight ≤
      (before.map Tag.openers).sum + (more.map Tag.openers).sum := by
  have hrecord : ofList (before ++ ⟨f.name, some value⟩ :: more) =
      more.foldl apply ((ofList before).assign f value) := by
    rw [ofList, List.foldl_append, List.foldl_cons, apply, effect_name, ofList]
  rw [hrecord, ← shown_assign (ofList before) f value] at h
  have hlost := weight_foldl_of_shown_ne h
  have hassign := weight_assign (ofList before) f value
  have hbefore := weight_ofList_le before
  rw [hrecord]
  omega

private theorem openers_name (f : Field) : openers f.name.toList = 0 := by cases f <;> decide

/-- The opening brackets that are written for a field are its weight. -/
theorem openers_spaced_mark (r : Annotations) (f : Field) :
    openers (Lexeme.spaced (r.mark f)) = r.fieldWeight f := by
  rw [mark, fieldWeight]
  cases r.valueText? f with
  | none => rfl
  | some v =>
    have htext (b : Bracket) :
        Lexeme.spaced [.tag f.name.toList (some (b, ⟨v, true⟩))] =
          ' ' :: '@' :: (f.name.toList ++ b.opener :: (v ++ [b.closer])) := by
      simp [Lexeme.spaced, Lexeme.text, Lexeme.valueText, Enclosed.text]
    rw [Option.map_some, Option.toList_some, htext, openers_cons_of_false rfl,
      openers_cons_of_false rfl, openers_append, openers_name, openers_opener, openers_append,
      openers_closer, Nat.zero_add]
    rfl

/-- The opening brackets that are written for a record are its weight. -/
theorem openers_spaced_marks (r : Annotations) : openers (Lexeme.spaced r.marks) = r.weight := by
  have hasync : openers (Lexeme.spaced r.asyncMark) = 0 := by
    rw [asyncMark]
    split <;> rfl
  simp only [marks, Lexeme.spaced_append, openers_append, openers_spaced_mark, hasync, weight,
    Field.all, List.map_cons, List.map_nil, List.sum_cons, List.sum_nil]
  omega

end Annotations

/-- A tag has at least as many opening brackets as its value and one more around it. -/
theorem Lexeme.openers_of_tag? {l : Lexeme} {a : Tag} (h : l.tag? = some a) :
    a.openers ≤ Lifeline.openers l.text := by
  cases l with
  | tag name value =>
    cases h
    cases value with
    | none => exact Nat.zero_le _
    | some v =>
      obtain ⟨b, inside⟩ := v
      have htext : (Lexeme.tag name (some (b, inside))).text =
          '@' :: name ++ b.opener :: (inside.content ++ if inside.closed then [b.closer] else []) :=
        rfl
      rw [htext, openers_append, openers_opener, openers_append]
      simp only [Tag.openers, Option.map_some, String.toList_ofList]
      omega
  | _ => cases h

/-- The tags of a text have no more opening brackets than the text. -/
theorem Source.openers_tags_le (s : List Char) :
    (((lexemes s).filterMap Lexeme.tag?).map Tag.openers).sum ≤ openers s := by
  induction s using pieces.induct with
  | case1 => simp [lexemes]
  | case2 c s l rest hs ih =>
    rw [lexemes_of_scan hs, ← Lexeme.scan_append hs, openers_append]
    cases ht : l.tag? with
    | none =>
      rw [List.filterMap_cons_none ht]
      omega
    | some a =>
      have ha := Lexeme.openers_of_tag? ht
      rw [List.filterMap_cons_some ht, List.map_cons, List.sum_cons]
      omega
  | case3 c s hs ih =>
    have hc : openers s ≤ openers (c :: s) := by
      rw [openers, openers, List.countP_cons]
      exact Nat.le_add_right _ _
    rw [lexemes_of_scan_none hs]
    omega

end Lifeline
