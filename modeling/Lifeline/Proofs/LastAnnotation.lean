import Lifeline.Proofs.AnnotationRecord
import Mathlib.Data.List.Induction

/-!
# The last annotation of a field counts

Annotations are applied to a record one after the other. What comes out is said here
without the order in which they are applied: each field holds what is read from the last
value that was given for it, or what it held before. So annotations that assign nothing
may be left out, and annotations that assign different fields may change places.
-/

namespace Lifeline

open Text

/-- What an annotation says about the mode of its message: whether the message is asynchronous. -/
def Tag.mode? (a : Tag) : Option Bool :=
  if a.name = "sync" then some false else if a.name = "async" then some true else none

/-- The value that an annotation has for a field. -/
def Tag.valueFor? (a : Tag) (f : Annotations.Field) : Option String :=
  if a.name = f.name then a.value else none

/-- The names of the annotations that say something about the mode. -/
def modeNames : List String := ["sync", "async"]

namespace Annotations

/-- The mode that the last annotation with a mode gives. -/
def lastMode? (items : List Tag) : Option Bool := (items.filterMap Tag.mode?).getLast?

/-- The value of the last annotation that has one for the field. -/
def lastValue? (items : List Tag) (f : Field) : Option String :=
  (items.filterMap (·.valueFor? f)).getLast?

/-- The record with the mode and the values that are given for it; what is not given stays. The
value for the path gives the path and the method. -/
def overwrite (r : Annotations) (mode : Option Bool) (value : Field → Option String) :
    Annotations where
  path := (value .path).elim r.path fun v => nonempty? (splitPath v.toList).2
  method := (value .path).elim r.method fun v => (splitPath v.toList).1.map String.ofList
  requestType := (value .type).elim r.requestType fun v => nonempty? (upper (trim v.toList))
  isAsync := mode.getD r.isAsync
  timeout := (value .timeout).or r.timeout
  queue := (value .queue).or r.queue
  flows := (value .flow).elim r.flows fun v => (splitFlows v.toList).map String.ofList
  request := ((value .request).map Payload.ofText).or r.request
  response := ((value .response).map Payload.ofText).or r.response

variable {r : Annotations} {items xs ys : List Tag} {a b : Tag}

private theorem overwrite_none (r : Annotations) : r.overwrite none (fun _ => none) = r := rfl

/-- What is given later counts before what is given earlier. -/
theorem overwrite_overwrite (r : Annotations) (mode mode' : Option Bool)
    (value value' : Field → Option String) :
    (r.overwrite mode value).overwrite mode' value' =
      r.overwrite (mode'.or mode) fun f => (value' f).or (value f) := by
  have helim {α : Type} (v v' : Option String) (x : α) (g : String → α) :
      v'.elim (v.elim x g) g = (v'.or v).elim x g := by cases v' <;> rfl
  have hpayload (v v' : Option String) (x : Option Payload) :
      (v'.map Payload.ofText).or ((v.map Payload.ofText).or x) =
        ((v'.or v).map Payload.ofText).or x := by cases v' <;> rfl
  have hmode : mode'.getD (mode.getD r.isAsync) = (mode'.or mode).getD r.isAsync := by
    cases mode' <;> rfl
  simp only [overwrite, helim, hpayload, hmode, Option.or_assoc]

/-- Assigning a field is overwriting it alone. -/
theorem assign_eq_overwrite (r : Annotations) (f : Field) (value : String) :
    r.assign f value = r.overwrite none (Tag.valueFor? ⟨f.name, some value⟩) := by
  cases f <;> rfl

private theorem name_not_mem_modeNames (f : Field) : f.name ∉ modeNames := by
  cases f <;> decide

/-- An annotation has a mode exactly if its name is that of one. -/
theorem mode?_eq_none_iff : a.mode? = none ↔ a.name ∉ modeNames := by
  simp only [Tag.mode?, modeNames, List.mem_cons, List.not_mem_nil, or_false, not_or]
  split
  · next h => simp [h]
  · next h => simp [h]

private theorem valueFor?_of_mode (h : a.name ∈ modeNames) (f : Field) : a.valueFor? f = none := by
  refine if_neg fun hname => name_not_mem_modeNames f ?_
  rwa [← hname]

/-- One annotation overwrites the mode if it has one, and otherwise the field that it has a value
for. -/
theorem apply_eq_overwrite (r : Annotations) (a : Tag) :
    r.apply a = r.overwrite a.mode? a.valueFor? := by
  by_cases hmode : a.name ∈ modeNames
  · have hvalue : a.valueFor? = fun _ => none := funext (valueFor?_of_mode hmode)
    obtain ⟨name, value⟩ := a
    rw [hvalue]
    rcases List.mem_pair.mp hmode with rfl | rfl <;> rfl
  · have hnone : a.mode? = none := mode?_eq_none_iff.mpr hmode
    rw [hnone, apply, Tag.effect]
    simp only [modeNames, List.mem_cons, List.not_mem_nil, or_false, not_or] at hmode
    rw [if_neg hmode.1, if_neg hmode.2]
    obtain ⟨name, value⟩ := a
    cases value with
    | none =>
      have hvalue : Tag.valueFor? ⟨name, none⟩ = fun _ => none := funext fun f => ite_self none
      rw [hvalue]
      rfl
    | some value =>
      cases hfield : Field.ofName? name with
      | some f =>
        obtain rfl : f.name = name := by simpa using List.find?_some hfield
        exact assign_eq_overwrite r f value
      | none =>
        have hvalue : Tag.valueFor? ⟨name, some value⟩ = fun _ => none := by
          refine funext fun f => if_neg fun hname => ?_
          obtain rfl : name = f.name := hname
          rw [Field.ofName?_name] at hfield
          cases hfield
        rw [hvalue]
        rfl

private theorem getLast?_filterMap_concat {α β : Type} (g : α → Option β) (xs : List α) (x : α) :
    ((xs ++ [x]).filterMap g).getLast? = (g x).or (xs.filterMap g).getLast? := by
  rw [List.filterMap_append]
  cases hx : g x with
  | none => rw [List.filterMap_cons_none hx, List.filterMap_nil, List.append_nil, Option.none_or]
  | some y => rw [List.filterMap_cons_some hx, List.filterMap_nil, List.getLast?_concat,
      Option.some_or]

/-- Annotations overwrite a record with the last mode and the last values among them. -/
theorem foldl_apply_eq_overwrite (r : Annotations) (items : List Tag) :
    items.foldl apply r = r.overwrite (lastMode? items) (lastValue? items) := by
  induction items using List.reverseRecOn with
  | nil => exact (overwrite_none r).symm
  | append_singleton items a ih =>
    have hvalue : lastValue? (items ++ [a]) =
        fun f => (a.valueFor? f).or (lastValue? items f) :=
      funext fun f => getLast?_filterMap_concat (fun b : Tag => b.valueFor? f) items a
    rw [List.foldl_append, List.foldl_cons, List.foldl_nil, ih, apply_eq_overwrite,
      overwrite_overwrite, hvalue, lastMode?, lastMode?, getLast?_filterMap_concat]

/-- Annotations with the same last mode and the same last values make the same record. -/
theorem foldl_apply_congr (hmode : xs.filterMap Tag.mode? = ys.filterMap Tag.mode?)
    (hvalue : ∀ f, xs.filterMap (·.valueFor? f) = ys.filterMap (·.valueFor? f)) :
    xs.foldl apply r = ys.foldl apply r := by
  have hlast : lastValue? xs = lastValue? ys :=
    funext fun f => congrArg List.getLast? (hvalue f)
  rw [foldl_apply_eq_overwrite, foldl_apply_eq_overwrite, hlast, lastMode?, hmode, lastMode?]

private theorem filterMap_leave_out {α β : Type} {g : α → Option β} {x : α} (h : g x = none)
    (xs ys : List α) : (xs ++ x :: ys).filterMap g = (xs ++ ys).filterMap g := by
  rw [List.filterMap_append, List.filterMap_cons_none h, List.filterMap_append]

private theorem filterMap_swap {α β : Type} {g : α → Option β} {x y : α}
    (h : g x = none ∨ g y = none) (xs ys : List α) :
    (xs ++ x :: y :: ys).filterMap g = (xs ++ y :: x :: ys).filterMap g := by
  have hpair : (x :: y :: ys).filterMap g = (y :: x :: ys).filterMap g := by
    rcases h with h | h <;> simp [List.filterMap_cons, h]
  rw [List.filterMap_append, hpair, List.filterMap_append]

/-- An annotation that neither gives a mode nor has a value for a field may be left out. -/
theorem foldl_apply_leave_out (hmode : a.name ∉ modeNames)
    (hvalue : a.value = none ∨ ∀ f : Field, f.name ≠ a.name) :
    (xs ++ a :: ys).foldl apply r = (xs ++ ys).foldl apply r := by
  have hnone (f : Field) : a.valueFor? f = none := by
    rcases hvalue with h | h
    · rw [Tag.valueFor?, h, ite_self]
    · exact if_neg (Ne.symm (h f))
  exact foldl_apply_congr (filterMap_leave_out (mode?_eq_none_iff.mpr hmode) xs ys) fun f =>
    filterMap_leave_out (g := (·.valueFor? f)) (hnone f) xs ys

/-- Neighbours that assign different fields may change places. -/
theorem foldl_apply_swap (hname : a.name ≠ b.name)
    (hmode : a.name ∉ modeNames ∨ b.name ∉ modeNames) :
    (xs ++ a :: b :: ys).foldl apply r = (xs ++ b :: a :: ys).foldl apply r := by
  have hnone (f : Field) : a.valueFor? f = none ∨ b.valueFor? f = none := by
    by_cases ha : a.name = f.name
    · exact .inr (if_neg fun hb => hname (ha.trans hb.symm))
    · exact .inl (if_neg ha)
  exact foldl_apply_congr
    (filterMap_swap (hmode.imp mode?_eq_none_iff.mpr mode?_eq_none_iff.mpr) xs ys) fun f =>
      filterMap_swap (g := (·.valueFor? f)) (hnone f) xs ys

/-- The path and the method both come from the last value for the path. -/
theorem path_method_of_lastValue? {value : String} (h : lastValue? items .path = some value) :
    (items.foldl apply r).path = nonempty? (splitPath value.toList).2 ∧
      (items.foldl apply r).method = (splitPath value.toList).1.map String.ofList := by
  rw [foldl_apply_eq_overwrite, overwrite, h]
  exact ⟨rfl, rfl⟩

/-- A blank path has neither a method nor a path. -/
theorem splitPath_of_blank {value : List Char} (h : ∀ c ∈ value, isBlank c = true) :
    splitPath value = (none, []) := by
  have htrim : trim value = [] := trim_eq_nil_iff.mpr h
  rw [splitPath, htrim]
  rfl

/-- Whatever record annotations are applied to, the last one with a mode decides the mode, and each
field holds what is read from the last value for it; what no annotation speaks of stays. So a path
without a method takes away a method given before, and a blank path takes away both. Leaving out an
annotation that has neither a mode nor a value for a field changes nothing, and neither does the
exchange of two neighbours that assign different fields. -/
theorem last_annotation_counts (r : Annotations) (items : List Tag) :
    items.foldl apply r = r.overwrite (lastMode? items) (lastValue? items) ∧
      (∀ value, lastValue? items .path = some value →
        ((splitPath value.toList).1 = none → (items.foldl apply r).method = none) ∧
        ((∀ c ∈ value.toList, isBlank c = true) →
          (items.foldl apply r).path = none ∧ (items.foldl apply r).method = none)) ∧
      (∀ xs a ys, items = xs ++ a :: ys → a.name ∉ modeNames →
        (a.value = none ∨ ∀ f : Field, f.name ≠ a.name) →
        items.foldl apply r = (xs ++ ys).foldl apply r) ∧
      ∀ xs a b ys, items = xs ++ a :: b :: ys → a.name ≠ b.name →
        (a.name ∉ modeNames ∨ b.name ∉ modeNames) →
        items.foldl apply r = (xs ++ b :: a :: ys).foldl apply r := by
  refine ⟨foldl_apply_eq_overwrite r items, fun value h => ?_, ?_, ?_⟩
  · obtain ⟨hpath, hmethod⟩ := path_method_of_lastValue? (r := r) h
    refine ⟨fun hnone => by rw [hmethod, hnone, Option.map_none], fun hblank => ?_⟩
    rw [hpath, hmethod, splitPath_of_blank hblank]
    exact ⟨rfl, rfl⟩
  · rintro xs a ys rfl hmode hvalue
    exact foldl_apply_leave_out hmode hvalue
  · rintro xs a b ys rfl hname hmode
    exact foldl_apply_swap hname hmode

/-- A path with a method, one without, and between them a mode, a missing value and a name without
a meaning. -/
def repeatedItems : List Tag :=
  [⟨"path", some "get /a"⟩, ⟨"async", none⟩, ⟨"timeout", none⟩, ⟨"note", some "x"⟩,
    ⟨"path", some " /b "⟩]

/-- The second path takes away the method, the missing value may be left out, and the first two
annotations may change places. -/
theorem last_annotation_counts_sample :
    repeatedItems.foldl apply { timeout := some "5s" } =
        { path := some "/b", isAsync := true, timeout := some "5s" } ∧
      (repeatedItems.foldl apply { timeout := some "5s" }).method = none ∧
      repeatedItems.foldl apply { timeout := some "5s" } =
        (repeatedItems.eraseIdx 2).foldl apply { timeout := some "5s" } ∧
      repeatedItems.foldl apply { timeout := some "5s" } =
        (repeatedItems[1] :: repeatedItems[0] :: repeatedItems.drop 2).foldl apply
          { timeout := some "5s" } := by
  obtain ⟨hlast, hpath, hout, hswap⟩ :=
    last_annotation_counts { timeout := some "5s" } repeatedItems
  refine ⟨hlast.trans (by decide +kernel), (hpath " /b " (by decide +kernel)).1 (by decide +kernel),
    hout (repeatedItems.take 2) _ _ rfl (by decide) (.inl rfl),
    hswap [] _ _ _ rfl (by decide) (.inl (by decide))⟩

end Annotations

end Lifeline
