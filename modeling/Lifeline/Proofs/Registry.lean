import Lifeline.Registry

/-!
# Registries of lists

Entries that are added behind those of a registry are the entries of a registry of
their own, without those whose ids are known already. So two lists of
declarations can be registered apart and joined afterwards. Of each id the first
entry is kept, and all ids are distinct.
-/

namespace Lifeline.Registry

variable {α : Type} {idOf : α → String}

private theorem knows_append (entries xs : List α) (id : String) :
    knows idOf (entries ++ xs) id = (knows idOf entries id || knows idOf xs id) :=
  List.any_append

private theorem knows_filter {entries : List α} {p : String → Bool} {id : String}
    (hp : p id = true) :
    knows idOf (entries.filter fun x => p (idOf x)) id = knows idOf entries id := by
  rw [knows, knows, List.any_filter]
  congr 1
  funext x
  by_cases hx : idOf x = id
  · simp [hx, hp]
  · simp [hx]

/-- One entry is added behind the entries of a registry as it is added to a registry of its own,
if its id is new. -/
theorem add_append_filter (entries xs : List α) (x : α) :
    add idOf (entries ++ xs.filter fun y => !knows idOf entries (idOf y)) x =
      entries ++ (add idOf xs x).filter fun y => !knows idOf entries (idOf y) := by
  by_cases hx : knows idOf entries (idOf x) = true
  · have hleft : add idOf (entries ++ xs.filter fun y => !knows idOf entries (idOf y)) x =
        entries ++ xs.filter fun y => !knows idOf entries (idOf y) := by
      rw [add, knows_append, hx, Bool.true_or, if_pos rfl]
    rw [hleft, add]
    split
    · rfl
    · simp [hx]
  · have hnew : (!knows idOf entries (idOf x)) = true := by simpa using hx
    have hknows : knows idOf (entries ++ xs.filter fun y => !knows idOf entries (idOf y)) (idOf x) =
        knows idOf xs (idOf x) := by
      rw [knows_append, knows_filter (p := fun id => !knows idOf entries id) hnew]
      simp [hx]
    rw [add, hknows, add]
    split
    · rfl
    · simp [hx]

/-- What a registry gains are the entries of a registry of their own whose ids are new. -/
theorem addAll_eq_append_filter (entries xs : List α) :
    addAll idOf entries xs =
      entries ++ (addAll idOf [] xs).filter fun x => !knows idOf entries (idOf x) := by
  have hfold (acc : List α) :
      addAll idOf (entries ++ acc.filter fun x => !knows idOf entries (idOf x)) xs =
        entries ++ (addAll idOf acc xs).filter fun x => !knows idOf entries (idOf x) := by
    induction xs generalizing acc with
    | nil => rfl
    | cons x xs ih =>
      rw [addAll, List.foldl_cons, add_append_filter]
      exact ih (add idOf acc x)
  simpa using hfold []

/-- A registry gains the entries whose ids are new, and of each id the first one. -/
theorem addAll_eq_append_eraseDupsBy (entries xs : List α) :
    addAll idOf entries xs =
      entries ++ (xs.filter fun x => !knows idOf entries (idOf x)).eraseDupsBy
        fun x y => idOf x == idOf y := by
  induction xs generalizing entries with
  | nil => simp [addAll, List.eraseDupsBy_nil]
  | cons x xs ih =>
    have hstep : addAll idOf entries (x :: xs) = addAll idOf (add idOf entries x) xs := rfl
    rw [hstep, ih, add]
    by_cases hx : knows idOf entries (idOf x) = true
    · simp [hx]
    · -- Behind `x` an entry is new if it was new before and has another id than `x`.
      have hfilter : (xs.filter fun y => !knows idOf (entries ++ [x]) (idOf y)) =
          (xs.filter fun y => !knows idOf entries (idOf y)).filter fun y =>
            (idOf y == idOf x) = false := by
        rw [List.filter_filter]
        congr 1
        funext y
        by_cases hy : idOf y = idOf x
        · simp [knows, hy]
        · simp [knows, hy, Ne.symm hy]
      rw [if_neg hx, List.filter_cons_of_pos (by simpa using hx), List.eraseDupsBy_cons, hfilter,
        List.append_assoc, List.singleton_append]

/-- A registry of its own has of each id the first entry. -/
theorem addAll_nil (xs : List α) :
    addAll idOf [] xs = xs.eraseDupsBy fun x y => idOf x == idOf y := by
  have hnew : (xs.filter fun x => !knows idOf [] (idOf x)) = xs :=
    List.filter_eq_self.mpr (by simp [knows])
  rw [addAll_eq_append_eraseDupsBy, hnew, List.nil_append]

/-- Ids stay distinct when an entry is added. -/
theorem nodup_add {entries : List α} (h : (entries.map idOf).Nodup) (x : α) :
    ((add idOf entries x).map idOf).Nodup := by
  rw [add]
  split
  · exact h
  · next hx =>
    rw [List.map_append, List.map_singleton, List.nodup_append]
    refine ⟨h, List.pairwise_singleton _ _, ?_⟩
    rintro _ hid _ hmem rfl
    obtain ⟨y, hy, he⟩ := List.mem_map.mp hid
    exact hx (List.any_eq_true.mpr ⟨y, hy, by simp [he, List.mem_singleton.mp hmem]⟩)

/-- Ids stay distinct when entries are added. -/
theorem nodup_addAll {entries : List α} (h : (entries.map idOf).Nodup) (xs : List α) :
    ((addAll idOf entries xs).map idOf).Nodup := by
  induction xs generalizing entries with
  | nil => exact h
  | cons x xs ih => exact ih (nodup_add h x)

theorem nodup_addAll_nil (xs : List α) : ((addAll idOf [] xs).map idOf).Nodup :=
  @nodup_addAll _ _ [] List.nodup_nil xs

/-- After entries are added, their ids and the ids before are known, and no others. -/
theorem knows_addAll (entries xs : List α) (id : String) :
    knows idOf (addAll idOf entries xs) id = (knows idOf entries id || knows idOf xs id) := by
  induction xs generalizing entries with
  | nil => simp [addAll, knows]
  | cons x xs ih =>
    have hstep : addAll idOf entries (x :: xs) = addAll idOf (add idOf entries x) xs := rfl
    rw [hstep, ih, knows_add, Bool.or_assoc]
    rfl

end Lifeline.Registry
