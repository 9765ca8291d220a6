/-!
# Entries known by an id

A list of entries in which the first entry of an id is the one that counts:
an entry is added behind all others unless its id is known already. So ids stay
distinct, and what is in the list is never moved or replaced.
-/

namespace Lifeline.Registry

variable {α : Type}

/-- Some entry has the id. -/
def knows (idOf : α → String) (entries : List α) (id : String) : Bool :=
  entries.any (idOf · == id)

/-- Adds an entry unless its id is known. -/
def add (idOf : α → String) (entries : List α) (x : α) : List α :=
  if knows idOf entries (idOf x) then entries else entries ++ [x]

/-- Adds entries one after the other. -/
def addAll (idOf : α → String) (entries xs : List α) : List α := xs.foldl (add idOf) entries

/-- After an entry is added, its id and the ids before are known, and no others. -/
theorem knows_add (idOf : α → String) (entries : List α) (x : α) (id : String) :
    knows idOf (add idOf entries x) id = (knows idOf entries id || idOf x == id) := by
  rw [add]
  split
  · next h =>
    by_cases hx : idOf x = id
    · rw [← hx, h, Bool.true_or]
    · simp [hx]
  · simp [knows]

theorem addAll_append (idOf : α → String) (entries xs ys : List α) :
    addAll idOf entries (xs ++ ys) = addAll idOf (addAll idOf entries xs) ys :=
  List.foldl_append

end Lifeline.Registry
