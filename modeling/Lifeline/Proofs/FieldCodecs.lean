import Lifeline.Proofs.AnnotationRecord

/-!
# Fields that are read again

One annotation makes a record, and at most one annotation is written for that record.
Reading loses something the first time, such as blanks and the case of letters, but what
is then written is read as the same record, and a record for which nothing is written
holds nothing.
-/

namespace Lifeline

open Text

/-- A path as it is written, behind its method if it has one. -/
def joinPath : Option (List Char) × List Char → List Char
  | (some method, path) => method ++ ' ' :: path
  | (none, path) => path

/-- What a path is split into is joined to a path that is split the same way. -/
theorem splitPath_joinPath (value : List Char) :
    splitPath (joinPath (splitPath value)) = splitPath value := by
  rcases splitPath_cases value with ⟨hs, hagain⟩ | ⟨method, path, hs, -, -, hagain, -⟩
  · rw [hs]
    exact hagain
  · rw [hs]
    exact hagain

/-- An I with a dot stays what it is in upper case, and the method is read with it again. -/
example : splitPath (joinPath (splitPath "optİonſ  /a".toList)) =
    (some "OPTİONS".toList, "/a".toList) := by decide +kernel

private theorem upper_trim_upper (value : List Char) :
    upper (trim (upper (trim value))) = upper (trim value) := by
  rw [(trimmed_trim value).upper.trim_eq, upper_upper]

private theorem splitFlows_joinWith_splitFlows (value : List Char) :
    splitFlows (joinWith [',', ' '] (splitFlows value)) = splitFlows value := by
  by_cases hne : splitFlows value = []
  · rw [hne]
    rfl
  · exact splitFlows_joinWith (fun _ hentry => mem_splitFlows hentry) hne

namespace Annotations

variable {f : Field}

private theorem ofList_singleton (f : Field) (value : String) :
    ofList [⟨f.name, some value⟩] = ({} : Annotations).assign f value := by
  rw [ofList, List.foldl_cons, List.foldl_nil, apply, effect_name]

private theorem copy_assign (q : Annotations) (f : Field) (value : String) :
    (({} : Annotations).assign f value).copy f q = q.assign f value := by
  cases f <;> rfl

private theorem valueText?_empty (f : Field) : ({} : Annotations).valueText? f = none := by
  cases f <;> rfl

/-- The annotation of one field is all that is written for the record that it makes. -/
theorem parts_assign (f : Field) (value : String) :
    (({} : Annotations).assign f value).parts = (({} : Annotations).assign f value).written f := by
  have hother (g : Field) (hg : g ≠ f) : (({} : Annotations).assign f value).written g = [] := by
    rw [written, valueText?_assign_of_ne hg, valueText?_empty]
    rfl
  have hasync : (({} : Annotations).assign f value).isAsync = false := by cases f <;> rfl
  cases f <;> simp [parts, hasync, hother]

/-- What is written for a field is read as the same record; where nothing is written, the record is
empty. -/
theorem assign_valueText? (f : Field) (value : String) :
    match (({} : Annotations).assign f value).valueText? f with
    | some v => ({} : Annotations).assign f (String.ofList v) = ({} : Annotations).assign f value
    | none => ({} : Annotations).assign f value = {} := by
  have hnormal := normal_empty.assign f value
  split
  · next v hv => rw [hnormal.assign_of_some hv, copy_assign]
  · next hv =>
    have hcopy := hnormal.copy_of_none (q := {}) hv
    rw [copy_assign] at hcopy
    rw [hcopy]
    cases f <;> rfl

end Annotations

/-- Every field holds what would be read from what is written for it: of the record that one
annotation makes nothing but this annotation is written, and it makes the record again; if nothing
is written, the record is empty. So a path that is joined with its method, a request type and a
list of flows are read as they were before. -/
theorem fields_read_again (f : Annotations.Field) (value : String) :
    let r := Annotations.ofList [⟨f.name, some value⟩]
    (match r.valueText? f with
      | some v =>
        r.parts = [writeTag f.name v (Annotations.preferred f)] ∧
          Annotations.ofList [⟨f.name, some (String.ofList v)⟩] = r
      | none => r.parts = [] ∧ r = {}) ∧
    splitPath (joinPath (splitPath value.toList)) = splitPath value.toList ∧
    upper (trim (upper (trim value.toList))) = upper (trim value.toList) ∧
    splitFlows (joinWith [',', ' '] (splitFlows value.toList)) = splitFlows value.toList := by
  refine ⟨?_, splitPath_joinPath _, upper_trim_upper _, splitFlows_joinWith_splitFlows _⟩
  have hparts := Annotations.parts_assign f value
  have hagain := Annotations.assign_valueText? f value
  simp only [Annotations.ofList_singleton]
  rw [Annotations.written] at hparts
  split at hagain
  · next v hv =>
    rw [hv] at hparts
    exact ⟨hparts, hagain⟩
  · next hv =>
    rw [hv] at hparts
    exact ⟨hparts, hagain⟩

end Lifeline
