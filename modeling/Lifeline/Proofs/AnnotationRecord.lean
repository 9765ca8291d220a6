import Lifeline.Lexeme
import Lifeline.Message
import Lifeline.Proofs.AnnotationValues

/-!
# Records and the annotations written for them

A record made from annotations is normal: what each field holds is what would be
read from the value that is written for it. So a normal record is made again from
its own annotations.
-/

namespace Lifeline

open Text

/-- The annotation that a lexeme is. -/
def Lexeme.tag? : Lexeme → Option Tag
  | tag name value => some ⟨String.ofList name, value.map fun v => String.ofList v.2.content⟩
  | _ => none

/-- The characters of a tag in the brackets that are chosen for it are what is written. -/
theorem Lexeme.text_tag_choose (name : String) (value : List Char) (preferred : Bracket) :
    (Lexeme.tag name.toList (some (preferred.choose value, ⟨value, true⟩))).text =
      writeTag name value preferred := by
  simp [text, valueText, Enclosed.text, writeTag, Bracket.enclose]

namespace Annotations

/-- Every field is read back from itself: the path with its method, the request type in upper case,
flows as entries of a list, payloads as reference or inline by their text. -/
structure Normal (r : Annotations) : Prop where
  path :
    match r.method, r.path with
    | none, none => True
    | some _, none => False
    | none, some path => path ≠ "" ∧ splitPath path.toList = (none, path.toList)
    | some method, some path =>
      path ≠ "" ∧
        splitPath (method.toList ++ ' ' :: path.toList) = (some method.toList, path.toList)
  requestType : ∀ t ∈ r.requestType, t ≠ "" ∧ upper (trim t.toList) = t.toList
  flows : ∀ f ∈ r.flows, f ≠ "" ∧ Trimmed f.toList ∧ ',' ∉ f.toList
  request : ∀ p ∈ r.request, Payload.ofText p.text = p
  response : ∀ p ∈ r.response, Payload.ofText p.text = p

/-- The lexeme that is written for a field, if any is. -/
def mark (r : Annotations) (f : Field) : List Lexeme :=
  ((r.valueText? f).map fun v =>
    .tag f.name.toList (some ((preferred f).choose v, ⟨v, true⟩))).toList

/-- The lexeme that is written for an asynchronous message. -/
def asyncMark (r : Annotations) : List Lexeme :=
  if r.isAsync then [.tag ['a', 's', 'y', 'n', 'c'] none] else []

/-- The lexemes that are written for a record, in order. -/
def marks (r : Annotations) : List Lexeme :=
  r.mark .path ++ r.mark .type ++ r.asyncMark ++ r.mark .timeout ++ r.mark .queue ++
    r.mark .flow ++ r.mark .request ++ r.mark .response

variable {r q : Annotations} {f g : Field} {v : List Char}

/-- What is written for a record are the characters of its lexemes. -/
theorem map_text_marks (r : Annotations) : r.marks.map Lexeme.text = r.parts := by
  have hfield (f : Field) : (r.mark f).map Lexeme.text = r.written f := by
    rw [mark, written]
    cases r.valueText? f with
    | none => rfl
    | some v => exact congrArg ([·]) (Lexeme.text_tag_choose f.name v (preferred f))
  have hasync : r.asyncMark.map Lexeme.text =
      if r.isAsync then [['@', 'a', 's', 'y', 'n', 'c']] else [] := by
    rw [asyncMark]
    split <;> rfl
  simp only [marks, List.map_append, hfield, hasync, parts]

theorem nonempty?_toList {s : String} (h : s ≠ "") : nonempty? s.toList = some s := by
  rw [nonempty?, if_neg (by simpa [List.isEmpty_iff, String.toList_eq_nil_iff] using h),
    String.ofList_toList]

/-- A text that is kept is not empty. -/
theorem nonempty?_eq_some {s : List Char} {t : String} (h : t ∈ nonempty? s) :
    t ≠ "" ∧ t.toList = s := by
  rw [nonempty?] at h
  split at h
  · cases h
  · next hs =>
    cases h
    rw [String.toList_ofList]
    refine ⟨fun ht => hs ?_, rfl⟩
    rw [← String.toList_ofList (l := s), ht]
    rfl

theorem normal_empty : Normal {} :=
  ⟨trivial, nofun, nofun, nofun, nofun⟩

/-- Assigning a field keeps a record normal, whatever the value is. -/
theorem Normal.assign (h : r.Normal) (f : Field) (value : String) : (r.assign f value).Normal := by
  cases f with
  | timeout => exact ⟨h.path, h.requestType, h.flows, h.request, h.response⟩
  | queue => exact ⟨h.path, h.requestType, h.flows, h.request, h.response⟩
  | request =>
    refine ⟨h.path, h.requestType, h.flows, fun p hp => ?_, h.response⟩
    cases hp
    rw [Payload.text_ofText]
  | response =>
    refine ⟨h.path, h.requestType, h.flows, h.request, fun p hp => ?_⟩
    cases hp
    rw [Payload.text_ofText]
  | type =>
    refine ⟨h.path, fun t ht => ?_, h.flows, h.request, h.response⟩
    obtain ⟨hne, ht⟩ := nonempty?_eq_some ht
    exact ⟨hne, by rw [ht, (trimmed_trim value.toList).upper.trim_eq, upper_upper]⟩
  | flow =>
    refine ⟨h.path, h.requestType, fun f hf => ?_, h.request, h.response⟩
    obtain ⟨entry, he, rfl⟩ := List.mem_map.mp hf
    obtain ⟨hne, ht⟩ := mem_splitFlows he
    rw [String.toList_ofList]
    refine ⟨fun hs => hne ?_, ht⟩
    rw [← String.toList_ofList (l := entry), hs]
    rfl
  | path =>
    refine ⟨?_, h.requestType, h.flows, h.request, h.response⟩
    simp only [Annotations.assign]
    rcases splitPath_cases value.toList with ⟨hs, ht⟩ | ⟨method, path, hs, -, hne, ht, -⟩
    · rw [hs, Option.map_none]
      cases hp : nonempty? (trim value.toList) with
      | none => trivial
      | some path =>
        obtain ⟨hne, hpath⟩ := nonempty?_eq_some hp
        exact ⟨hne, by rw [hpath, ht]⟩
    · have hp : nonempty? path = some (String.ofList path) := by
        rw [nonempty?, if_neg (by simpa [List.isEmpty_iff] using hne)]
      rw [hs, Option.map_some]
      simp only [hp, String.toList_ofList]
      exact ⟨(nonempty?_eq_some hp).1, ht⟩

/-- One more annotation keeps a record normal. -/
theorem Normal.apply (h : r.Normal) (a : Tag) : (r.apply a).Normal := by
  rw [Annotations.apply]
  split
  · exact ⟨h.path, h.requestType, h.flows, h.request, h.response⟩
  · exact h.assign _ _
  · exact h
  · exact h

/-- Further annotations keep a record normal. -/
theorem Normal.foldl (h : r.Normal) (items : List Tag) :
    (items.foldl Annotations.apply r).Normal := by
  induction items generalizing r with
  | nil => exact h
  | cons a items ih => exact ih (h.apply a)

/-- Every record made from annotations is normal. -/
theorem normal_ofList (items : List Tag) : (ofList items).Normal := normal_empty.foldl items

/-- The record with a field taken from another one. -/
def copy (r : Annotations) (f : Field) (q : Annotations) : Annotations :=
  match f with
  | .path => { q with path := r.path, method := r.method }
  | .type => { q with requestType := r.requestType }
  | .timeout => { q with timeout := r.timeout }
  | .queue => { q with queue := r.queue }
  | .flow => { q with flows := r.flows }
  | .request => { q with request := r.request }
  | .response => { q with response := r.response }

/-- What is written for the other fields stays as it is. -/
theorem valueText?_assign_of_ne (h : g ≠ f) (value : String) :
    (r.assign f value).valueText? g = r.valueText? g := by
  cases f <;> cases g <;> first | exact absurd rfl h | rfl

/-- A field for which nothing is written is empty. -/
theorem Normal.copy_of_none (h : r.Normal) (hv : r.valueText? f = none) :
    r.copy f q = ({} : Annotations).copy f q := by
  cases f with
  | path =>
    have hp := h.path
    obtain ⟨path, method⟩ := r
    cases path with
    | none =>
      cases method with
      | none => rfl
      | some method => exact hp.elim
    | some path =>
      have hne : path ≠ "" := by
        cases method with
        | none => exact hp.1
        | some method => exact hp.1
      simp [valueText?, present?, hne] at hv
  | type =>
    obtain ⟨_, _, requestType⟩ := r
    cases requestType with
    | none => rfl
    | some t => simp [valueText?, present?, (h.requestType t rfl).1] at hv
  | flow =>
    obtain ⟨_, _, _, _, _, _, flows⟩ := r
    cases flows with
    | nil => rfl
    | cons f flows => simp [valueText?] at hv
  | timeout => simp_all [valueText?, copy]
  | queue => simp_all [valueText?, copy]
  | request => simp_all [valueText?, copy]
  | response => simp_all [valueText?, copy]

private theorem Normal.assign_path_of_some (h : r.Normal) (hv : r.valueText? .path = some v) :
    q.assign .path (String.ofList v) = r.copy .path q := by
  have hp := h.path
  obtain ⟨path, method⟩ := r
  cases path with
  | none => simp [valueText?, present?] at hv
  | some path =>
    cases method with
    | none =>
      obtain ⟨hne, hp⟩ := hp
      have hv : path.toList = v := by simpa [valueText?, present?, hne, pathText] using hv
      simp only [Annotations.assign, String.toList_ofList, ← hv, hp, Option.map_none,
        nonempty?_toList hne, copy]
    | some method =>
      obtain ⟨hne, hp⟩ := hp
      have hm : method ≠ "" := by
        rintro rfl
        exact (splitPath_some hp).1 rfl
      have hv : method.toList ++ ' ' :: path.toList = v := by
        simpa [valueText?, present?, hne, pathText, hm] using hv
      simp only [Annotations.assign, String.toList_ofList, ← hv, hp, Option.map_some,
        nonempty?_toList hne, copy, String.ofList_toList]

private theorem Normal.assign_flow_of_some (h : r.Normal) (hv : r.valueText? .flow = some v) :
    q.assign .flow (String.ofList v) = r.copy .flow q := by
  have hflows := h.flows
  obtain ⟨_, _, _, _, _, _, flows⟩ := r
  cases flows with
  | nil => simp [valueText?] at hv
  | cons f flows =>
    have hv : joinWith [',', ' '] ((f :: flows).map String.toList) = v := by
      simpa [valueText?] using hv
    have hsplit : splitFlows v = (f :: flows).map String.toList := by
      rw [← hv]
      refine splitFlows_joinWith (fun entry he => ?_) (List.cons_ne_nil _ _)
      obtain ⟨g, hg, rfl⟩ := List.mem_map.mp he
      obtain ⟨hne, ht⟩ := hflows g hg
      exact ⟨by simpa [String.toList_eq_nil_iff] using hne, ht⟩
    simp only [Annotations.assign, String.toList_ofList, hsplit, List.map_map, copy]
    congr 1
    have hid : String.ofList ∘ String.toList = id := funext fun s => String.ofList_toList
    rw [hid, List.map_id]

/-- What is written for a field is read as what the field holds. -/
theorem Normal.assign_of_some (h : r.Normal) (hv : r.valueText? f = some v) :
    q.assign f (String.ofList v) = r.copy f q := by
  cases f with
  | path => exact h.assign_path_of_some hv
  | flow => exact h.assign_flow_of_some hv
  | type =>
    obtain ⟨_, _, requestType⟩ := r
    cases requestType with
    | none => simp [valueText?, present?] at hv
    | some t =>
      obtain ⟨hne, ht⟩ := h.requestType t rfl
      have hv : t.toList = v := by simpa [valueText?, present?, hne] using hv
      simp only [Annotations.assign, String.toList_ofList, ← hv, ht, nonempty?_toList hne, copy]
  | timeout =>
    obtain ⟨t, ht, rfl⟩ := Option.map_eq_some_iff.mp hv
    simp only [Annotations.assign, copy, ht, String.ofList_toList]
  | queue =>
    obtain ⟨t, ht, rfl⟩ := Option.map_eq_some_iff.mp hv
    simp only [Annotations.assign, copy, ht, String.ofList_toList]
  | request =>
    obtain ⟨p, hp, rfl⟩ := Option.map_eq_some_iff.mp hv
    simp only [Annotations.assign, copy, hp, String.ofList_toList, h.request p hp]
  | response =>
    obtain ⟨p, hp, rfl⟩ := Option.map_eq_some_iff.mp hv
    simp only [Annotations.assign, copy, hp, String.ofList_toList, h.response p hp]

theorem effect_name (f : Field) (value : String) :
    Tag.effect ⟨f.name, some value⟩ = .assign f value := by
  cases f <;> rfl

/-- The annotations that are written for a record. -/
def items (r : Annotations) : List Tag := r.marks.filterMap Lexeme.tag?

/-- What is written for a field copies it to a record that does not have it yet. -/
theorem Normal.foldl_mark (h : r.Normal) (hq : ({} : Annotations).copy f q = q) :
    ((r.mark f).filterMap Lexeme.tag?).foldl Annotations.apply q = r.copy f q := by
  rw [mark]
  cases hv : r.valueText? f with
  | none => rw [h.copy_of_none hv, hq]; rfl
  | some v =>
    have ha : q.apply ⟨f.name, some (String.ofList v)⟩ = q.assign f (String.ofList v) := by
      rw [Annotations.apply, effect_name]
    have ht : (Lexeme.tag f.name.toList (some ((preferred f).choose v, ⟨v, true⟩))).tag? =
        some ⟨f.name, some (String.ofList v)⟩ := by
      rw [Lexeme.tag?, String.ofList_toList]
      rfl
    rw [Option.map_some, Option.toList_some, List.filterMap_cons_some ht, List.filterMap_nil,
      List.foldl_cons, ha, h.assign_of_some hv, List.foldl_nil]

private theorem foldl_asyncMark (hq : q.isAsync = false) :
    (r.asyncMark.filterMap Lexeme.tag?).foldl apply q = { q with isAsync := r.isAsync } := by
  rw [asyncMark]
  split
  · next hr =>
    rw [hr]
    rfl
  · next hr =>
    have he : r.isAsync = q.isAsync := by rw [hq, Bool.eq_false_iff.mpr hr]
    rw [he]
    rfl

/-- A normal record is made again from the annotations that are written for it. -/
theorem Normal.ofList_items (h : r.Normal) : ofList r.items = r := by
  simp only [ofList, items, marks, List.filterMap_append, List.foldl_append]
  rw [h.foldl_mark (f := .path), h.foldl_mark (f := .type), foldl_asyncMark,
    h.foldl_mark (f := .timeout), h.foldl_mark (f := .queue), h.foldl_mark (f := .flow),
    h.foldl_mark (f := .request), h.foldl_mark (f := .response)]
  all_goals simp only [copy]

end Annotations

end Lifeline
