import Lifeline.Annotations
import Lifeline.Proofs.BracketBalance
import Lifeline.Proofs.Text.Lines
import Lifeline.Proofs.Text.UpperCase

/-!
# Values that are read again

What a path or a list of flows is read as can be written down and is read as the
same again. Reading may drop blanks, commas and the case of letters, but never a
bracket.
-/

namespace Lifeline

open Text

/-- The letters that count as letters of a method. -/
def methodSpellings : List Char :=
  (List.range' 97 26).map Char.ofNat ++ methods.flatten ++ ['ſ', 'ı', 'İ']

private theorem mem_methodSpellings {c : Char} (h : methodLetter c ∈ methods.flatten) :
    c ∈ methodSpellings := by
  rw [methodSpellings, List.append_assoc, List.mem_append, List.mem_append]
  rw [methodLetter] at h
  split at h
  · next hc => exact .inr (.inr (by simp [hc]))
  split at h
  · next hc => exact .inr (.inr (by rcases hc with rfl | rfl <;> simp))
  · by_cases hc : 'a'.val ≤ c.val ∧ c.val ≤ 'z'.val
    · have h1 : 97 ≤ c.toNat := UInt32.le_iff_toNat_le.mp hc.1
      have h2 : c.toNat ≤ 122 := UInt32.le_iff_toNat_le.mp hc.2
      refine .inl (List.mem_map.mpr ⟨c.toNat, List.mem_range'_1.mpr (by omega), ?_⟩)
      exact Char.ofNat_toNat c
    · have hsame : c.toUpper = c := dif_neg hc
      rw [hsame] at h
      exact .inr (.inl h)

/-- The letters of a method stay such letters in upper case, and none is a blank or a bracket. -/
theorem methodSpellings_spec : ∀ c ∈ methodSpellings,
    (upperChar c).map methodLetter = [methodLetter c] ∧ isBlank c = false ∧
      isBracket c = false := by
  have hall : methodSpellings.all (fun c => (upperChar c).map methodLetter == [methodLetter c] &&
      !isBlank c && !isBracket c) = true := by decide +kernel
  intro c hc
  simpa [and_assoc] using List.all_eq_true.mp hall c hc

private theorem methods_prefix_free : ∀ m ∈ methods, ∀ n ∈ methods, m <+: n → m = n := by decide

private theorem methods_ne_nil : ∀ m ∈ methods, m ≠ [] := by decide

/-- A text starts with a method if its letters count as those of one. -/
theorem splitMethod_eq_some_iff {s t rest : List Char} :
    splitMethod s = some (t, rest) ↔ s = t ++ rest ∧ t.map methodLetter ∈ methods := by
  constructor
  · intro h
    obtain ⟨m, hm, he⟩ := List.exists_of_findSome?_eq_some h
    split at he
    · next hp =>
      cases he
      refine ⟨(List.take_append_drop _ _).symm, ?_⟩
      rw [List.map_take, ← List.prefix_iff_eq_take.mp (List.isPrefixOf_iff_prefix.mp hp)]
      exact hm
    · cases he
  · rintro ⟨rfl, hm⟩
    have hpre : t.map methodLetter <+: (t ++ rest).map methodLetter := by
      rw [List.map_append]
      exact List.prefix_append _ _
    cases hf : splitMethod (t ++ rest) with
    | none =>
      rw [splitMethod, List.findSome?_eq_none_iff] at hf
      have hn := hf _ hm
      rw [if_pos (List.isPrefixOf_iff_prefix.mpr hpre)] at hn
      cases hn
    | some p =>
      obtain ⟨n, hn, he⟩ := List.exists_of_findSome?_eq_some hf
      split at he
      · next hp =>
        have hq := List.isPrefixOf_iff_prefix.mp hp
        have heq : n = t.map methodLetter := by
          rcases List.prefix_or_prefix_of_prefix hq hpre with h | h
          · exact methods_prefix_free n hn _ hm h
          · exact (methods_prefix_free _ hm n hn h).symm
        rw [← Option.some.inj he, heq, List.length_map, List.take_left, List.drop_left]
      · cases he

private theorem mem_methodSpellings_of_mem {t : List Char} (h : t.map methodLetter ∈ methods)
    {c : Char} (hc : c ∈ t) : c ∈ methodSpellings :=
  mem_methodSpellings (List.mem_flatten.mpr ⟨_, h, List.mem_map_of_mem hc⟩)

private theorem map_methodLetter_upper {t : List Char} (h : ∀ c ∈ t, c ∈ methodSpellings) :
    (upper t).map methodLetter = t.map methodLetter := by
  induction t with
  | nil => rfl
  | cons c t ih =>
    have hc : upper (c :: t) = upperChar c ++ upper t := rfl
    rw [hc, List.map_append, (methodSpellings_spec c (h c List.mem_cons_self)).1,
      ih fun d hd => h d (List.mem_cons_of_mem c hd)]
    rfl

/-- No blank is a bracket. -/
theorem isBracket_of_isBlank {c : Char} (h : isBlank c = true) : isBracket c = false := by
  rw [Bool.eq_false_iff]
  intro hb
  simp only [isBracket, Bool.or_eq_true, beq_iff_eq] at hb
  rcases hb with ((rfl | rfl) | rfl) | rfl <;> cases h

@[simp] theorem brackets_trim (s : List Char) : brackets (trim s) = brackets s :=
  filter_trim (fun _ => isBracket_of_isBlank) s

@[simp] theorem brackets_upper (s : List Char) : brackets (upper s) = brackets s := by
  refine filter_upper (fun c hc => ?_) s
  simp only [isBracket, Bool.or_eq_true, beq_iff_eq] at hc
  rcases hc with ((rfl | rfl) | rfl) | rfl <;> decide

/-- A method in upper case is the same method; it has no blanks, and neither form has brackets. -/
theorem upper_method {t : List Char} (h : t.map methodLetter ∈ methods) :
    (upper t).map methodLetter ∈ methods ∧ upper t ≠ [] ∧ Trimmed (upper t) ∧ brackets t = [] := by
  have hspell : ∀ c ∈ t, c ∈ methodSpellings := fun c hc => mem_methodSpellings_of_mem h hc
  have hmap := map_methodLetter_upper hspell
  refine ⟨by rwa [hmap], ?_, Trimmed.of_forall fun d hd => ?_,
    brackets_eq_nil fun c hc => (methodSpellings_spec c (hspell c hc)).2.2⟩
  · intro hu
    rw [hu, List.map_nil] at hmap
    exact methods_ne_nil _ h hmap.symm
  · obtain ⟨c, hc, hd⟩ := List.mem_flatMap.mp hd
    exact isBlank_of_mem_upperChar (methodSpellings_spec c (hspell c hc)).2.1 hd

private theorem trim_ne_nil_of_trimmed {t rest : List Char} {c : Char}
    (h : Trimmed (t ++ c :: rest)) (hc : isBlank c = true) : trim rest ≠ [] := by
  intro hr
  have hlast := h.stop
  rw [List.getLast?_append, List.getLast?_eq_some_getLast (List.cons_ne_nil c rest)] at hlast
  have hb := hlast _ rfl
  rcases List.mem_cons.mp (List.getLast_mem (List.cons_ne_nil c rest)) with he | he
  · rw [he, hc] at hb
    cases hb
  · rw [trim_eq_nil_iff.mp hr _ he] at hb
    cases hb

/-- A path without a method in front of it is read as it stands. -/
theorem splitPath_of_none {value : List Char}
    (h : ∀ t c rest, splitMethod (trim value) = some (t, c :: rest) → isBlank c = false) :
    splitPath value = (none, trim value) := by
  rw [splitPath]
  split
  · next t c rest hm => rw [if_neg (by simp [h t c rest hm])]
  · rfl

/-- A path is read as it stands, or behind a method; either way, what is read is read again, and it
has the brackets of what was written. -/
theorem splitPath_cases (value : List Char) :
    (splitPath value = (none, trim value) ∧ splitPath (trim value) = (none, trim value)) ∨
      ∃ method path, splitPath value = (some method, path) ∧ method ≠ [] ∧ path ≠ [] ∧
        splitPath (method ++ ' ' :: path) = (some method, path) ∧
        brackets (method ++ ' ' :: path) = brackets value := by
  by_cases hm : ∀ t c rest, splitMethod (trim value) = some (t, c :: rest) → isBlank c = false
  · refine .inl ⟨splitPath_of_none hm, ?_⟩
    rw [splitPath_of_none (by rwa [trim_trim]), trim_trim]
  · push Not at hm
    obtain ⟨t, c, rest, hm, hc⟩ := hm
    have hblank : isBlank c = true := by simpa using hc
    obtain ⟨hs, ht⟩ := splitMethod_eq_some_iff.mp hm
    obtain ⟨hmethod, hne, htrim, hbrackets⟩ := upper_method ht
    have hpath : trim rest ≠ [] := trim_ne_nil_of_trimmed (hs ▸ trimmed_trim value) hblank
    have hwhole : trim (upper t ++ ' ' :: trim rest) = upper t ++ ' ' :: trim rest := by
      have h := (htrim.append (trimmed_trim rest) hne hpath [' ']).trim_eq
      rwa [List.append_assoc] at h
    have hagain : splitMethod (upper t ++ ' ' :: trim rest) = some (upper t, ' ' :: trim rest) :=
      splitMethod_eq_some_iff.mpr ⟨rfl, hmethod⟩
    refine .inr ⟨upper t, trim rest, ?_, hne, hpath, ?_, ?_⟩
    · rw [splitPath]
      simp only [hm, hblank, if_true]
    · rw [splitPath]
      simp only [hwhole, hagain, upper_upper, trim_trim]
      rfl
    · rw [← brackets_trim value, hs, brackets_append, brackets_append, brackets_upper, hbrackets,
        brackets_cons_of_false rfl, brackets_cons_of_false (isBracket_of_isBlank hblank),
        brackets_trim]

/-- What is read behind a method is not empty, and neither is the method. -/
theorem splitPath_some {value method path : List Char}
    (h : splitPath value = (some method, path)) : method ≠ [] ∧ path ≠ [] := by
  rcases splitPath_cases value with ⟨hs, -⟩ | ⟨m, p, hs, hm, hp, -⟩
  · rw [hs] at h
    cases h
  · rw [hs] at h
    cases h
    exact ⟨hm, hp⟩

private theorem mem_of_mem_trim {s : List Char} {c : Char} (h : c ∈ trim s) : c ∈ s := by
  rw [trim, trimEnd, List.mem_reverse] at h
  exact (List.dropWhile_sublist _).subset
    (List.mem_reverse.mp ((List.dropWhile_sublist _).subset h))

/-- The entries of a list are not empty, have no blanks around them and no comma in them. -/
theorem mem_splitFlows {value entry : List Char} (h : entry ∈ splitFlows value) :
    entry ≠ [] ∧ Trimmed entry ∧ ',' ∉ entry := by
  obtain ⟨hm, he⟩ := List.mem_filter.mp h
  obtain ⟨part, hp, rfl⟩ := List.mem_map.mp hm
  exact ⟨by simpa [List.isEmpty_iff] using he, trimmed_trim part,
    fun hc => not_mem_of_mem_divide hp (mem_of_mem_trim hc)⟩

/-- A mark without brackets that stands between texts adds none. -/
theorem brackets_joinWith (sep : List Char) (hsep : brackets sep = []) (parts : List (List Char)) :
    brackets (joinWith sep parts) = parts.flatMap brackets := by
  induction parts with
  | nil => rfl
  | cons part parts ih =>
    by_cases hp : parts = []
    · subst hp
      rw [List.flatMap_singleton]
      rfl
    · rw [joinWith_cons part hp, brackets_append, brackets_append, hsep, ih, List.append_nil,
        List.flatMap_cons]

/-- The entries of a list have the brackets of the list. -/
theorem brackets_splitFlows (value : List Char) :
    (splitFlows value).flatMap brackets = brackets value := by
  have hfilter (parts : List (List Char)) :
      (parts.filter (!·.isEmpty)).flatMap brackets = parts.flatMap brackets := by
    induction parts with
    | nil => rfl
    | cons part parts ih =>
      cases part with
      | nil => rw [List.filter_cons_of_neg (by simp), ih]; rfl
      | cons c part => rw [List.filter_cons_of_pos (by simp), List.flatMap_cons, ih]; rfl
  rw [splitFlows, hfilter, List.flatMap_map]
  simp only [brackets_trim]
  rw [← brackets_joinWith [','] rfl, joinWith_divide]

/-- Such entries are found again, however many spaces stand behind the commas. -/
theorem splitFlows_joinWith {entries : List (List Char)}
    (h : ∀ entry ∈ entries, entry ≠ [] ∧ Trimmed entry ∧ ',' ∉ entry) (hne : entries ≠ []) :
    splitFlows (joinWith [',', ' '] entries) = entries := by
  have hdivide : ((divide ',' (joinWith [',', ' '] entries)).map trim) = entries := by
    induction entries with
    | nil => exact absurd rfl hne
    | cons entry entries ih =>
      obtain ⟨-, ht, hc⟩ := h entry List.mem_cons_self
      have hrest := fun e he => h e (List.mem_cons_of_mem entry he)
      by_cases hp : entries = []
      · subst hp
        have hone : joinWith [',', ' '] [entry] = entry := rfl
        rw [hone, divide_of_not_mem hc, List.map_cons, ht.trim_eq]
        rfl
      · -- The space behind the comma is the first character of the next part.
        obtain ⟨part, parts, hd⟩ := List.exists_cons_of_ne_nil
          (divide_ne_nil ',' (joinWith [',', ' '] entries))
        have hsep : joinWith [',', ' '] (entry :: entries) =
            entry ++ ',' :: ' ' :: joinWith [',', ' '] entries := by
          rw [joinWith_cons entry hp, List.append_assoc]
          rfl
        have hblank : ∀ c ∈ [' '], isBlank c = true := by simp [isBlank]
        have hspace : trim (' ' :: part) = trim part := trim_append_of_blank hblank part
        have ih := ih hrest hp
        rw [hd, List.map_cons] at ih
        rw [hsep, divide_append hc, divide, if_neg (by decide), hd, List.map_cons, ht.trim_eq,
          List.map_cons, hspace, ih]
  rw [splitFlows, hdivide, List.filter_eq_self]
  intro entry he
  simpa [List.isEmpty_iff] using (h entry he).1

end Lifeline
