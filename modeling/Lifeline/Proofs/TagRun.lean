import Lifeline.Proofs.AnnotationWeight
import Lifeline.Proofs.MessageLine
import Lifeline.Proofs.Scan.Tokens

/-!
# The annotations behind a text

The annotations of a message are the tags behind its text, so they can be found
among the lexemes. What is written for a record is found as the annotations of the
record if and only if every value fits into brackets: a value that does not is
read as a value with other brackets, and the weight of the record shows that
nothing behind it can make up for that.
-/

namespace Lifeline

open Text

namespace Lexeme

/-- The lexeme may stand in the text of a message. -/
def isText : Lexeme → Bool
  | newline => false
  | tag _ _ => false
  | _ => true

/-- The annotations behind a text. -/
def tagRun (ls : List Lexeme) : List Tag :=
  ((ls.dropWhile isText).takeWhile (·.tag?.isSome)).filterMap tag?

variable {l : Lexeme} {ls : List Lexeme} {t : Token} {ts : List Token}

/-- A token is a tag, and the same one, if its lexeme is; it may stand in a text if its lexeme
may. -/
theorem spec_of_token (h : l.token = .ok t) :
    t.tag? = l.tag? ∧ Statement.isMessageText t = l.isText := by
  have hdirective {s : List Char} (hd : (Directive.read s).map Token.ofDirective = .ok t) :
      t.tag? = none ∧ Statement.isMessageText t = true := by
    obtain ⟨d, -, rfl⟩ := of_map_eq_ok hd
    cases d <;> exact ⟨rfl, rfl⟩
  cases l with
  | word letters =>
    have hword := Except.ok.inj h
    rw [Token.ofWord] at hword
    split at hword
    · cases hword
      exact ⟨rfl, rfl⟩
    split at hword <;> cases hword <;> exact ⟨rfl, rfl⟩
  | lineDirective rest => exact hdirective h
  | blockDirective body => exact hdirective h
  | _ => cases h; exact ⟨rfl, rfl⟩

/-- The annotations behind the text of tokens are those behind the text of the lexemes. -/
theorem tagRun_of_mapM (h : ls.mapM token = .ok ts) : Statement.tagRun ts = tagRun ls := by
  have hrun {ks : List Lexeme} {us : List Token}
      (hk : List.Forall₂ (fun l t => l.token = .ok t) ks us) :
      (us.takeWhile (·.tag?.isSome)).filterMap Token.tag? =
        (ks.takeWhile (·.tag?.isSome)).filterMap tag? := by
    induction hk with
    | nil => rfl
    | @cons k u ks us hu _ ih =>
      obtain ⟨ht, -⟩ := spec_of_token hu
      rw [List.takeWhile_cons, List.takeWhile_cons, ht]
      split
      · rw [List.filterMap_cons, List.filterMap_cons, ht, ih]
      · rfl
  have hall := Source.forall₂_of_mapM h
  rw [Statement.tagRun, tagRun]
  clear h
  induction hall with
  | nil => rfl
  | @cons k u ks us hu hks ih =>
    obtain ⟨-, ht⟩ := spec_of_token hu
    rw [List.dropWhile_cons, List.dropWhile_cons, ht]
    split
    · exact ih
    · exact hrun (List.Forall₂.cons hu hks)

theorem tagRun_cons (h : l.isText = true) (ls : List Lexeme) : tagRun (l :: ls) = tagRun ls := by
  rw [tagRun, List.dropWhile_cons, if_pos h, tagRun]

theorem tagRun_append (h : ∀ l ∈ ls, l.isText = true) (ks : List Lexeme) :
    tagRun (ls ++ ks) = tagRun ks := by
  rw [tagRun, List.dropWhile_append_of_pos h, tagRun]

private theorem isText_of_tag? {item : Tag} (h : l.tag? = some item) : l.isText = false := by
  cases l with
  | tag name value => rfl
  | _ => cases h

/-- Tags in front are the first annotations. -/
theorem tagRun_tags (h : ∀ l ∈ ls, l.tag?.isSome = true) (hne : ls ≠ []) (ks : List Lexeme) :
    tagRun (ls ++ ks) = ls.filterMap tag? ++ (ks.takeWhile (·.tag?.isSome)).filterMap tag? := by
  obtain ⟨l, ls, rfl⟩ := List.exists_cons_of_ne_nil hne
  obtain ⟨item, hl⟩ := Option.isSome_iff_exists.mp (h l List.mem_cons_self)
  have hdrop : (l :: ls ++ ks).dropWhile isText = l :: ls ++ ks := by
    rw [List.cons_append, List.dropWhile_cons, if_neg (by simp [isText_of_tag? hl])]
  rw [tagRun, hdrop, List.takeWhile_append_of_pos h, List.filterMap_append]

/-- What is read in place of a value that is not balanced has other brackets than the value. -/
theorem scan_tag_of_not_balanced {name v : List Char} {b : Bracket}
    (hn : ∀ c ∈ name, isWordChar c = true) (hv : b.balanced v = false) (t : List Char) :
    ∃ inside rest, scan ((tag name (some (b, ⟨v, true⟩))).text ++ t) =
      some (tag name (some (b, inside)), rest) ∧ brackets inside.content ≠ brackets v := by
  have htext : (tag name (some (b, ⟨v, true⟩))).text ++ t =
      '@' :: (name ++ b.opener :: (v ++ b.closer :: t)) := by
    simp [text, valueText, Enclosed.text]
  have hname : ∀ c ∈ (b.opener :: (v ++ b.closer :: t)).head?, isWordChar c = false := by
    rintro c ⟨⟩
    exact isWordChar_opener b
  rw [htext, scan_at, scanTag_of_name hn hname, scanValue_opener]
  refine ⟨_, _, rfl, fun he => ?_⟩
  cases hs : b.split 0 (v ++ b.closer :: t) with
  | some p =>
    -- A value that ends is balanced, and then so is every value with the same brackets.
    obtain ⟨content, rest⟩ := p
    rw [hs] at he
    have hb : b.balanced v = b.balanced content := Bracket.balanced_congr he.symm b
    rw [hv, Bracket.balanced, Bracket.closes_of_split hs] at hb
    cases hb
  | none =>
    -- A value that does not end has the bracket that should have closed it.
    rw [hs] at he
    have hl := congrArg List.length he
    simp only [Enclosed.ofSplit, brackets_append, List.length_append,
      brackets_cons_of_true b.isBracket_closer, List.length_cons] at hl
    omega

/-- Only a tag whose value is balanced stands alone. -/
theorem alone_tag_iff {name v : List Char} {b : Bracket} (hn : ∀ c ∈ name, isWordChar c = true) :
    (tag name (some (b, ⟨v, true⟩))).Alone ↔ b.balanced v = true := by
  refine ⟨fun h => ?_, alone_tag hn⟩
  by_contra hv
  obtain ⟨inside, rest, hs, hne⟩ := scan_tag_of_not_balanced hn (by simpa using hv) []
  rw [List.append_nil, h.scan] at hs
  cases hs
  exact hne rfl

end Lexeme

private theorem exists_first_not {α : Type} {p : α → Prop} {xs : List α} (h : ¬∀ x ∈ xs, p x) :
    ∃ front x behind, xs = front ++ x :: behind ∧ (∀ y ∈ front, p y) ∧ ¬p x := by
  induction xs with
  | nil => exact absurd (by simp) h
  | cons y xs ih =>
    by_cases hy : p y
    · have hxs : ¬∀ x ∈ xs, p x := fun hall => h (List.forall_mem_cons.mpr ⟨hy, hall⟩)
      obtain ⟨front, x, behind, rfl, hfront, hx⟩ := ih hxs
      exact ⟨y :: front, x, behind, rfl, List.forall_mem_cons.mpr ⟨hy, hfront⟩, hx⟩
    · exact ⟨[], y, xs, rfl, by simp, hy⟩

namespace Annotations

variable {r : Annotations}

theorem mem_marks_of_mem_mark {f : Field} {l : Lexeme} (h : l ∈ r.mark f) : l ∈ r.marks := by
  cases f <;> simp [marks, h]

/-- Every value fits into brackets exactly if every lexeme that is written stands alone. -/
theorem balanced_iff_alone : r.Balanced ↔ ∀ l ∈ r.marks, l.Alone := by
  refine ⟨Balanced.alone, fun h f v hv => ?_⟩
  have hmem : .tag f.name.toList (some ((preferred f).choose v, ⟨v, true⟩)) ∈ r.mark f := by
    rw [mark, Option.mem_def.mp hv]
    exact List.mem_singleton_self _
  have halone := h _ (mem_marks_of_mem_mark hmem)
  exact (Bracket.balanced_choose _ v).mp ((Lexeme.alone_tag_iff (isWordChar_name f)).mp halone)

/-- If not every value fits into brackets, there is a first one that does not. -/
theorem exists_first_of_not_balanced (h : ¬r.Balanced) :
    ∃ front f v b behind,
      r.marks = front ++ .tag (Field.name f).toList (some (b, ⟨v, true⟩)) :: behind ∧
        r.valueText? f = some v ∧ b.balanced v = false ∧ ∀ l ∈ front, l.Alone := by
  obtain ⟨front, l, behind, hmarks, hfront, hl⟩ := exists_first_not (h ∘ balanced_iff_alone.mpr)
  have hmem : l ∈ r.marks := by
    rw [hmarks]
    exact List.mem_append_right front List.mem_cons_self
  rcases mem_marks hmem with rfl | ⟨f, hf⟩
  · exact absurd (Lexeme.alone_tag_none (List.all_eq_true.mp rfl)) hl
  · obtain ⟨v, hv, rfl⟩ := mem_mark hf
    rw [Lexeme.alone_tag_iff (isWordChar_name f), Bool.not_eq_true] at hl
    exact ⟨front, f, v, _, behind, hmarks, hv, hl, hfront⟩

/-- A part of the annotations has no more opening brackets than all of them. -/
theorem sum_openers_le {xs ys : List Tag} (h : xs.Sublist ys) :
    (xs.map Tag.openers).sum ≤ (ys.map Tag.openers).sum := by
  induction h with
  | slnil => exact Nat.le_refl _
  | cons a _ ih =>
    rw [List.map_cons, List.sum_cons]
    omega
  | cons_cons a _ ih =>
    rw [List.map_cons, List.map_cons, List.sum_cons, List.sum_cons]
    omega

/-- Tags that a text holds have no more opening brackets than the text. -/
theorem sum_openers_filterMap_le {s : List Char} {ls : List Lexeme}
    (h : ls.Sublist (Source.lexemes s)) :
    ((ls.filterMap Lexeme.tag?).map Tag.openers).sum ≤ openers s :=
  (sum_openers_le (h.filterMap _)).trans (Source.openers_tags_le s)

/-- The annotations behind a text weigh no more than its opening brackets. -/
theorem weight_tagRun_le (s : List Char) :
    (ofList (Lexeme.tagRun (Source.lexemes s))).weight ≤ openers s :=
  (weight_ofList_le _).trans
    (sum_openers_filterMap_le ((List.takeWhile_sublist _).trans (List.dropWhile_sublist _)))

/-- Where a value that is not balanced is the first, its tag is read with another value; the opening
brackets are those before it, its own and those of the rest. -/
theorem lexemes_of_not_balanced {front behind : List Lexeme} {f : Field} {v : List Char}
    {b : Bracket} (hfront : ∀ l ∈ front, l.Alone) (hbal : b.balanced v = false) :
    ∃ inside rest, brackets inside.content ≠ brackets v ∧
      Source.lexemes (Lexeme.spaced (front ++ .tag f.name.toList (some (b, ⟨v, true⟩)) :: behind)) =
        front ++ .tag f.name.toList (some (b, inside)) :: Source.lexemes rest ∧
      openers (Lexeme.spaced (front ++ .tag f.name.toList (some (b, ⟨v, true⟩)) :: behind)) =
        openers (Lexeme.spaced front) +
          (openers (Lexeme.tag f.name.toList (some (b, inside))).text + openers rest) := by
  obtain ⟨inside, rest, hscan, hne⟩ :=
    Lexeme.scan_tag_of_not_balanced (isWordChar_name f) hbal (Lexeme.spaced behind)
  refine ⟨inside, rest, hne, ?_, ?_⟩
  · rw [Lexeme.spaced_append, Source.lexemes_spaced_append hfront (Lexeme.parted_spaced _),
      Lexeme.spaced_cons, Source.lexemes_space, Source.lexemes_of_scan hscan]
  · rw [Lexeme.spaced_append, openers_append, Lexeme.spaced_cons, openers_cons_of_false rfl,
      ← Lexeme.scan_append hscan, openers_append]

/-- If the annotations behind a text are read back from what is written for them, every value fits
into brackets. -/
theorem balanced_of_tagRun
    (h : ofList (Lexeme.tagRun (Source.lexemes (Lexeme.spaced r.marks))) = r) : r.Balanced := by
  by_contra hb
  obtain ⟨front, f, v, b, behind, hmarks, hv, hbal, hfront⟩ := exists_first_of_not_balanced hb
  obtain ⟨inside, rest, hne, hlexemes, htotal⟩ := lexemes_of_not_balanced hfront hbal
  rw [← hmarks] at hlexemes htotal
  have htags : ∀ l ∈ front ++ [.tag f.name.toList (some (b, inside))], l.tag?.isSome = true := by
    intro l hl
    rcases List.mem_append.mp hl with hl | hl
    · obtain ⟨item, hi, -⟩ := tag?_of_mem_marks (hmarks ▸ List.mem_append_left _ hl)
      rw [hi]
      rfl
    · rw [List.mem_singleton.mp hl]
      rfl
  have htag : (Lexeme.tag f.name.toList (some (b, inside))).tag? =
      some ⟨f.name, some (String.ofList inside.content)⟩ := by
    rw [Lexeme.tag?, String.ofList_toList]
    rfl
  have hrun := Lexeme.tagRun_tags htags (by simp) (Source.lexemes rest)
  rw [List.append_assoc, List.singleton_append, ← hlexemes, List.filterMap_append,
    List.filterMap_cons_some htag, List.filterMap_nil, List.append_assoc,
    List.singleton_append] at hrun
  -- The field does not hold the other value, so the tag with that value is wasted.
  have hwaste : r.weight ≤ ((front.filterMap Lexeme.tag?).map Tag.openers).sum +
      ((((Source.lexemes rest).takeWhile (·.tag?.isSome)).filterMap Lexeme.tag?).map
        Tag.openers).sum := by
    have hshown : r.shown f ≠ brackets (String.ofList inside.content).toList := by
      rw [shown, hv, String.toList_ofList]
      exact hne.symm
    rw [hrun] at h
    rw [← h] at hshown
    have hw := weight_ofList_of_shown_ne hshown
    rwa [h] at hw
  have hfrontWeight : ((front.filterMap Lexeme.tag?).map Tag.openers).sum ≤
      openers (Lexeme.spaced front) := by
    have hf := Source.openers_tags_le (Lexeme.spaced front)
    rwa [Source.lexemes_spaced hfront] at hf
  have hrestWeight := sum_openers_filterMap_le
    (List.takeWhile_sublist (·.tag?.isSome) (l := Source.lexemes rest))
  have hopen : 1 ≤ openers (Lexeme.tag f.name.toList (some (b, inside))).text :=
    Nat.le_trans (Nat.le_add_left 1 _) (Lexeme.openers_of_tag? htag)
  rw [openers_spaced_marks] at htotal
  omega

end Annotations

end Lifeline
