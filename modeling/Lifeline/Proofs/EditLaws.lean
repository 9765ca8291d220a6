import Lifeline.Proofs.EditRun

/-!
# Laws of edits

An edit looks at characters alone, so edits of any source, whether it can be read or
not, obey the laws of the edits of a list: removing undoes adding, replacing is adding
and removing, and replacements at different places do not meet. What carries the laws
is that a written line is found again at its own number, with its own indentation.
-/

namespace Lifeline

open Text

/-- The line that the message is written as is one line, has no indentation of its own, and looks
like a message line. -/
structure Message.Recognizable (m : Message) : Prop where
  newline : '\n' ∉ m.lineChars
  start : ∀ c ∈ m.lineChars.head?, isBlank c = false
  holds : holdsMessage m.lineChars = true

instance : DecidablePred Message.Recognizable := fun m =>
  have hstart : m.lineChars.head?.all (!isBlank ·) = true ↔
      ∀ c ∈ m.lineChars.head?, isBlank c = false := by simp [Option.all_eq_true]
  decidable_of_iff ('\n' ∉ m.lineChars ∧ m.lineChars.head?.all (!isBlank ·) = true ∧
      holdsMessage m.lineChars = true)
    ⟨fun ⟨hn, hs, hh⟩ => ⟨hn, hstart.mp hs, hh⟩,
      fun h => ⟨h.newline, hstart.mpr h.start, h.holds⟩⟩

/-- The number of lines of a source that look like message lines. -/
def messageLineCount (source : String) : Nat := (lines source.toList).countP holdsMessage

namespace Place

variable {kind : Line → Bool} {ls : List Line} {p q : Place} {index : Int}

/-- A line is found by the number of lines of its kind before it. -/
theorem nth?_all (h : kind p.line = true) :
    nth? kind (p.before.countP kind) p.all = some p := by
  obtain ⟨before, line, behind⟩ := p
  induction before with
  | nil =>
    rw [all, List.nil_append, List.countP_nil, nth?, if_pos h]
  | cons l before ih =>
    have ih := ih h
    rw [all] at ih
    by_cases hl : kind l = true
    · rw [List.countP_cons_of_pos hl, all, List.cons_append, nth?.eq_def]
      dsimp only
      rw [if_pos hl, ih]
      rfl
    · rw [List.countP_cons_of_neg hl, all, List.cons_append, nth?.eq_def]
      dsimp only
      rw [if_neg hl, ih]
      rfl

/-- An index finds the line that has as many lines of its kind before it. -/
theorem at?_eq_some_iff : at? kind index ls = some p ↔
    p.all = ls ∧ kind p.line = true ∧ (p.before.countP kind : Int) = index := by
  refine ⟨spec_of_at?, ?_⟩
  rintro ⟨rfl, hk, rfl⟩
  rw [at?, if_pos (Int.natCast_nonneg _), Int.toNat_natCast, nth?_all hk]

private theorem exists_between {i j : Int} (hp : at? kind i ls = some p)
    (hq : at? kind j ls = some q) (hij : i < j) :
    ∃ between, q.before = p.before ++ p.line :: between ∧
      p.behind = between ++ q.line :: q.behind := by
  obtain ⟨hpa, hpk, hpc⟩ := spec_of_at? hp
  obtain ⟨hqa, -, hqc⟩ := spec_of_at? hq
  rcases List.append_eq_append_iff.mp (hpa.trans hqa.symm) with ⟨as, hb, hl⟩ | ⟨as, hb, -⟩
  · cases as with
    | nil =>
      rw [hb, List.append_nil] at hqc
      omega
    | cons l between =>
      obtain ⟨rfl, hbehind⟩ := List.cons.inj hl
      exact ⟨between, hb, hbehind⟩
  · rw [hb, List.countP_append] at hpc
    omega

end Place

namespace Message.Recognizable

variable {m : Message} {indent : List Char}

/-- At any indentation the written line looks like a message line. -/
theorem holdsMessage_indent (hm : m.Recognizable) (hi : ∀ c ∈ indent, isBlank c = true) :
    holdsMessage (indent ++ m.lineChars) = true := by
  rw [holdsMessage, trim_append_of_blank hi]
  exact hm.holds

private theorem indentation_indent (hm : m.Recognizable) (hi : ∀ c ∈ indent, isBlank c = true) :
    indentation (indent ++ m.lineChars) = indent :=
  takeWhile_append_eq hi hm.start

end Message.Recognizable

namespace Edit

variable {ls : List Line} {m m' : Message} {i j index : Int} {p : Place}

/-- A line that replaces another one stands at its indentation. -/
theorem applyLines_update (h : Place.at? holdsMessage index ls = some p) :
    (update index m).applyLines ls =
      p.before ++ (indentation p.line ++ m.lineChars) :: p.behind := by
  rw [applyLines, h]

/-- There is nothing to replace at an index outside the message lines. -/
theorem applyLines_update_of_not (h : ¬(0 ≤ index ∧ index < ls.countP holdsMessage)) :
    (update index m).applyLines ls = ls := by
  rw [applyLines, Place.at?_eq_none_iff.mpr h]

/-- There is nothing to remove at an index outside the message lines. -/
theorem applyLines_delete_of_not (h : ¬(0 ≤ index ∧ index < ls.countP holdsMessage)) :
    (delete index).applyLines ls = ls := by
  rw [applyLines, Place.at?_eq_none_iff.mpr h]

/-- A message line is removed by its number. -/
theorem applyLines_delete {before behind : List Line} {l : Line} (hl : holdsMessage l = true)
    (hc : (before.countP holdsMessage : Int) = index) :
    (delete index).applyLines (before ++ l :: behind) = before ++ behind := by
  have hat : Place.at? holdsMessage index (before ++ l :: behind) = some ⟨before, l, behind⟩ :=
    Place.at?_eq_some_iff.mpr ⟨rfl, hl, hc⟩
  rw [applyLines, hat]

/-- A message is added as a line of its own, at a blank indentation, and gets the number that it is
added at, or else the last one. -/
theorem applyLines_insert (hn : ∀ l ∈ ls, '\n' ∉ l) (i : Int) (m : Message) :
    ∃ before indent behind, before ++ behind = ls ∧
      (∀ c ∈ indent, isBlank c = true ∧ c ≠ '\n') ∧
      (insert i m).applyLines ls = before ++ (indent ++ m.lineChars) :: behind ∧
      (before.countP holdsMessage : Int) =
        if 0 ≤ i ∧ i < ls.countP holdsMessage then i else ls.countP holdsMessage := by
  obtain ⟨before, indent, behind, hins⟩ :
      ∃ before indent behind, insertion i ls = (before, indent, behind) := ⟨_, _, _, rfl⟩
  obtain ⟨rfl, hi, hat⟩ := insertion_spec hn hins
  refine ⟨before, indent, behind, rfl, hi, by rw [applyLines, hins], ?_⟩
  rw [List.countP_append] at hat ⊢
  rcases hat with ⟨hc, hne⟩ | ⟨hout, hzero⟩
  · rw [if_pos (by omega), hc]
  · rw [if_neg hout, hzero, Nat.add_zero]

/-- Replacing a message leaves as many message lines. -/
theorem countP_update (hm : m.Recognizable) :
    ((update index m).applyLines ls).countP holdsMessage = ls.countP holdsMessage := by
  cases hat : Place.at? holdsMessage index ls with
  | none => rw [applyLines_update_of_not (Place.at?_eq_none_iff.mp hat)]
  | some p =>
    obtain ⟨ha, hk, -⟩ := Place.spec_of_at? hat
    have hline : holdsMessage (indentation p.line ++ m.lineChars) = true :=
      hm.holdsMessage_indent fun _ => isBlank_of_mem_indentation
    rw [applyLines_update hat, ← ha, Place.all, List.countP_append, List.countP_append,
      List.countP_cons_of_pos hline, List.countP_cons_of_pos hk]

/-- A message that has been added is removed by the number that it has got. -/
theorem delete_insert_lines (hm : m.Recognizable) (hn : ∀ l ∈ ls, '\n' ∉ l) :
    (delete (if 0 ≤ i ∧ i < ls.countP holdsMessage then i else ls.countP holdsMessage)).applyLines
      ((insert i m).applyLines ls) = ls := by
  obtain ⟨before, indent, behind, hls, hi, hinsert, hc⟩ := applyLines_insert hn i m
  rw [hinsert, applyLines_delete (hm.holdsMessage_indent fun c hc => (hi c hc).1) hc, hls]

/-- Replacing a message is adding one in front of it and removing the next one. -/
theorem delete_succ_insert_lines (hm : m.Recognizable) (h : 0 ≤ i ∧ i < ls.countP holdsMessage) :
    (delete (i + 1)).applyLines ((insert i m).applyLines ls) = (update i m).applyLines ls := by
  cases hat : Place.at? holdsMessage i ls with
  | none => exact absurd h (Place.at?_eq_none_iff.mp hat)
  | some p =>
    obtain ⟨-, hk, hc⟩ := Place.spec_of_at? hat
    have hline : holdsMessage (indentation p.line ++ m.lineChars) = true :=
      hm.holdsMessage_indent fun _ => isBlank_of_mem_indentation
    have hinsert : (insert i m).applyLines ls =
        (p.before ++ [indentation p.line ++ m.lineChars]) ++ p.line :: p.behind := by
      rw [applyLines, insertion, hat, List.append_assoc]
      rfl
    have hcount : ((p.before ++ [indentation p.line ++ m.lineChars]).countP holdsMessage : Int) =
        i + 1 := by
      rw [List.countP_append, List.countP_singleton, if_pos hline]
      omega
    rw [hinsert, applyLines_delete hk hcount, applyLines_update hat, List.append_assoc]
    rfl

/-- Of two replacements of the same message the later one counts. -/
theorem update_update_lines (hm : m.Recognizable) :
    (update i m').applyLines ((update i m).applyLines ls) = (update i m').applyLines ls := by
  cases hat : Place.at? holdsMessage i ls with
  | none => rw [applyLines_update_of_not (Place.at?_eq_none_iff.mp hat)]
  | some p =>
    obtain ⟨-, -, hc⟩ := Place.spec_of_at? hat
    have hblank : ∀ c ∈ indentation p.line, isBlank c = true := fun _ =>
      isBlank_of_mem_indentation
    have hagain : Place.at? holdsMessage i
        (p.before ++ (indentation p.line ++ m.lineChars) :: p.behind) =
          some ⟨p.before, indentation p.line ++ m.lineChars, p.behind⟩ :=
      Place.at?_eq_some_iff.mpr ⟨rfl, hm.holdsMessage_indent hblank, hc⟩
    rw [applyLines_update hat, applyLines_update hagain, applyLines_update hat]
    dsimp only
    rw [hm.indentation_indent hblank]

private theorem update_comm_of_lt (hm : m.Recognizable) (hm' : m'.Recognizable) (hij : i < j) :
    (update j m').applyLines ((update i m).applyLines ls) =
      (update i m).applyLines ((update j m').applyLines ls) := by
  cases hp : Place.at? holdsMessage i ls with
  | none =>
    have hout := Place.at?_eq_none_iff.mp hp
    have hstill : (update i m).applyLines ((update j m').applyLines ls) =
        (update j m').applyLines ls := applyLines_update_of_not (by rwa [countP_update hm'])
    rw [applyLines_update_of_not hout, hstill]
  | some p =>
    cases hq : Place.at? holdsMessage j ls with
    | none =>
      have hout := Place.at?_eq_none_iff.mp hq
      have hsame : (update j m').applyLines ls = ls := applyLines_update_of_not hout
      rw [hsame, applyLines_update_of_not (by rwa [countP_update hm])]
    | some q =>
      obtain ⟨between, hbefore, hbehind⟩ := Place.exists_between hp hq hij
      obtain ⟨-, hpk, hpc⟩ := Place.spec_of_at? hp
      obtain ⟨-, hqk, hqc⟩ := Place.spec_of_at? hq
      have hline : holdsMessage (indentation p.line ++ m.lineChars) = true :=
        hm.holdsMessage_indent fun _ => isBlank_of_mem_indentation
      -- Neither replacement moves the line that the other one looks for.
      have hq' : Place.at? holdsMessage j
          (p.before ++ (indentation p.line ++ m.lineChars) :: p.behind) =
            some ⟨p.before ++ (indentation p.line ++ m.lineChars) :: between,
              q.line, q.behind⟩ := by
        refine Place.at?_eq_some_iff.mpr ⟨?_, hqk, ?_⟩
        · rw [Place.all, hbehind, List.append_assoc]
          rfl
        · rw [← hqc, hbefore, List.countP_append, List.countP_append,
            List.countP_cons_of_pos hline, List.countP_cons_of_pos hpk]
      have hp' : Place.at? holdsMessage i
          (q.before ++ (indentation q.line ++ m'.lineChars) :: q.behind) =
            some ⟨p.before, p.line,
              between ++ (indentation q.line ++ m'.lineChars) :: q.behind⟩ := by
        refine Place.at?_eq_some_iff.mpr ⟨?_, hpk, hpc⟩
        rw [Place.all, hbefore, List.append_assoc]
        rfl
      rw [applyLines_update hp, applyLines_update hq', applyLines_update hq, applyLines_update hp']
      dsimp only
      rw [List.append_assoc]
      rfl

/-- Replacements of different messages may be made in either order. -/
theorem update_comm_lines (hm : m.Recognizable) (hm' : m'.Recognizable) (hij : i ≠ j) :
    (update j m').applyLines ((update i m).applyLines ls) =
      (update i m).applyLines ((update j m').applyLines ls) := by
  rcases Int.lt_or_gt_of_ne hij with h | h
  · exact update_comm_of_lt hm hm' h
  · exact (update_comm_of_lt hm' hm h).symm

/-- Replacing a message leaves at least one line, and no line end in any. -/
theorem update_lines (hm : m.Recognizable) (hn : ∀ l ∈ ls, '\n' ∉ l) (hne : ls ≠ []) :
    (∀ l ∈ (update index m).applyLines ls, '\n' ∉ l) ∧ (update index m).applyLines ls ≠ [] := by
  cases hat : Place.at? holdsMessage index ls with
  | none =>
    rw [applyLines_update_of_not (Place.at?_eq_none_iff.mp hat)]
    exact ⟨hn, hne⟩
  | some p =>
    obtain ⟨rfl, -, -⟩ := Place.spec_of_at? hat
    have hindent : '\n' ∉ indentation p.line := fun hc =>
      hn p.line (List.mem_append_right _ List.mem_cons_self) (mem_of_mem_indentation hc)
    rw [applyLines_update hat]
    refine ⟨fun l hl => ?_, by simp⟩
    rcases List.mem_append.mp hl with hl | hl
    · exact hn l (List.mem_append_left _ hl)
    rcases List.mem_cons.mp hl with rfl | hl
    · exact List.mem_append.not.mpr (not_or.mpr ⟨hindent, hm.newline⟩)
    · exact hn l (List.mem_append_right _ (List.mem_cons_of_mem p.line hl))

/-- Adding a message leaves at least one line, and no line end in any. -/
theorem insert_lines (hm : m.Recognizable) (hn : ∀ l ∈ ls, '\n' ∉ l) :
    (∀ l ∈ (insert index m).applyLines ls, '\n' ∉ l) ∧ (insert index m).applyLines ls ≠ [] := by
  obtain ⟨before, indent, behind, rfl, hi, hinsert, -⟩ := applyLines_insert hn index m
  rw [hinsert]
  refine ⟨fun l hl => ?_, by simp⟩
  rcases List.mem_append.mp hl with hl | hl
  · exact hn l (List.mem_append_left _ hl)
  rcases List.mem_cons.mp hl with rfl | hl
  · exact List.mem_append.not.mpr (not_or.mpr ⟨fun hc => (hi _ hc).2 rfl, hm.newline⟩)
  · exact hn l (List.mem_append_right _ hl)

/-- The lines of an edited source are the edited lines of the source. -/
theorem lines_apply {e : Edit} {source : String}
    (h : (∀ l ∈ e.applyLines (lines source.toList), '\n' ∉ l) ∧
      e.applyLines (lines source.toList) ≠ []) :
    lines (e.apply source).toList = e.applyLines (lines source.toList) := by
  rw [apply, String.toList_ofList, lines_unlines h.1 h.2]

/-- A second edit is made on these lines. -/
theorem apply_apply {e e' : Edit} {source : String}
    (h : (∀ l ∈ e.applyLines (lines source.toList), '\n' ∉ l) ∧
      e.applyLines (lines source.toList) ≠ []) :
    e'.apply (e.apply source) =
      String.ofList (unlines (e'.applyLines (e.applyLines (lines source.toList)))) := by
  rw [apply, lines_apply h]

private theorem apply_eq_self {e : Edit} {source : String}
    (h : e.applyLines (lines source.toList) = lines source.toList) : e.apply source = source := by
  rw [apply, h, unlines_lines, String.ofList_toList]

end Edit

open Edit in
/-- Edits of any source, at any indices, with messages whose lines are recognised: a message that
has been added can be removed by its number; replacing is adding and removing; of two replacements
of one message the later one counts, and those of two messages may be made in either order; and
outside the message lines nothing is replaced or removed. -/
theorem edit_laws {m m' : Message} (hm : m.Recognizable) (hm' : m'.Recognizable) (source : String)
    (i j : Int) :
    let n := messageLineCount source
    (delete (if 0 ≤ i ∧ i < n then i else n)).apply ((insert i m).apply source) = source ∧
    (0 ≤ i ∧ i < n →
      (update i m).apply source = (delete (i + 1)).apply ((insert i m).apply source)) ∧
    (update i m').apply ((update i m).apply source) = (update i m').apply source ∧
    (i ≠ j → (update j m').apply ((update i m).apply source) =
      (update i m).apply ((update j m').apply source)) ∧
    (i < 0 ∨ n ≤ i → ∀ x : Message,
      (update i x).apply source = source ∧ (delete i).apply source = source) := by
  have hn : ∀ l ∈ lines source.toList, '\n' ∉ l := fun l hl => not_mem_of_mem_lines hl
  have hne : lines source.toList ≠ [] := divide_ne_nil _ _
  refine ⟨?_, fun h => ?_, ?_, fun hij => ?_, fun hout x => ?_⟩
  · rw [apply_apply (insert_lines hm hn), messageLineCount, delete_insert_lines hm hn,
      unlines_lines, String.ofList_toList]
  · rw [apply_apply (insert_lines hm hn), delete_succ_insert_lines hm h, apply]
  · rw [apply_apply (update_lines hm hn hne), update_update_lines hm, apply]
  · rw [apply_apply (update_lines hm hn hne), apply_apply (update_lines hm' hn hne),
      update_comm_lines hm hm' hij]
  · have hnot : ¬(0 ≤ i ∧ i < (lines source.toList).countP holdsMessage) := by
      rw [messageLineCount] at hout
      omega
    exact ⟨apply_eq_self (applyLines_update_of_not hnot),
      apply_eq_self (applyLines_delete_of_not hnot)⟩

/-- A source that cannot be read, with CR LF line ends, a form feed before a message and an empty
last line. -/
def unreadableSource : String := "participant\r\n\x0c A->B: hi\r\n// C->D\r\nx --> y\r\n"

/-- The laws at the second message line of that source and at an index behind its last one. -/
theorem edit_laws_sample :
    let m : Message := ⟨"A", "B", ⟨.dashed, .stroked⟩, "%% \t\"->", { queue := some "(" }⟩
    let m' : Message := ⟨"@", "", ⟨.solid, .filled⟩, "", { flows := ["x", "y"] }⟩
    m.Recognizable ∧ m'.Recognizable ∧ messageLineCount unreadableSource = 2 ∧
      (Edit.delete 1).apply ((Edit.insert 1 m).apply unreadableSource) = unreadableSource := by
  intro m m'
  have hm : m.Recognizable := by decide +kernel
  have hm' : m'.Recognizable := by decide +kernel
  have hn : messageLineCount unreadableSource = 2 := by decide +kernel
  have hlaws := (edit_laws hm hm' unreadableSource 1 7).1
  rw [hn] at hlaws
  exact ⟨hm, hm', hn, hlaws⟩

end Lifeline
