import Lifeline.Proofs.EditLaws
import Lifeline.Proofs.Regeneration
import Lifeline.Proofs.Scan.Marks

/-!
# Written lines that are recognised

An editor looks for message lines by their own characters. The line of a message that
was read is one line only if its text and its values are, and it is taken for a message
line only if its source does not start like another statement. If both hold, the line is
counted wherever it is written.
-/

namespace Lifeline

open Text

namespace Text

private theorem prefix_of_prefix_append {w s t : List Char} {c : Char} (hc : c ∉ w)
    (h : w <+: s ++ c :: t) : w <+: s := by
  rcases List.prefix_or_prefix_of_prefix h (List.prefix_append s (c :: t)) with hw | ⟨u, rfl⟩
  · exact hw
  · cases u with
    | nil => rw [List.append_nil]
    | cons d u =>
      obtain ⟨rfl, -⟩ := List.cons_prefix_cons.mp ((List.prefix_append_right_inj s).mp h)
      exact absurd (List.mem_append_right s List.mem_cons_self) hc

theorem occurs_iff {mark s : List Char} : occurs mark s = true ↔ mark <:+: s := by
  rw [occurs, Option.isSome_iff_ne_none, Ne, cut_eq_none_iff, not_not]

end Text

theorem startsWithAny_iff {marks : List (List Char)} {l : Line} :
    startsWithAny marks l = true ↔ ∃ mark ∈ marks, mark <+: l := by
  simp [startsWithAny]

private theorem IsName.not_comment {name : String} (h : IsName name) (s : List Char) :
    startsWithAny commentMarks (name.toList ++ s) = false := by
  obtain ⟨c, hc, hstart⟩ := h.start
  obtain ⟨letters, hletters⟩ := List.head?_eq_some_iff.mp hc
  rw [hletters, Bool.eq_false_iff]
  intro hcomment
  obtain ⟨mark, hmark, hp⟩ := startsWithAny_iff.mp hcomment
  simp only [commentMarks, List.mem_cons, List.not_mem_nil, or_false] at hmark
  rcases hmark with rfl | rfl
  · obtain ⟨rfl, -⟩ := List.cons_prefix_cons.mp hp
    cases hstart
  · obtain ⟨rfl, -⟩ := List.cons_prefix_cons.mp hp
    cases hstart

private theorem Arrow.exists_chars (a : Arrow) : ∃ rest, a.chars = '-' :: rest := by
  rcases a with ⟨line, head⟩
  cases line <;> cases head <;> exact ⟨_, rfl⟩

/-- A dash and a point stand in every arrow. -/
theorem Arrow.infix_chars (a : Arrow) : ['-', '>'] <:+: a.chars := by
  rcases a with ⟨line, head⟩
  cases line <;> cases head <;> decide

/-- A name with an arrow behind it starts a message line, unless it starts another statement. -/
theorem IsName.isMessageLine_arrow {name : String} (h : IsName name) (a : Arrow) (s : List Char) :
    isMessageLine (name.toList ++ (a.chars ++ s)) =
      !startsWithAny statementWords (name.toList ++ (a.chars ++ s)) := by
  have harrow : occurs ['-', '>'] (name.toList ++ (a.chars ++ s)) = true :=
    occurs_iff.mpr (a.infix_chars.trans ⟨name.toList, s, by simp⟩)
  rw [isMessageLine, h.not_comment, harrow, Bool.not_false, Bool.true_and, Bool.and_true]

private theorem IsName.newline {name : String} (h : IsName name) :
    '\n' ∉ name.toList := fun hn => by
  cases h.letters _ hn

private theorem dash_not_mem_statementWords : ∀ w ∈ statementWords, '-' ∉ w := by decide

/-- There is no line end in what is written for a record exactly if there is none in a value. -/
theorem Annotations.newline_spaced_marks (r : Annotations) :
    '\n' ∉ Lexeme.spaced r.marks ↔ ∀ f, ∀ v ∈ r.valueText? f, '\n' ∉ v := by
  have htag {f : Field} {v : List Char} {b : Bracket} :
      '\n' ∈ (Lexeme.tag f.name.toList (some (b, ⟨v, true⟩))).text ↔ '\n' ∈ v := by
    have hname : '\n' ∉ f.name.toList := fun hn => by cases isWordChar_name f _ hn
    have hopener : b.opener ≠ '\n' := by cases b <;> decide
    simp [Lexeme.text, Lexeme.valueText, Enclosed.text, hname, hopener.symm,
      b.closer_ne_newline.symm]
  constructor
  · intro h f v hv hn
    have hmem : .tag f.name.toList (some ((preferred f).choose v, ⟨v, true⟩)) ∈ r.mark f := by
      rw [mark, Option.mem_def.mp hv]
      exact List.mem_singleton_self _
    exact h (List.mem_flatMap.mpr ⟨_, mem_marks_of_mem_mark hmem,
      List.mem_cons_of_mem _ (htag.mpr hn)⟩)
  · intro h hn
    obtain ⟨l, hl, hn⟩ := List.mem_flatMap.mp hn
    rcases List.mem_cons.mp hn with hspace | hn
    · cases hspace
    rcases mem_marks hl with rfl | ⟨f, hf⟩
    · simp [Lexeme.text, Lexeme.valueText] at hn
    · obtain ⟨v, hv, rfl⟩ := mem_mark hf
      exact h f v hv (htag.mp hn)

namespace Message

/-- The ends of a message with the arrow and the colon, at which its line starts. -/
def front (m : Message) : List Char :=
  m.source.toList ++ m.arrow.chars ++ m.target.toList ++ [':']

/-- The text of the message and the values that are written for it stay on one line, and its source
does not start as another statement does. -/
structure FitsLine (m : Message) : Prop where
  text : '\n' ∉ m.text.toList
  values : ∀ f, ∀ v ∈ m.annotations.valueText? f, '\n' ∉ v
  source : ∀ w ∈ statementWords, ¬w <+: m.source.toList

/-- The `k`-th message line of a text is the line of the message, apart from its indentation. -/
def StandsAt (m : Message) (k : Int) (source : String) : Prop :=
  ∃ p, Place.at? holdsMessage k (lines source.toList) = some p ∧ trimStart p.line = m.lineChars

/-- The line of the message is one line and a message line, and it is counted as one message line
wherever it is written: in the place of another one, or as one more. -/
structure Counted (m : Message) : Prop where
  newline : '\n' ∉ m.lineChars
  recognised : isMessageLine m.lineChars = true
  update : ∀ (source : String) (index : Int), 0 ≤ index ∧ index < messageLineCount source →
    messageLineCount ((Edit.update index m).apply source) = messageLineCount source ∧
      m.StandsAt index ((Edit.update index m).apply source)
  insert : ∀ (source : String) (index : Int),
    messageLineCount ((Edit.insert index m).apply source) = messageLineCount source + 1 ∧
      m.StandsAt
        (if 0 ≤ index ∧ index < messageLineCount source then index else messageLineCount source)
        ((Edit.insert index m).apply source)

variable {m : Message}

/-- The text and the annotations stand behind the front of a line. -/
theorem lineChars_eq_front (m : Message) :
    m.lineChars = m.front ++ ' ' :: (m.text.toList ++ Lexeme.spaced m.annotations.marks) := by
  rw [lineChars_eq, front]
  simp

/-- No blank stands before the front or ends it. -/
theorem trimmed_front (hs : IsName m.source) : Trimmed m.front := by
  refine ⟨fun c hc => ?_, fun c hc => ?_⟩
  · obtain ⟨d, hd, hstart⟩ := hs.start
    obtain ⟨letters, hletters⟩ := List.head?_eq_some_iff.mp hd
    rw [front, hletters] at hc
    cases hc
    rw [Bool.eq_false_iff]
    intro hblank
    rw [Lexeme.isWordStart_of_isBlank hblank] at hstart
    cases hstart
  · rw [front, List.getLast?_concat] at hc
    cases hc
    rfl

/-- There is a line end in the line of a message only if there is one in its text or a value. -/
theorem newline_lineChars (hs : IsName m.source) (ht : IsName m.target) :
    '\n' ∉ m.lineChars ↔
      '\n' ∉ m.text.toList ∧ ∀ f, ∀ v ∈ m.annotations.valueText? f, '\n' ∉ v := by
  have harrow : '\n' ∉ m.arrow.chars := by
    rcases m.arrow with ⟨line, head⟩
    cases line <;> cases head <;> decide
  rw [lineChars_eq, ← m.annotations.newline_spaced_marks]
  simp [hs.newline, ht.newline, harrow]

/-- Whatever starts like the line of a message is a message line exactly if the source does not
start as another statement does. -/
theorem isMessageLine_front (hs : IsName m.source) (s : List Char) :
    isMessageLine (m.front ++ s) = true ↔ ∀ w ∈ statementWords, ¬w <+: m.source.toList := by
  have hfront :
      m.front ++ s = m.source.toList ++ (m.arrow.chars ++ (m.target.toList ++ ':' :: s)) := by
    simp [front]
  rw [hfront, hs.isMessageLine_arrow, Bool.not_eq_true', ← Bool.not_eq_true, startsWithAny_iff]
  obtain ⟨rest, hrest⟩ := m.arrow.exists_chars
  have hword {w : List Char} (hw : w ∈ statementWords) :
      w <+: m.source.toList ++ (m.arrow.chars ++ (m.target.toList ++ ':' :: s)) ↔
        w <+: m.source.toList := by
    rw [hrest, List.cons_append]
    exact ⟨prefix_of_prefix_append (dash_not_mem_statementWords w hw),
      fun hp => hp.trans (List.prefix_append _ _)⟩
  constructor
  · intro h w hw hp
    exact h ⟨w, hw, (hword hw).mpr hp⟩
  · rintro h ⟨w, hw, hp⟩
    exact h w hw ((hword hw).mp hp)

/-- A line that fits is recognised at any indentation. -/
theorem FitsLine.recognizable (h : m.FitsLine) (hs : IsName m.source) (ht : IsName m.target) :
    m.Recognizable := by
  have hne : m.front ≠ [] := by simp [front]
  have hline := m.lineChars_eq_front
  obtain ⟨t, htrim⟩ := (trimmed_front hs).prefix_trim hne
    (' ' :: (m.text.toList ++ Lexeme.spaced m.annotations.marks))
  refine ⟨(newline_lineChars hs ht).mpr ⟨h.text, h.values⟩, fun c hc => ?_, ?_⟩
  · rw [hline, List.head?_append_of_ne_nil _ hne] at hc
    exact (trimmed_front hs).start c hc
  · rw [holdsMessage, hline, ← htrim]
    exact (isMessageLine_front hs t).mpr h.source

/-- A message is found by its number where its line has been written. -/
theorem Recognizable.standsAt {source : String} {before behind : List Line} {indent : List Char}
    {k : Int} (hm : m.Recognizable) (hi : ∀ c ∈ indent, isBlank c = true)
    (hlines : lines source.toList = before ++ (indent ++ m.lineChars) :: behind)
    (hc : (before.countP holdsMessage : Int) = k) : m.StandsAt k source := by
  refine ⟨⟨before, indent ++ m.lineChars, behind⟩, ?_, dropWhile_append_eq hi hm.start⟩
  exact Place.at?_eq_some_iff.mpr ⟨hlines.symm, hm.holdsMessage_indent hi, hc⟩

/-- A line that is recognised is counted wherever it is written. -/
theorem Recognizable.counted (hm : m.Recognizable) (h : isMessageLine m.lineChars = true) :
    m.Counted := by
  refine ⟨hm.newline, h, fun source index hindex => ?_, fun source index => ?_⟩
  all_goals have hn : ∀ l ∈ lines source.toList, '\n' ∉ l := fun l hl => not_mem_of_mem_lines hl
  · have hlines := Edit.lines_apply (e := .update index m)
      (Edit.update_lines hm hn (divide_ne_nil _ _))
    cases hat : Place.at? holdsMessage index (lines source.toList) with
    | none => exact absurd hindex (Place.at?_eq_none_iff.mp hat)
    | some p =>
      obtain ⟨-, -, hc⟩ := Place.spec_of_at? hat
      refine ⟨by rw [messageLineCount, hlines, Edit.countP_update hm, messageLineCount], ?_⟩
      rw [Edit.applyLines_update hat] at hlines
      exact hm.standsAt (fun c => isBlank_of_mem_indentation) hlines hc
  · have hlines := Edit.lines_apply (e := .insert index m) (Edit.insert_lines hm hn)
    obtain ⟨before, indent, behind, hparts, hi, hinsert, hc⟩ := Edit.applyLines_insert hn index m
    have hblank : ∀ c ∈ indent, isBlank c = true := fun c hmem => (hi c hmem).1
    rw [hinsert] at hlines
    refine ⟨?_, hm.standsAt hblank hlines hc⟩
    rw [messageLineCount, hlines, List.countP_append,
      List.countP_cons_of_pos (hm.holdsMessage_indent hblank), messageLineCount, ← hparts,
      List.countP_append, Nat.add_assoc]

end Message

/-- The line of a message that was read is one line, is recognised and is counted wherever it is
written, exactly if its text and its values are on one line and its source does not start as another
statement does. -/
theorem counted_iff_fitsLine {source : String} {d : Diagram} (h : parse source = .ok d)
    {m : Message} (hm : m ∈ d.messages) : m.Counted ↔ m.FitsLine := by
  obtain ⟨hs, ht, -⟩ := normal_of_mem_messages h hm
  have hmessage : isMessageLine m.lineChars = true ↔
      ∀ w ∈ statementWords, ¬w <+: m.source.toList := by
    rw [m.lineChars_eq_front]
    exact Message.isMessageLine_front hs _
  constructor
  · intro hcounted
    obtain ⟨htext, hvalues⟩ := (Message.newline_lineChars hs ht).mp hcounted.newline
    exact ⟨htext, hvalues, hmessage.mp hcounted.recognised⟩
  · intro hfits
    exact (hfits.recognizable hs ht).counted (hmessage.mpr hfits.source)

/-- A message with an arrow and the word of a statement in its text. -/
def quotingMessage : Message :=
  ⟨"over_1", "B", ⟨.solid, .filled⟩, "title ->", { request := some (.inline (some "(")) }⟩

/-- The message is read, and its line is recognised. -/
theorem counted_iff_fitsLine_sample :
    ∃ d, parse "over_1->>B: \"title -> \" @request\x7b(\x7d" = .ok d ∧
      quotingMessage ∈ d.messages ∧ quotingMessage.FitsLine ∧ quotingMessage.Counted := by
  obtain ⟨d, hd, hm⟩ : ReadsAs "over_1->>B: \"title -> \" @request\x7b(\x7d".toList
      [quotingMessage] := by decide +kernel
  rw [String.ofList_toList] at hd
  have hmem : quotingMessage ∈ d.messages := by
    rw [hm]
    exact List.mem_singleton_self _
  have hfits : quotingMessage.FitsLine := by
    refine ⟨by decide, fun f v hv => ?_, by decide⟩
    cases f <;> cases hv
    decide
  exact ⟨d, hd, hmem, hfits, (counted_iff_fitsLine hd hmem).mpr hfits⟩

/-- A participant whose name starts like a keyword has messages whose lines are not recognised. -/
theorem not_counted_actor1 :
    ∃ d, parse "actor1->B: hi" = .ok d ∧ ∃ m ∈ d.messages, ¬m.Counted := by
  obtain ⟨d, hd, hm⟩ : ReadsAs "actor1->B: hi".toList
      [⟨"actor1", "B", ⟨.solid, .stroked⟩, "hi", {}⟩] := by decide +kernel
  rw [String.ofList_toList] at hd
  refine ⟨d, hd, _, by rw [hm]; exact List.mem_singleton_self _, fun hcounted => ?_⟩
  have hline := hcounted.recognised
  revert hline
  decide +kernel

end Lifeline
