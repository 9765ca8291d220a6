import Lifeline.Edit
import Lifeline.Proofs.LineReading

/-!
# Editing a source is editing the list of its messages

Message lines are recognised by their characters alone. On a source whose lines
are what they look like, each line being read by itself and a message line being
read as one message, that is enough: an edit changes the messages as it would
change a list, and leaves the source with lines that are what they look like. So
any run of edits can be followed on the list of messages.
-/

namespace Lifeline

open Text

/-- The line leaves nothing open and is read as one message if it looks like a message line, and
as none otherwise. -/
structure FaithfulLine (l : Line) : Prop where
  closed : Source.Closed l
  reads : ∃ d, parse (String.ofList l) = .ok d ∧
    d.messages.length = if holdsMessage l then 1 else 0

instance : DecidablePred FaithfulLine := fun l =>
  match h : parse (String.ofList l) with
  | .ok d =>
    decidable_of_iff (Source.Closed l ∧ d.messages.length = if holdsMessage l then 1 else 0)
      ⟨fun ⟨hc, hd⟩ => ⟨hc, d, h, hd⟩,
        fun ⟨hc, e, he, hd⟩ => ⟨hc, by rwa [Except.ok.inj (h.symm.trans he)]⟩⟩
  | .error _ => .isFalse fun ⟨_, _, hd, _⟩ => nomatch h.symm.trans hd

/-- Every line of the source is what it looks like. -/
def LineFaithful (source : String) : Prop := ∀ l ∈ lines source.toList, FaithfulLine l

instance : DecidablePred LineFaithful := fun source =>
  inferInstanceAs (Decidable (∀ l ∈ lines source.toList, FaithfulLine l))

/-- The line that the message is written as is one line, looks like a message line, leaves nothing
open, and is read as this message. -/
structure Message.Good (m : Message) : Prop where
  newline : '\n' ∉ m.lineChars
  closed : Source.Closed m.lineChars
  holds : holdsMessage m.lineChars = true
  reads : ReadsAs m.lineChars [m]

instance : DecidablePred Message.Good := fun m =>
  decidable_of_iff ('\n' ∉ m.lineChars ∧ Source.Closed m.lineChars ∧
      holdsMessage m.lineChars = true ∧ ReadsAs m.lineChars [m])
    ⟨fun ⟨hn, hc, hh, hr⟩ => ⟨hn, hc, hh, hr⟩, fun h => ⟨h.newline, h.closed, h.holds, h.reads⟩⟩

namespace Edit

/-- A message that an edit writes is good. -/
def Good : Edit → Prop
  | update _ m | insert _ m => m.Good
  | delete _ => True

instance : DecidablePred Good
  | update _ m | insert _ m => inferInstanceAs (Decidable m.Good)
  | delete _ => inferInstanceAs (Decidable True)

/-- The edit of a list of messages. An index outside the list changes nothing, except that a new
message then becomes the last one. -/
def onMessages (e : Edit) (messages : List Message) : List Message :=
  match e with
  | update index m =>
    if 0 ≤ index ∧ index < messages.length then messages.set index.toNat m else messages
  | insert index m =>
    if 0 ≤ index ∧ index < messages.length then messages.insertIdx index.toNat m
    else messages ++ [m]
  | delete index =>
    if 0 ≤ index ∧ index < messages.length then messages.eraseIdx index.toNat else messages

/-- A source after a run of edits. -/
def run (edits : List Edit) (source : String) : String := edits.foldl (fun s e => e.apply s) source

end Edit

namespace Place

variable {kind : Line → Bool} {ls : List Line} {p : Place}

/-- A line that is looked for by its number is of its kind, with that many of its kind before it. -/
theorem spec_of_nth? {k : Nat} (h : nth? kind k ls = some p) :
    kind p.line = true ∧ p.before.countP kind = k := by
  induction ls generalizing k p with
  | nil => simp [nth?] at h
  | cons l ls ih =>
    rw [nth?.eq_def] at h
    simp only at h
    split at h
    · next hl =>
      cases k with
      | zero =>
        cases h
        exact ⟨hl, rfl⟩
      | succ k =>
        obtain ⟨q, hq, rfl⟩ := Option.map_eq_some_iff.mp h
        obtain ⟨hk, hc⟩ := ih hq
        exact ⟨hk, by rw [push, List.countP_cons_of_pos hl, hc]⟩
    · next hl =>
      obtain ⟨q, hq, rfl⟩ := Option.map_eq_some_iff.mp h
      obtain ⟨hk, hc⟩ := ih hq
      exact ⟨hk, by rw [push, List.countP_cons_of_neg hl, hc]⟩

private theorem nth?_eq_none_iff {k : Nat} : nth? kind k ls = none ↔ ls.countP kind ≤ k := by
  induction ls generalizing k with
  | nil => simp [nth?]
  | cons l ls ih =>
    rw [nth?.eq_def]
    simp only
    split
    · next hl =>
      cases k with
      | zero => simp [List.countP_cons_of_pos hl]
      | succ k => rw [Option.map_eq_none_iff, ih, List.countP_cons_of_pos hl, Nat.succ_le_succ_iff]
    · next hl => rw [Option.map_eq_none_iff, ih, List.countP_cons_of_neg hl]

/-- A line that is looked for by an index has that index among its kind. -/
theorem spec_of_at? {index : Int} (h : at? kind index ls = some p) :
    p.all = ls ∧ kind p.line = true ∧ (p.before.countP kind : Int) = index := by
  rw [at?] at h
  split at h
  · next h0 =>
    obtain ⟨hk, hc⟩ := spec_of_nth? h
    exact ⟨all_of_nth? h, hk, by omega⟩
  · cases h

/-- An index finds no line exactly if it lies outside the kind. -/
theorem at?_eq_none_iff {index : Int} :
    at? kind index ls = none ↔ ¬(0 ≤ index ∧ index < ls.countP kind) := by
  rw [at?]
  split
  · next h0 =>
    rw [nth?_eq_none_iff]
    omega
  · next h0 => simp [h0]

/-- There is a last line of a kind unless there is no line of that kind. -/
theorem last?_eq_none_iff : last? kind ls = none ↔ ls.countP kind = 0 := by
  induction ls with
  | nil => simp [last?]
  | cons l ls ih =>
    rw [last?]
    cases hl : last? kind ls with
    | some q =>
      have hne : ls.countP kind ≠ 0 := fun h0 => by simp [ih.mpr h0] at hl
      simp only [reduceCtorEq, false_iff]
      rw [List.countP_cons]
      omega
    | none =>
      by_cases hk : kind l = true
      · simp [List.countP_cons_of_pos hk, hk]
      · simp [List.countP_cons_of_neg hk, hk, ih.mp hl]

/-- The last line of a kind has none of its kind behind it. -/
theorem spec_of_last? (h : last? kind ls = some p) :
    p.all = ls ∧ kind p.line = true ∧ p.behind.countP kind = 0 := by
  induction ls generalizing p with
  | nil => cases h
  | cons l ls ih =>
    rw [last?] at h
    split at h
    · next q hq =>
      cases h
      obtain ⟨ha, hk, hc⟩ := ih hq
      exact ⟨congrArg (l :: ·) ha, hk, hc⟩
    · next hq =>
      split at h
      · next hl =>
        cases h
        exact ⟨rfl, hl, last?_eq_none_iff.mp hq⟩
      · cases h

end Place

/-- The messages that a line is read as, if it can be read. -/
def lineMessages (l : Line) : List Message :=
  match parse (String.ofList l) with
  | .ok d => d.messages
  | .error _ => []

/-- The messages that the lines of a source are read as. -/
def messagesOf (ls : List Line) : List Message := ls.flatMap lineMessages

/-- The messages of a line that can be read are those that it is read as. -/
theorem lineMessages_eq {l : Line} {messages : List Message} (h : ReadsAs l messages) :
    lineMessages l = messages := by
  obtain ⟨d, hd, rfl⟩ := h
  simp only [lineMessages, hd]

namespace FaithfulLine

variable {l : Line} {ls : List Line}

/-- A line that is what it looks like can be read. -/
theorem readsAs (h : FaithfulLine l) : ReadsAs l (lineMessages l) := by
  obtain ⟨d, hd, -⟩ := h.reads
  exact ⟨d, hd, by simp only [lineMessages, hd]⟩

/-- A line has one message if it looks like a message line, and none otherwise. -/
theorem length_lineMessages (h : FaithfulLine l) :
    (lineMessages l).length = if holdsMessage l then 1 else 0 := by
  obtain ⟨d, hd, hn⟩ := h.reads
  rw [lineMessages_eq ⟨d, hd, rfl⟩, hn]

/-- A message line has one message. -/
theorem exists_lineMessages (h : FaithfulLine l) (hm : holdsMessage l = true) :
    ∃ m, lineMessages l = [m] :=
  List.length_eq_one_iff.mp (by rw [h.length_lineMessages, if_pos hm])

/-- Lines that are what they look like have as many messages as message lines. -/
theorem length_messagesOf (h : ∀ l ∈ ls, FaithfulLine l) :
    (messagesOf ls).length = ls.countP holdsMessage := by
  induction ls with
  | nil => rfl
  | cons l ls ih =>
    have hl := (h l List.mem_cons_self).length_lineMessages
    have hls := ih fun x hx => h x (List.mem_cons_of_mem l hx)
    rw [messagesOf] at hls ⊢
    rw [List.flatMap_cons, List.length_append, hl, hls, List.countP_cons]
    omega

/-- The empty line is what it looks like. -/
theorem nil : FaithfulLine [] := by
  refine ⟨?_, ?_⟩
  · intro l hl
    simp [Source.lexemes] at hl
  · obtain ⟨d, hd, hm⟩ := readsAs_nil
    exact ⟨d, hd, by rw [hm]; rfl⟩

/-- A good message may be written at any indentation. -/
theorem of_good {m : Message} (h : m.Good) {indent : List Char}
    (hi : ∀ c ∈ indent, isBlank c = true ∧ c ≠ '\n') : FaithfulLine (indent ++ m.lineChars) := by
  have hholds : holdsMessage (indent ++ m.lineChars) = true := by
    rw [holdsMessage, trim_append_of_blank fun c hc => (hi c hc).1]
    exact h.holds
  refine ⟨?_, ?_⟩
  · rw [Source.Closed, Source.lexemes_indent hi]
    exact h.closed
  · obtain ⟨d, hd, hm⟩ := (readsAs_indent hi).mpr h.reads
    exact ⟨d, hd, by rw [hm, if_pos hholds]; rfl⟩

end FaithfulLine

/-- A good message is the one message of its line, at any indentation. -/
theorem Message.Good.lineMessages_indent {m : Message} (h : m.Good) {indent : List Char}
    (hi : ∀ c ∈ indent, isBlank c = true ∧ c ≠ '\n') :
    lineMessages (indent ++ m.lineChars) = [m] :=
  lineMessages_eq ((readsAs_indent hi).mpr h.reads)

namespace Edit

variable {before behind : List Message} {x m : Message} {index : Int}

private theorem onMessages_update (h : (before.length : Int) = index) :
    (update index m).onMessages (before ++ x :: behind) = before ++ m :: behind := by
  have hr : 0 ≤ index ∧ index < ((before ++ x :: behind).length : Nat) := by
    rw [List.length_append, List.length_cons]
    omega
  have hn : index.toNat = before.length := by omega
  rw [onMessages, if_pos hr, hn, List.set_append_right _ _ (Nat.le_refl _), Nat.sub_self,
    List.set_cons_zero]

private theorem onMessages_insert (h : (before.length : Int) = index) (hne : behind ≠ []) :
    (insert index m).onMessages (before ++ behind) = before ++ m :: behind := by
  have hpos := List.length_pos_iff.mpr hne
  have hr : 0 ≤ index ∧ index < ((before ++ behind).length : Nat) := by
    rw [List.length_append]
    omega
  have hn : index.toNat = before.length := by omega
  rw [onMessages, if_pos hr, hn]
  clear h hr hn
  induction before with
  | nil => rfl
  | cons y before ih => rw [List.cons_append, List.length_cons, List.insertIdx_succ_cons, ih]; rfl

private theorem onMessages_delete (h : (before.length : Int) = index) :
    (delete index).onMessages (before ++ x :: behind) = before ++ behind := by
  have hr : 0 ≤ index ∧ index < ((before ++ x :: behind).length : Nat) := by
    rw [List.length_append, List.length_cons]
    omega
  have hn : index.toNat = before.length := by omega
  rw [onMessages, if_pos hr, hn, List.eraseIdx_append_of_length_le (Nat.le_refl _), Nat.sub_self,
    List.eraseIdx_cons_zero]

/-- The indentation of a line of a source is blank. -/
private theorem indentation_blank {ls : List Line} (hn : ∀ l ∈ ls, '\n' ∉ l) {p : Place}
    (hp : p.all = ls) : ∀ c ∈ indentation p.line, isBlank c = true ∧ c ≠ '\n' := by
  intro c hc
  refine ⟨isBlank_of_mem_indentation hc, ?_⟩
  rintro rfl
  have hmem : p.line ∈ ls := by
    rw [← hp, Place.all]
    exact List.mem_append_right _ List.mem_cons_self
  exact hn p.line hmem (mem_of_mem_indentation hc)

private theorem defaultIndentation_blank :
    ∀ c ∈ defaultIndentation, isBlank c = true ∧ c ≠ '\n' := by
  simp [defaultIndentation, isBlank]

/-- A message is added between the lines of a source, at a blank indentation: in front of the
message line that has the index, or else behind all message lines. -/
theorem insertion_spec {index : Int} {ls before behind : List Line} {indent : List Char}
    (hn : ∀ l ∈ ls, '\n' ∉ l) (h : insertion index ls = (before, indent, behind)) :
    before ++ behind = ls ∧ (∀ c ∈ indent, isBlank c = true ∧ c ≠ '\n') ∧
      ((before.countP holdsMessage : Int) = index ∧ behind.countP holdsMessage ≠ 0 ∨
        ¬(0 ≤ index ∧ index < ls.countP holdsMessage) ∧ behind.countP holdsMessage = 0) := by
  rw [insertion] at h
  cases hat : Place.at? holdsMessage index ls with
  | some p =>
    rw [hat] at h
    cases h
    obtain ⟨ha, hk, hc⟩ := Place.spec_of_at? hat
    exact ⟨ha, indentation_blank hn ha, .inl ⟨hc, by rw [List.countP_cons_of_pos hk]; omega⟩⟩
  | none =>
    rw [hat] at h
    have hout := Place.at?_eq_none_iff.mp hat
    cases hlast : Place.last? holdsMessage ls with
    | some p =>
      rw [hlast] at h
      cases h
      obtain ⟨ha, -, hc⟩ := Place.spec_of_last? hlast
      exact ⟨by rw [← ha, Place.all]; simp, indentation_blank hn ha, .inr ⟨hout, hc⟩⟩
    | none =>
      rw [hlast, Option.none_or] at h
      have hzero := Place.last?_eq_none_iff.mp hlast
      have hbehind {xs : List Line} (hs : xs.Sublist ls) : xs.countP holdsMessage = 0 :=
        Nat.le_zero.mp (hzero ▸ hs.countP_le)
      cases hdecl : Place.last? holdsDeclaration ls with
      | some p =>
        rw [hdecl] at h
        cases h
        have ha := (Place.spec_of_last? hdecl).1
        have he : p.before ++ [p.line] ++ p.behind = ls := by rw [← ha, Place.all]; simp
        exact ⟨he, indentation_blank hn ha,
          .inr ⟨hout, hbehind (he ▸ List.sublist_append_right _ _)⟩⟩
      | none =>
        rw [hdecl] at h
        cases hhead : Place.nth? isHeader 0 ls with
        | some p =>
          rw [hhead] at h
          cases h
          have ha := Place.all_of_nth? hhead
          have he : p.before ++ [p.line] ++ p.behind = ls := by rw [← ha, Place.all]; simp
          exact ⟨he, defaultIndentation_blank,
            .inr ⟨hout, hbehind (he ▸ List.sublist_append_right _ _)⟩⟩
        | none =>
          rw [hhead] at h
          cases h
          exact ⟨List.append_nil ls, defaultIndentation_blank, .inr ⟨hout, rfl⟩⟩

end Edit

theorem messagesOf_append (xs ys : List Line) :
    messagesOf (xs ++ ys) = messagesOf xs ++ messagesOf ys := List.flatMap_append

theorem messagesOf_cons (l : Line) (ls : List Line) :
    messagesOf (l :: ls) = lineMessages l ++ messagesOf ls := List.flatMap_cons

/-- Around a message line there is exactly its one message. -/
theorem exists_messagesOf_all {p : Place} (h : ∀ l ∈ p.all, FaithfulLine l)
    (hk : holdsMessage p.line = true) :
    ∃ x, messagesOf p.all = messagesOf p.before ++ x :: messagesOf p.behind := by
  have hline : FaithfulLine p.line := h p.line (List.mem_append_right _ List.mem_cons_self)
  obtain ⟨x, hx⟩ := hline.exists_lineMessages hk
  refine ⟨x, ?_⟩
  rw [Place.all, messagesOf_append, messagesOf_cons, hx]
  rfl

namespace Edit

variable {ls : List Line} {index : Int} {m : Message}

private theorem update_spec (hm : m.Good) (hls : ∀ l ∈ ls, FaithfulLine l)
    (hn : ∀ l ∈ ls, '\n' ∉ l) :
    (∀ l ∈ (update index m).applyLines ls, FaithfulLine l ∧ '\n' ∉ l) ∧
      messagesOf ((update index m).applyLines ls) =
        (update index m).onMessages (messagesOf ls) := by
  rw [applyLines]
  cases hat : Place.at? holdsMessage index ls with
  | none =>
    have hout := Place.at?_eq_none_iff.mp hat
    rw [← FaithfulLine.length_messagesOf hls] at hout
    exact ⟨fun l hl => ⟨hls l hl, hn l hl⟩, by rw [onMessages, if_neg hout]⟩
  | some p =>
    obtain ⟨rfl, hk, hc⟩ := Place.spec_of_at? hat
    have hi := indentation_blank hn rfl
    have hbefore : ∀ l ∈ p.before, FaithfulLine l :=
      fun l hl => hls l (List.mem_append_left _ hl)
    obtain ⟨x, hx⟩ := exists_messagesOf_all hls hk
    refine ⟨?_, ?_⟩
    · intro l hl
      rcases List.mem_append.mp hl with hl | hl
      · exact ⟨hbefore l hl, hn l (List.mem_append_left _ hl)⟩
      rcases List.mem_cons.mp hl with rfl | hl
      · exact ⟨.of_good hm hi, by simpa [hm.newline] using fun hmem => (hi _ hmem).2 rfl⟩
      · have hl' := List.mem_append_right p.before (List.mem_cons_of_mem p.line hl)
        exact ⟨hls l hl', hn l hl'⟩
    · rw [messagesOf_append, messagesOf_cons, hm.lineMessages_indent hi, hx,
        onMessages_update (by rw [FaithfulLine.length_messagesOf hbefore, hc])]
      rfl

private theorem insert_spec (hm : m.Good) (hls : ∀ l ∈ ls, FaithfulLine l)
    (hn : ∀ l ∈ ls, '\n' ∉ l) :
    (∀ l ∈ (insert index m).applyLines ls, FaithfulLine l ∧ '\n' ∉ l) ∧
      messagesOf ((insert index m).applyLines ls) =
        (insert index m).onMessages (messagesOf ls) := by
  obtain ⟨before, indent, behind, hins⟩ :
      ∃ before indent behind, insertion index ls = (before, indent, behind) := ⟨_, _, _, rfl⟩
  obtain ⟨rfl, hi, hat⟩ := insertion_spec hn hins
  have hbefore : ∀ l ∈ before, FaithfulLine l := fun l hl => hls l (List.mem_append_left _ hl)
  have hbehind : ∀ l ∈ behind, FaithfulLine l := fun l hl => hls l (List.mem_append_right _ hl)
  simp only [applyLines, hins]
  refine ⟨?_, ?_⟩
  · intro l hl
    rcases List.mem_append.mp hl with hl | hl
    · exact ⟨hbefore l hl, hn l (List.mem_append_left _ hl)⟩
    rcases List.mem_cons.mp hl with rfl | hl
    · exact ⟨.of_good hm hi, by simpa [hm.newline] using fun hmem => (hi _ hmem).2 rfl⟩
    · exact ⟨hbehind l hl, hn l (List.mem_append_right _ hl)⟩
  · rw [messagesOf_append, messagesOf_cons, hm.lineMessages_indent hi, messagesOf_append]
    rcases hat with ⟨hc, hne⟩ | ⟨hout, hzero⟩
    · rw [onMessages_insert (by rw [FaithfulLine.length_messagesOf hbefore, hc])]
      · rfl
      · rw [← List.length_pos_iff, FaithfulLine.length_messagesOf hbehind]
        omega
    · have hnil : messagesOf behind = [] := by
        rw [← List.length_eq_zero_iff, FaithfulLine.length_messagesOf hbehind, hzero]
      rw [← FaithfulLine.length_messagesOf hls, messagesOf_append] at hout
      rw [onMessages, if_neg hout, hnil, List.append_nil, List.append_nil]

private theorem delete_spec (hls : ∀ l ∈ ls, FaithfulLine l) (hn : ∀ l ∈ ls, '\n' ∉ l) :
    (∀ l ∈ (delete index).applyLines ls, FaithfulLine l ∧ '\n' ∉ l) ∧
      messagesOf ((delete index).applyLines ls) = (delete index).onMessages (messagesOf ls) := by
  rw [applyLines]
  cases hat : Place.at? holdsMessage index ls with
  | none =>
    have hout := Place.at?_eq_none_iff.mp hat
    rw [← FaithfulLine.length_messagesOf hls] at hout
    exact ⟨fun l hl => ⟨hls l hl, hn l hl⟩, by rw [onMessages, if_neg hout]⟩
  | some p =>
    obtain ⟨rfl, hk, hc⟩ := Place.spec_of_at? hat
    have hbefore : ∀ l ∈ p.before, FaithfulLine l :=
      fun l hl => hls l (List.mem_append_left _ hl)
    obtain ⟨x, hx⟩ := exists_messagesOf_all hls hk
    refine ⟨?_, ?_⟩
    · intro l hl
      have hl' : l ∈ p.all := by
        rcases List.mem_append.mp hl with hl | hl
        · exact List.mem_append_left _ hl
        · exact List.mem_append_right _ (List.mem_cons_of_mem p.line hl)
      exact ⟨hls l hl', hn l hl'⟩
    · rw [messagesOf_append, hx,
        onMessages_delete (by rw [FaithfulLine.length_messagesOf hbefore, hc])]

/-- What an edit does to the lines of a source, it does to their messages; and every line is still
what it looks like, on a line of its own. -/
theorem applyLines_spec {e : Edit} (he : e.Good) (hls : ∀ l ∈ ls, FaithfulLine l)
    (hn : ∀ l ∈ ls, '\n' ∉ l) :
    (∀ l ∈ e.applyLines ls, FaithfulLine l ∧ '\n' ∉ l) ∧
      messagesOf (e.applyLines ls) = e.onMessages (messagesOf ls) := by
  cases e with
  | update index m => exact update_spec he hls hn
  | insert index m => exact insert_spec he hls hn
  | delete index => exact delete_spec hls hn

end Edit

/-- A source whose lines are what they look like is read, and its messages are those of its
lines. -/
theorem LineFaithful.readsAs {source : String} (h : LineFaithful source) :
    ReadsAs source.toList (messagesOf (lines source.toList)) := by
  have hlines : ∀ l ∈ lines source.toList, Source.Closed l ∧ ReadsAs l (lineMessages l) :=
    fun l hl => ⟨(h l hl).closed, (h l hl).readsAs⟩
  have hr := readsAs_unlines hlines
  rwa [unlines_lines] at hr

/-- One edit: the source stays what it looks like, and its messages are edited as a list. -/
theorem LineFaithful.apply {source : String} {e : Edit} (h : LineFaithful source) (he : e.Good) :
    LineFaithful (e.apply source) ∧
      messagesOf (lines (e.apply source).toList) =
        e.onMessages (messagesOf (lines source.toList)) := by
  obtain ⟨hls, hm⟩ := Edit.applyLines_spec he h fun l hl => not_mem_of_mem_lines hl
  have hn : ∀ l ∈ e.applyLines (lines source.toList), '\n' ∉ l := fun l hl => (hls l hl).2
  rw [Edit.apply, LineFaithful, String.toList_ofList]
  refine ⟨?_, ?_⟩
  · intro l hl
    rcases mem_lines_unlines hn hl with hl | rfl
    · exact (hls l hl).1
    · exact .nil
  · rw [← hm]
    by_cases hne : e.applyLines (lines source.toList) = []
    · rw [hne]
      exact congrArg (· ++ []) (lineMessages_eq readsAs_nil)
    · rw [lines_unlines hn hne]

/-- A run of edits: the source stays what it looks like, and its messages are edited as a list,
edit by edit. -/
theorem LineFaithful.run {source : String} {edits : List Edit} (h : LineFaithful source)
    (he : ∀ e ∈ edits, e.Good) :
    LineFaithful (Edit.run edits source) ∧
      messagesOf (lines (Edit.run edits source).toList) =
        edits.foldl (fun ms e => e.onMessages ms) (messagesOf (lines source.toList)) := by
  induction edits generalizing source with
  | nil => exact ⟨h, rfl⟩
  | cons e edits ih =>
    obtain ⟨hstep, hm⟩ := h.apply (he e List.mem_cons_self)
    obtain ⟨hrun, hms⟩ := ih hstep fun x hx => he x (List.mem_cons_of_mem e hx)
    exact ⟨hrun, by rw [Edit.run, List.foldl_cons, List.foldl_cons, ← hm]; exact hms⟩

/-- On a source whose lines are what they look like, any run of edits with good messages, whatever
their indices, edits the messages of the source as a list. At every point of the run the lines of
the source are what they look like, and the source is read with the messages that the list then
holds. -/
theorem edit_run_simulates_list {source : String} (h : LineFaithful source) {edits : List Edit}
    (he : ∀ e ∈ edits, e.Good) :
    ∃ d, parse source = .ok d ∧ ∀ k, LineFaithful (Edit.run (edits.take k) source) ∧
      ∃ d', parse (Edit.run (edits.take k) source) = .ok d' ∧
        d'.messages = (edits.take k).foldl (fun ms e => e.onMessages ms) d.messages := by
  obtain ⟨d, hd, hm⟩ := h.readsAs
  rw [String.ofList_toList] at hd
  refine ⟨d, hd, fun k => ?_⟩
  obtain ⟨hrun, hms⟩ := h.run fun e hx => he e (List.mem_of_mem_take hx)
  obtain ⟨d', hd', hm'⟩ := hrun.readsAs
  rw [String.ofList_toList] at hd'
  exact ⟨hrun, d', hd', by rw [hm', hms, hm]⟩

/-- A source with a header, a declaration, a comment behind a message and an arrow in quotes. -/
def sampleSource : String :=
  "sequenceDiagram\n  participant A\n  A->>B: hi %% greeting\n\tB-->>A: \"a->b\""

/-- A run that adds a message behind the last one, replaces the first one, misses a message that
does not exist, and removes the second one. -/
def sampleEdits : List Edit :=
  [.insert (-1) ⟨"B", "C", ⟨.solid, .filled⟩, "on", { timeout := some "5s" }⟩,
    .update 0 ⟨"A", "C", ⟨.dashed, .stroked⟩, "", { flows := ["x", "y"] }⟩, .delete 7, .delete 1]

/-- The sample run is one of good messages on a source whose lines are what they look like. -/
theorem edit_run_simulates_list_sample :
    LineFaithful sampleSource ∧ (∀ e ∈ sampleEdits, e.Good) ∧
      ∃ d, parse sampleSource = .ok d ∧
        ∀ k, LineFaithful (Edit.run (sampleEdits.take k) sampleSource) ∧
          ∃ d', parse (Edit.run (sampleEdits.take k) sampleSource) = .ok d' ∧
            d'.messages = (sampleEdits.take k).foldl (fun ms e => e.onMessages ms) d.messages :=
  have hs : LineFaithful sampleSource := by decide +kernel
  have he : ∀ e ∈ sampleEdits, e.Good := by decide +kernel
  ⟨hs, he, edit_run_simulates_list hs he⟩

end Lifeline
