import Lifeline.Proofs.FlowLegend

/-!
# Flows that are left open

The quote of a flow's name and the bracket of its color need not be closed. What is
left open runs to the end of the text, so a carriage return that is added there goes
into the name or into the color. No other directive that runs to the end of its line
is read otherwise for the sake of a carriage return.
-/

namespace Lifeline

open Text

/-- The second flow is the first one with a carriage return at the end of its name or of its
color. -/
inductive Flow.TakesReturn : Flow → Flow → Prop
  | name {f : Flow} : TakesReturn f { f with displayName := f.displayName ++ "\r" }
  | color {f : Flow} {color : String} (h : f.color = some color) :
    TakesReturn f { f with color := some (color ++ "\r") }

/-- Such flows are different. -/
theorem Flow.TakesReturn.ne {f g : Flow} (h : f.TakesReturn g) : g ≠ f := by
  have hlonger (s : String) : s ++ "\r" ≠ s := fun he => by
    simpa using congrArg String.length he
  intro he
  cases h with
  | name => exact hlonger _ (congrArg Flow.displayName he)
  | color hcolor =>
    have hsome := congrArg Flow.color he
    rw [hcolor] at hsome
    exact hlonger _ (Option.some.inj hsome)

namespace Directive

/-- The text consists of spaces and tabs. -/
def IsGap (s : List Char) : Prop := ∀ c ∈ s, c = ' ' ∨ c = '\t'

/-- A call of `rgb` or `rgba` that is not closed. -/
inductive OpensCall : List Char → Prop
  | mk {function inside : List Char}
    (hfunction : function = ['r', 'g', 'b', '('] ∨ function = ['r', 'g', 'b', 'a', '('])
    (hbracket : ')' ∉ inside) (hline : '\n' ∉ inside) : OpensCall (function ++ inside)

/-- What stands behind the id of a flow is left open: the quote of its name, or the bracket of its
color, with or without a name in front. -/
inductive EndsOpen : List Char → Prop
  | name {gap name : List Char} (hgap : IsGap gap) (hquote : '"' ∉ name) (hline : '\n' ∉ name) :
    EndsOpen (gap ++ '"' :: name)
  | color {gap call : List Char} (hgap : IsGap gap) (hne : gap ≠ []) (hcall : OpensCall call) :
    EndsOpen (gap ++ call)
  | colorBehindName {gap name between call : List Char} (hgap : IsGap gap) (hquote : '"' ∉ name)
    (hline : '\n' ∉ name) (hbetween : IsGap between) (hcall : OpensCall call) :
    EndsOpen (gap ++ '"' :: (name ++ '"' :: (between ++ call)))

/-- A declaration of a flow that leaves its name or its color open. -/
inductive LeavesOpen : List Char → Prop
  | mk {gap id rest : List Char} (hgap : IsGap gap) (hne : gap ≠ []) (hid : id ≠ [])
    (hletters : ∀ c ∈ id, isWordChar c = true) (hopen : EndsOpen rest) :
    LeavesOpen (flowMark ++ (gap ++ (id ++ rest)))

variable {s gap name between call id rest behind text : List Char}

theorem parted_return : Parted ['\r'] := parted_cons.mpr rfl

/-- What the longer text starts with is what the text starts with, or the carriage return. -/
theorem mem_head?_concat_return {c : Char} (h : c ∈ (s ++ ['\r']).head?) :
    c ∈ s.head? ∨ c = '\r' := by
  cases s with
  | nil => exact .inr (Option.some.inj h).symm
  | cons d s => exact .inl h

/-- So the longer text continues no word if the text continues none. -/
theorem isWordChar_head?_concat_return (h : ∀ c ∈ s.head?, isWordChar c = false) :
    ∀ c ∈ (s ++ ['\r']).head?, isWordChar c = false := by
  intro c hc
  rcases mem_head?_concat_return hc with hc | rfl
  · exact h c hc
  · rfl

theorem skipGap_append (hgap : IsGap gap) (s : List Char) : skipGap (gap ++ s) = skipGap s :=
  List.dropWhile_append_of_pos fun c hc => by simpa using hgap c hc

private theorem skipGap_concat_return (s : List Char) :
    skipGap (s ++ ['\r']) = skipGap s ++ ['\r'] :=
  dropWhile_append_of_head (by rintro c ⟨⟩; rfl)

private theorem exists_gap (s : List Char) : ∃ gap, IsGap gap ∧ gap ++ skipGap s = s :=
  ⟨_, fun c hc => by simpa using List.mem_takeWhile_imp hc, List.takeWhile_append_dropWhile⟩

namespace OpensCall

theorem head? (h : OpensCall call) : call.head? = some 'r' := by
  obtain ⟨rfl | rfl, -, -⟩ := h <;> rfl

/-- A call that is left open is a color. -/
theorem isColor (h : OpensCall call) : IsColor call := by
  obtain ⟨hfunction, hbracket, hline⟩ := h
  simpa using IsColor.call hfunction hbracket hline (.inr rfl)

/-- It is left open with a carriage return behind it. -/
theorem concat_return (h : OpensCall call) : OpensCall (call ++ ['\r']) := by
  obtain ⟨hfunction, hbracket, hline⟩ := h
  rw [List.append_assoc]
  exact .mk hfunction (by simpa using hbracket) (by simpa using hline)

end OpensCall

/-- A call is found with the same arguments, unless it is left open. -/
theorem callColor?_concat_return {function : List Char}
    (hfunction : function = ['r', 'g', 'b', '('] ∨ function = ['r', 'g', 'b', 'a', '('])
    (hs : '\n' ∉ s) : callColor? function (s ++ ['\r']) = callColor? function s ∨ OpensCall s := by
  have hbreak : ∀ c ∈ function, isBreak c = false := by
    rcases hfunction with rfl | rfl <;> simp [isBreak]
  rw [callColor?, callColor?, after?_append_of_parted hbreak parted_return]
  cases hafter : after? function s with
  | none => exact .inl rfl
  | some arguments =>
    obtain rfl := after?_eq_some_iff.mp hafter
    cases hcut : cut [')'] arguments with
    | some p =>
      refine .inl ?_
      rw [Option.map_some, Option.map_some, Option.map_some, cut_append_of_some hcut, hcut]
    | none =>
      exact .inr (.mk hfunction (cut_eq_none_iff_not_mem.mp hcut)
        fun hn => hs (List.mem_append_right _ hn))

/-- A color is the same, unless it is a call that is left open. -/
theorem color?_concat_return (hs : '\n' ∉ s) : color? (s ++ ['\r']) = color? s ∨ OpensCall s := by
  by_cases hhead : s.head? = some '#'
  · obtain ⟨digits, rfl⟩ := List.head?_eq_some_iff.mp hhead
    refine .inl ?_
    rw [List.cons_append, color?, color?, takeWhile_append_of_head (by rintro c ⟨⟩; rfl)]
  · have hhead' : (s ++ ['\r']).head? ≠ some '#' := fun hs =>
      (mem_head?_concat_return hs).elim hhead (by decide)
    have hword : wordColor? (s ++ ['\r']) = wordColor? s := by
      rw [wordColor?, wordColor?, takeWhile_append_of_head (by rintro c ⟨⟩; rfl)]
    rw [color?_of_head hhead, color?_of_head hhead', hword]
    rcases callColor?_concat_return (.inl rfl) hs with hrgb | hopen
    · rcases callColor?_concat_return (.inr rfl) hs with hrgba | hopen
      · exact .inl (by rw [hrgb, hrgba])
      · exact .inr hopen
    · exact .inr hopen

/-- Where no quote stands, the name is the id. -/
theorem displayName_of_head (h : s.head? ≠ some '"') : displayName id s = (id, s) := by
  rw [displayName]
  rintro s rfl
  exact h rfl

/-- The flow with this id that is read from what stands behind the id. -/
def flowOf (id rest : List Char) : Flow where
  id := String.ofList id
  displayName := String.ofList (displayName id (skipGap rest)).1
  color := (color? (displayName id (skipGap rest)).2).map String.ofList

/-- A declaration with an id declares the flow behind it. -/
theorem readFlow_eq_flowOf (hgap : IsGap gap) (hid : id ≠ [])
    (hletters : ∀ c ∈ id, isWordChar c = true) (hrest : ∀ c ∈ rest.head?, isWordChar c = false)
    (hline : '\n' ∉ rest) :
    readFlow (flowMark ++ (gap ++ (id ++ rest))) = .flow (flowOf id rest) := by
  have hnewline : '\n' ∉ id ++ rest := by
    rw [List.mem_append, not_or]
    exact ⟨fun hn => absurd (hletters _ hn) (by decide), hline⟩
  have hhead : ∀ c ∈ (id ++ rest).head?, c ≠ ' ' ∧ c ≠ '\t' := by
    obtain ⟨c, id, rfl⟩ := List.exists_cons_of_ne_nil hid
    have hletter := hletters c List.mem_cons_self
    rintro d ⟨⟩
    constructor <;> rintro rfl <;> cases hletter
  rw [readFlow, skipGap_of_flow hgap hhead, takeWhile_of_newline_not_mem hnewline]
  dsimp only
  rw [takeWhile_append_eq hletters hrest, dropWhile_append_eq hletters hrest,
    if_neg (by simpa using hid)]
  rfl

private theorem flowOf_openName (id : List Char) (hgap : IsGap gap) (hquote : '"' ∉ name) :
    flowOf id (gap ++ '"' :: name) = ⟨String.ofList id, String.ofList name, none⟩ := by
  have hskip : skipGap ('"' :: name) = '"' :: name := rfl
  have hname : displayName id ('"' :: name) = (name, []) := by
    rw [displayName, cut_eq_none_iff_not_mem.mpr hquote]
  rw [flowOf, skipGap_append hgap, hskip, hname]
  rfl

private theorem flowOf_openCall (id : List Char) (hgap : IsGap gap) (hcall : OpensCall call) :
    flowOf id (gap ++ call) =
      ⟨String.ofList id, String.ofList id, some (String.ofList call)⟩ := by
  have hname : displayName id call = (id, call) :=
    displayName_of_head (by rw [hcall.head?]; decide)
  rw [flowOf, skipGap_append hgap, skipGap_of_isColor hcall.isColor, hname,
    color?_of_isColor hcall.isColor]
  rfl

private theorem flowOf_name_openCall (id : List Char) (hgap : IsGap gap) (hquote : '"' ∉ name)
    (hbetween : IsGap between) (hcall : OpensCall call) :
    flowOf id (gap ++ '"' :: (name ++ '"' :: (between ++ call))) =
      ⟨String.ofList id, String.ofList name, some (String.ofList call)⟩ := by
  have hskip (s : List Char) : skipGap ('"' :: s) = '"' :: s := rfl
  rw [flowOf, skipGap_append hgap, hskip, displayName_quoted id hquote, skipGap_append hbetween,
    skipGap_of_isColor hcall.isColor, color?_of_isColor hcall.isColor]
  rfl

/-- What is left open takes in the carriage return. -/
theorem EndsOpen.takesReturn (h : EndsOpen rest) (id : List Char) :
    (flowOf id rest).TakesReturn (flowOf id (rest ++ ['\r'])) := by
  have hconcat (s : List Char) : String.ofList (s ++ ['\r']) = String.ofList s ++ "\r" :=
    String.ofList_append
  cases h with
  | name hgap hquote =>
    rw [List.append_assoc, List.cons_append, flowOf_openName id hgap hquote,
      flowOf_openName id hgap (by simpa using hquote), hconcat]
    exact .name
  | color hgap hne hcall =>
    rw [List.append_assoc, flowOf_openCall id hgap hcall,
      flowOf_openCall id hgap hcall.concat_return, hconcat]
    exact .color rfl
  | colorBehindName hgap hquote hline hbetween hcall =>
    simp only [List.append_assoc, List.cons_append]
    rw [flowOf_name_openCall id hgap hquote hbetween hcall,
      flowOf_name_openCall id hgap hquote hbetween hcall.concat_return, hconcat]
    exact .color rfl

/-- A flow is the same with a carriage return behind it, unless it is left open. -/
theorem flowOf_concat_return (id : List Char) (hrest : ∀ c ∈ rest.head?, isWordChar c = false)
    (hline : '\n' ∉ rest) : flowOf id (rest ++ ['\r']) = flowOf id rest ∨ EndsOpen rest := by
  obtain ⟨gap, hgap, hbehind⟩ := exists_gap rest
  have hskipped : '\n' ∉ skipGap rest := fun hn => hline (mem_of_mem_skipGap hn)
  rw [flowOf, flowOf, skipGap_concat_return]
  by_cases hhead : (skipGap rest).head? = some '"'
  · obtain ⟨s, hs⟩ := List.head?_eq_some_iff.mp hhead
    rw [hs] at hbehind hskipped ⊢
    rw [List.mem_cons, not_or] at hskipped
    cases hcut : cut ['"'] s with
    | none =>
      rw [← hbehind]
      exact .inr (.name hgap (cut_eq_none_iff_not_mem.mp hcut) hskipped.2)
    | some p =>
      obtain ⟨name, after⟩ := p
      have hname : displayName id ('"' :: s) = (name, skipGap after) := by
        rw [displayName, hcut]
      have hname' : displayName id ('"' :: s ++ ['\r']) = (name, skipGap after ++ ['\r']) := by
        rw [List.cons_append, displayName, cut_append_of_some hcut]
        exact congrArg (name, ·) (skipGap_concat_return after)
      have happend := cut_append hcut
      rw [List.append_assoc, List.singleton_append] at happend
      rw [← happend, List.mem_append, not_or, List.mem_cons, not_or] at hskipped
      have hafter : '\n' ∉ skipGap after := fun hn => hskipped.2.2.2 (mem_of_mem_skipGap hn)
      rw [hname, hname']
      rcases color?_concat_return hafter with hcolor | hcall
      · exact .inl (by rw [hcolor])
      · obtain ⟨between, hbetween, hsplit⟩ := exists_gap after
        rw [← hbehind, ← happend, ← hsplit]
        exact .inr (.colorBehindName hgap (not_mem_of_cut hcut) hskipped.2.1 hbetween hcall)
  · have hhead' : (skipGap rest ++ ['\r']).head? ≠ some '"' := fun hs =>
      (mem_head?_concat_return hs).elim hhead (by decide)
    rw [displayName_of_head hhead, displayName_of_head hhead']
    rcases color?_concat_return hskipped with hcolor | hcall
    · exact .inl (by rw [hcolor])
    · refine .inr (hbehind ▸ .color hgap ?_ hcall)
      -- Without a gap the name of the function would go on with the id.
      rintro rfl
      rw [← hbehind] at hrest
      exact absurd (hrest 'r' hcall.head?) (by decide)

/-- What is left open behind an id does not continue it. -/
theorem EndsOpen.head (h : EndsOpen rest) : ∀ c ∈ rest.head?, isWordChar c = false := by
  have hgaps {gap s : List Char} (hgap : IsGap gap) (hne : gap ≠ []) :
      ∀ c ∈ (gap ++ s).head?, isWordChar c = false := by
    obtain ⟨d, gap, rfl⟩ := List.exists_cons_of_ne_nil hne
    rintro c ⟨⟩
    rcases hgap d List.mem_cons_self with rfl | rfl <;> rfl
  have hquotes {gap s : List Char} (hgap : IsGap gap) :
      ∀ c ∈ (gap ++ '"' :: s).head?, isWordChar c = false := by
    by_cases hne : gap = []
    · subst hne
      rintro c ⟨⟩
      rfl
    · exact hgaps hgap hne
  cases h with
  | name hgap => exact hquotes hgap
  | color hgap hne => exact hgaps hgap hne
  | colorBehindName hgap => exact hquotes hgap

/-- What is left open keeps to one line. -/
theorem EndsOpen.newline (h : EndsOpen rest) : '\n' ∉ rest := by
  have hgaps {gap : List Char} (hgap : IsGap gap) : '\n' ∉ gap := fun hn => by
    rcases hgap _ hn with hn | hn <;> cases hn
  cases h with
  | name hgap hquote hline => simp [hgaps hgap, hline]
  | color hgap hne hcall => simp [hgaps hgap, newline_not_mem_of_isColor hcall.isColor]
  | colorBehindName hgap hquote hline hbetween hcall =>
    simp [hgaps hgap, hgaps hbetween, hline, newline_not_mem_of_isColor hcall.isColor]

/-- A declaration that leaves something open starts like any other. -/
theorem LeavesOpen.exists_text (h : LeavesOpen text) : ∃ s, text = '%' :: '%' :: 'f' :: s := by
  obtain ⟨⟩ := h
  exact ⟨_, rfl⟩

/-- A declaration that leaves something open takes in the carriage return. -/
theorem LeavesOpen.read (h : LeavesOpen text) :
    ∃ f g, Directive.read text = .ok (.flow f) ∧ Directive.read (text ++ ['\r']) = .ok (.flow g) ∧
      f.TakesReturn g := by
  obtain @⟨gap, id, rest, hgap, hne, hid, hletters, hopen⟩ := h
  have hread {rest : List Char} (hrest : ∀ c ∈ rest.head?, isWordChar c = false)
      (hline : '\n' ∉ rest) :
      Directive.read (flowMark ++ (gap ++ (id ++ rest))) = .ok (.flow (flowOf id rest)) := by
    have hflow : isFlow (flowMark ++ (gap ++ (id ++ rest))) = true := by
      obtain ⟨c, gap, rfl⟩ := List.exists_cons_of_ne_nil hne
      rcases hgap c List.mem_cons_self with rfl | rfl <;> rfl
    have hbrace : ¬['%', '%', '\x7b'].isPrefixOf (flowMark ++ (gap ++ (id ++ rest))) = true :=
      Bool.false_ne_true
    rw [Directive.read, if_neg hbrace, if_pos hflow,
      readFlow_eq_flowOf hgap hid hletters hrest hline]
  refine ⟨_, _, hread hopen.head hopen.newline, ?_, hopen.takesReturn id⟩
  simp only [List.append_assoc]
  exact hread (isWordChar_head?_concat_return hopen.head) (by simp [hopen.newline])

/-- So the carriage return makes a difference. -/
theorem LeavesOpen.read_ne (h : LeavesOpen text) :
    Directive.read (text ++ ['\r']) ≠ Directive.read text := by
  obtain ⟨f, g, hf, hg, hreturn⟩ := h.read
  rw [hf, hg]
  intro he
  cases he
  exact hreturn.ne rfl

private theorem isFlow_concat_return (text : List Char) :
    isFlow (text ++ ['\r']) = isFlow text := by
  have hmark : ∀ c ∈ ['%', '%', 'f', 'l', 'o', 'w'], isBreak c = false := by simp [isBreak]
  rw [isFlow, isFlow, after?_append_of_parted hmark parted_return]
  cases after? ['%', '%', 'f', 'l', 'o', 'w'] text with
  | none => rfl
  | some s => cases s <;> rfl

/-- A declaration of a flow is read as the same flow or comment, unless it leaves something open. -/
theorem readFlow_concat_return (hflow : isFlow text = true) (hline : '\n' ∉ text) :
    readFlow (text ++ ['\r']) = readFlow text ∨ LeavesOpen text := by
  obtain ⟨gap, behind, rfl, hne, hgap, hbehind⟩ := isFlow_iff.mp hflow
  have hnewline : '\n' ∉ behind := fun hn =>
    hline (List.mem_append_right _ (List.mem_append_right _ hn))
  by_cases hid : behind.takeWhile isWordChar = []
  · -- There is no id, and the carriage return is trimmed.
    have hbehind' : ∀ c ∈ (behind ++ ['\r']).head?, c ≠ ' ' ∧ c ≠ '\t' := by
      intro c hc
      rcases mem_head?_concat_return hc with hc | rfl
      · exact hbehind c hc
      · decide
    have hblank : ∀ c ∈ ['\r'], isBlank c = true := List.forall_mem_singleton.mpr rfl
    have hnewline' : '\n' ∉ behind ++ ['\r'] := by simpa using hnewline
    refine .inl ?_
    rw [List.append_assoc, List.append_assoc, readFlow, readFlow, skipGap_of_flow hgap hbehind,
      skipGap_of_flow hgap hbehind', takeWhile_of_newline_not_mem hnewline,
      takeWhile_of_newline_not_mem hnewline']
    dsimp only
    rw [takeWhile_append_of_head parted_return.isWordChar, hid, trim_append_blanks behind hblank]
    rfl
  · have hletters : ∀ c ∈ behind.takeWhile isWordChar, isWordChar c = true := fun c hc =>
      List.mem_takeWhile_imp hc
    have hrest : ∀ c ∈ (behind.dropWhile isWordChar).head?, isWordChar c = false := fun c hc =>
      head?_dropWhile_eq_false hc
    have hdropped : '\n' ∉ behind.dropWhile isWordChar := fun hn =>
      hnewline ((List.dropWhile_sublist _).subset hn)
    rw [← List.takeWhile_append_dropWhile (p := isWordChar) (l := behind)]
    generalize behind.dropWhile isWordChar = rest at hrest hdropped ⊢
    rcases flowOf_concat_return (behind.takeWhile isWordChar) hrest hdropped with hsame | hopen
    · refine .inl ?_
      simp only [List.append_assoc]
      rw [readFlow_eq_flowOf hgap hid hletters hrest hdropped,
        readFlow_eq_flowOf hgap hid hletters (isWordChar_head?_concat_return hrest)
          (by simp [hdropped]), hsame]
    · exact .inr (.mk hgap hne hid hletters hopen)

/-- A directive on one line that is not in braces is read as before with a carriage return behind
it, unless it leaves the name or the color of a flow open. -/
theorem read_concat_return (hline : '\n' ∉ text)
    (hbraces : ∀ body, text ≠ (Lexeme.blockDirective body).text) :
    read (text ++ ['\r']) = read text ∨ LeavesOpen text := by
  have hcomment : commentText (text ++ ['\r']) = commentText text := by
    rw [commentText, commentText, List.drop_append]
    refine congrArg String.ofList (trim_append_blanks _ fun c hc => ?_)
    obtain rfl := List.mem_singleton.mp (List.mem_of_mem_drop hc)
    rfl
  by_cases hstart : ['%', '%', '\x7b'] <+: text
  · have hbraces' (body : List Char) : text ++ ['\r'] ≠ (Lexeme.blockDirective body).text := by
      intro he
      have hlast := congrArg List.getLast? he
      rw [List.getLast?_concat, Lexeme.text, List.getLast?_append] at hlast
      cases hlast
    have hstart' : ['%', '%', '\x7b'] <+: text ++ ['\r'] :=
      hstart.trans (List.prefix_append _ _)
    exact .inl (by rw [read_of_no_body hstart hbraces, read_of_no_body hstart' hbraces', hcomment])
  · have hbrace : ¬['%', '%', '\x7b'].isPrefixOf text = true :=
      List.isPrefixOf_iff_prefix.not.mpr hstart
    have hbrace' : ¬['%', '%', '\x7b'].isPrefixOf (text ++ ['\r']) = true := by
      rwa [isPrefixOf_append_of_parted (by simp [isBreak]) parted_return]
    rw [read, read, if_neg hbrace, if_neg hbrace', isFlow_concat_return, hcomment]
    split
    · next hflow =>
      exact (readFlow_concat_return hflow hline).imp_left (congrArg Except.ok)
    · exact .inl rfl

end Directive

end Lifeline
