import Lifeline.Proofs.Degradations

/-!
# The legend of flows

A flow can be written on one line of its own: its id, its display name in quotes, and
its color behind a space. Every flow that is read from a directive, however it was
written there, is read from that line as well, because each part of it is found again
in its own text.
-/

namespace Lifeline

open Text

/-- The text is a color: hexadecimal digits behind `#`, a call of `rgb` or `rgba` that may lack its
closing bracket, or a word. -/
inductive IsColor : List Char → Prop
  | hex {digits : List Char} (h : ∀ c ∈ digits, (hexValue? c).isSome = true) :
    IsColor ('#' :: digits)
  | call {function inside close : List Char}
    (hfunction : function = ['r', 'g', 'b', '('] ∨ function = ['r', 'g', 'b', 'a', '('])
    (hbracket : ')' ∉ inside) (hline : '\n' ∉ inside) (hclose : close = [')'] ∨ close = []) :
    IsColor (function ++ (inside ++ close))
  | word {letters : List Char} (hne : letters ≠ []) (h : ∀ c ∈ letters, c.isAlpha = true) :
    IsColor letters

namespace Flow

/-- The flow can be written on a line: its id is a word, its name does not end early, and its color,
if it has one, is a color. -/
structure Writable (f : Flow) : Prop where
  id_ne : f.id.toList ≠ []
  id_letters : ∀ c ∈ f.id.toList, isWordChar c = true
  name_quote : '"' ∉ f.displayName.toList
  name_line : '\n' ∉ f.displayName.toList
  color : ∀ color ∈ f.color, IsColor color.toList

/-- The characters behind the name of a flow. -/
def colorChars (f : Flow) : List Char :=
  match f.color with
  | some color => ' ' :: color.toList
  | none => []

/-- The characters of the line of a flow behind its mark and the gap. -/
def lineChars (f : Flow) : List Char :=
  f.id.toList ++ ' ' :: '"' :: (f.displayName.toList ++ '"' :: f.colorChars)

/-- The line that declares a flow. -/
def line (f : Flow) : String :=
  "%%flow " ++ f.id ++ " \"" ++ f.displayName ++ "\"" ++ (f.color.map (" " ++ ·)).getD ""

theorem toList_line (f : Flow) : f.line.toList = Directive.flowMark ++ ([' '] ++ f.lineChars) := by
  obtain ⟨id, name, color⟩ := f
  cases color <;> simp [line, lineChars, colorChars, Directive.flowMark]

end Flow

namespace Directive

variable {function s out inside rest text : List Char}

private theorem callColor?_append {close : List Char} (hbracket : ')' ∉ inside)
    (hclose : close = [')'] ∨ close = []) :
    callColor? function (function ++ (inside ++ close)) = some (function ++ (inside ++ close)) := by
  rw [callColor?, after?_eq_some_iff.mpr rfl, Option.map_some]
  rcases hclose with rfl | rfl
  · rw [cut_of_not_mem hbracket]
    simp
  · rw [List.append_nil, cut_eq_none_iff_not_mem.mpr hbracket]

/-- A call that is found runs to its closing bracket or to the end. -/
theorem of_callColor? (h : callColor? function s = some out) :
    ∃ inside close, out = function ++ (inside ++ close) ∧ (∀ c ∈ inside, c ∈ s) ∧ ')' ∉ inside ∧
      (close = [')'] ∨ close = []) := by
  obtain ⟨arguments, hs, ho⟩ := Option.map_eq_some_iff.mp h
  obtain rfl := after?_eq_some_iff.mp hs
  cases hcut : cut [')'] arguments with
  | some p =>
    obtain ⟨inside, rest⟩ := p
    rw [hcut] at ho
    have hmem : ∀ c ∈ inside, c ∈ function ++ arguments := fun c hc => by
      rw [← cut_append hcut]
      simp [hc]
    obtain rfl := ho
    exact ⟨inside, [')'], List.append_assoc _ _ _, hmem, not_mem_of_cut hcut, .inl rfl⟩
  | none =>
    rw [hcut] at ho
    obtain rfl := ho
    exact ⟨arguments, [], by rw [List.append_nil], fun c hc => List.mem_append_right _ hc,
      cut_eq_none_iff_not_mem.mp hcut, .inr rfl⟩

private theorem callColor?_of_letters (h : ∀ c ∈ s, c.isAlpha = true) (hf : '(' ∈ function) :
    callColor? function s = none := by
  rw [callColor?, Option.map_eq_none_iff, Option.eq_none_iff_forall_ne_some]
  intro rest hrest
  have hmem : '(' ∈ s := by
    rw [after?_eq_some_iff.mp hrest]
    exact List.mem_append_left _ hf
  exact absurd (h _ hmem) (by decide)

/-- A text that does not start with `#` is a call or a word. -/
theorem color?_of_head (h : s.head? ≠ some '#') :
    color? s = (callColor? ['r', 'g', 'b', '('] s).or
      ((callColor? ['r', 'g', 'b', 'a', '('] s).or (wordColor? s)) := by
  rw [color?]
  rintro s rfl
  exact h rfl

/-- A color is found in its own text. -/
theorem color?_of_isColor (h : IsColor s) : color? s = some s := by
  cases h with
  | hex h => rw [color?, List.takeWhile_eq_self_iff.mpr h]
  | call hfunction hbracket hline hclose =>
    rcases hfunction with rfl | rfl
    · rw [color?_of_head (by simp), callColor?_append hbracket hclose, Option.some_or]
    · have hshort (a : List Char) :
          callColor? ['r', 'g', 'b', '('] (['r', 'g', 'b', 'a', '('] ++ a) = none := rfl
      rw [color?_of_head (by simp), hshort, Option.none_or, callColor?_append hbracket hclose,
        Option.some_or]
  | word hne h =>
    have hhead : s.head? ≠ some '#' := fun hs =>
      absurd (h _ (List.mem_of_mem_head? hs)) (by decide)
    rw [color?_of_head hhead, callColor?_of_letters h (by simp), callColor?_of_letters h (by simp),
      Option.none_or, Option.none_or, wordColor?, List.takeWhile_eq_self_iff.mpr h]
    exact if_neg (by simpa using hne)

/-- What is found on a line is a color. -/
theorem isColor_of_color? (hs : '\n' ∉ s) (h : color? s = some out) : IsColor out := by
  have hcall {function : List Char}
      (hf : function = ['r', 'g', 'b', '('] ∨ function = ['r', 'g', 'b', 'a', '('])
      (hc : callColor? function s = some out) : IsColor out := by
    obtain ⟨inside, close, rfl, hmem, hbracket, hclose⟩ := of_callColor? hc
    exact .call hf hbracket (fun hn => hs (hmem _ hn)) hclose
  by_cases hhead : s.head? = some '#'
  · obtain ⟨s, rfl⟩ := List.head?_eq_some_iff.mp hhead
    obtain rfl := Option.some.inj h
    exact .hex fun c hc => List.mem_takeWhile_imp (p := fun c => (hexValue? c).isSome) hc
  · rw [color?_of_head hhead, Option.or_eq_some_iff, Option.or_eq_some_iff] at h
    rcases h with hc | ⟨-, hc | ⟨-, hw⟩⟩
    · exact hcall (.inl rfl) hc
    · exact hcall (.inr rfl) hc
    · rw [wordColor?] at hw
      split at hw
      · cases hw
      · next hne =>
        cases hw
        exact .word (by simpa using hne) fun c hc => List.mem_takeWhile_imp hc

/-- No color starts with a gap. -/
theorem skipGap_of_isColor (h : IsColor s) : skipGap s = s := by
  refine dropWhile_eq_self_of_head fun c hc => ?_
  cases h with
  | hex => cases hc; rfl
  | call hfunction =>
    rcases hfunction with rfl | rfl
    · cases hc; rfl
    · cases hc; rfl
  | word _ h =>
    have hletter := h c (List.mem_of_mem_head? hc)
    rw [Bool.or_eq_false_iff, beq_eq_false_iff_ne, beq_eq_false_iff_ne]
    exact ⟨by rintro rfl; simp at hletter, by rintro rfl; simp at hletter⟩

/-- A color keeps to one line. -/
theorem newline_not_mem_of_isColor (h : IsColor s) : '\n' ∉ s := by
  intro hn
  cases h with
  | hex h =>
    rcases List.mem_cons.mp hn with hn | hn
    · exact absurd hn (by decide)
    · exact absurd (h _ hn) (by decide)
  | call hfunction _ hline hclose =>
    rcases hfunction with rfl | rfl <;> rcases hclose with rfl | rfl <;> simp [hline] at hn
  | word _ h => exact absurd (h _ hn) (by decide)

variable {id name : List Char} {f : Flow}

/-- A name is found in its quotes, with the text behind the gap that follows. -/
theorem displayName_quoted (id : List Char) (h : '"' ∉ name) (rest : List Char) :
    displayName id ('"' :: (name ++ '"' :: rest)) = (name, skipGap rest) := by
  rw [displayName, cut_of_not_mem h]

theorem mem_of_mem_skipGap {c : Char} (h : c ∈ skipGap s) : c ∈ s :=
  (List.dropWhile_sublist _).subset h

/-- A name that is found on a line holds no quote; name and text behind it keep to the line. -/
theorem of_displayName (hid : ∀ c ∈ id, isWordChar c = true) (hs : '\n' ∉ s)
    (h : displayName id s = (name, rest)) : '"' ∉ name ∧ '\n' ∉ name ∧ '\n' ∉ rest := by
  rw [displayName.eq_def] at h
  split at h
  · next s =>
    have hline : '\n' ∉ s := fun hn => hs (List.mem_cons_of_mem _ hn)
    cases hcut : cut ['"'] s with
    | some p =>
      obtain ⟨before, behind⟩ := p
      rw [hcut] at h
      obtain ⟨rfl, rfl⟩ := Prod.mk.inj h
      rw [← cut_append hcut, List.append_assoc, List.mem_append, List.mem_append] at hline
      exact ⟨not_mem_of_cut hcut, fun hn => hline (.inl hn),
        fun hn => hline (.inr (.inr (mem_of_mem_skipGap hn)))⟩
    | none =>
      rw [hcut] at h
      obtain ⟨rfl, rfl⟩ := Prod.mk.inj h
      exact ⟨cut_eq_none_iff_not_mem.mp hcut, hline, List.not_mem_nil⟩
  · obtain ⟨rfl, rfl⟩ := Prod.mk.inj h
    exact ⟨fun hq => absurd (hid _ hq) (by decide), fun hn => absurd (hid _ hn) (by decide), hs⟩

/-- A flow that is read can be written. -/
theorem writable_of_readFlow (h : readFlow text = .flow f) : f.Writable := by
  have hline : '\n' ∉ skipGap ((text.takeWhile (· != '\n')).drop 6) := fun hn =>
    absurd (List.mem_takeWhile_imp (List.mem_of_mem_drop (mem_of_mem_skipGap hn))) (by decide)
  rw [readFlow] at h
  generalize skipGap ((text.takeWhile (· != '\n')).drop 6) = s at hline h
  dsimp only at h
  split at h
  · cases h
  · next hne =>
    have hid : ∀ c ∈ s.takeWhile isWordChar, isWordChar c = true := fun c hc =>
      List.mem_takeWhile_imp hc
    have hbehind : '\n' ∉ skipGap (s.dropWhile isWordChar) := fun hn =>
      hline ((List.dropWhile_sublist _).subset (mem_of_mem_skipGap hn))
    cases hname : displayName (s.takeWhile isWordChar) (skipGap (s.dropWhile isWordChar)) with
    | mk name rest =>
      obtain ⟨hquote, hnewline, hrest⟩ := of_displayName hid hbehind hname
      rw [hname] at h
      cases h
      refine ⟨?_, ?_, ?_, ?_, fun color hcolor => ?_⟩
      · rwa [String.toList_ofList, Ne, ← List.isEmpty_iff]
      · rwa [String.toList_ofList]
      · rwa [String.toList_ofList]
      · rwa [String.toList_ofList]
      · obtain ⟨out, hout, rfl⟩ := Option.map_eq_some_iff.mp hcolor
        rw [String.toList_ofList]
        exact isColor_of_color? hrest hout

private theorem readMetadata_ne_flow : readMetadata text ≠ .ok (.flow f) := by
  intro h
  rw [readMetadata] at h
  split at h
  · cases h
  · dsimp only at h
    split at h
    · rw [readObject] at h
      split at h <;> cases h
    · cases h

/-- A flow that is read from a directive can be written. -/
theorem writable_of_read (h : read text = .ok (.flow f)) : f.Writable := by
  rw [read] at h
  split at h
  · exact absurd h readMetadata_ne_flow
  · split at h
    · exact writable_of_readFlow (Except.ok.inj h)
    · cases h

end Directive

namespace Flow

variable {f : Flow}

/-- The line of a flow is one line. -/
theorem Writable.newline (h : f.Writable) : '\n' ∉ f.lineChars := by
  have hid : '\n' ∉ f.id.toList := fun hn => absurd (h.id_letters _ hn) (by decide)
  have hcolor : '\n' ∉ f.colorChars := by
    rw [colorChars]
    split
    · next color hc =>
      have := Directive.newline_not_mem_of_isColor (h.color color hc)
      simpa using this
    · exact List.not_mem_nil
  simp [lineChars, hid, h.name_line, hcolor]

/-- The color of a flow is found behind its gap. -/
theorem Writable.color? (h : f.Writable) :
    (Directive.color? (Directive.skipGap f.colorChars)).map String.ofList = f.color := by
  rw [colorChars]
  cases hc : f.color with
  | none => rfl
  | some color =>
    have hcolor := h.color color hc
    have hgap : Directive.skipGap (' ' :: color.toList) = Directive.skipGap color.toList := rfl
    dsimp only
    rw [hgap, Directive.skipGap_of_isColor hcolor, Directive.color?_of_isColor hcolor,
      Option.map_some, String.ofList_toList]

/-- Its id stands directly behind the gap. -/
theorem Writable.head (h : f.Writable) : ∀ d ∈ f.lineChars.head?, d ≠ ' ' ∧ d ≠ '\t' := by
  obtain ⟨c, letters, hid⟩ := List.exists_cons_of_ne_nil h.id_ne
  have hletter : isWordChar c = true := h.id_letters c (by rw [hid]; exact List.mem_cons_self)
  rw [lineChars, hid]
  rintro d ⟨⟩
  constructor
  · rintro rfl
    exact absurd hletter (by decide)
  · rintro rfl
    exact absurd hletter (by decide)

/-- The parts of a flow are found on its line one after the other. -/
theorem Writable.readFlow (h : f.Writable) : Directive.readFlow f.line.toList = .flow f := by
  have hline : Directive.skipGap ((f.line.toList.takeWhile (· != '\n')).drop 6) = f.lineChars := by
    rw [toList_line, Directive.skipGap_of_flow (by simp) h.head,
      takeWhile_of_newline_not_mem h.newline]
  -- The id ends at the gap in front of the name, and the name at its second quote.
  have hgap (s : List Char) : ∀ d ∈ (' ' :: s).head?, isWordChar d = false := by
    rintro d ⟨⟩
    rfl
  have hquote (s : List Char) : Directive.skipGap (' ' :: '"' :: s) = '"' :: s := rfl
  rw [Directive.readFlow, hline, lineChars, takeWhile_append_eq h.id_letters (hgap _),
    dropWhile_append_eq h.id_letters (hgap _), hquote,
    Directive.displayName_quoted _ h.name_quote]
  dsimp only
  rw [if_neg (by simpa using h.id_ne), h.color?, String.ofList_toList, String.ofList_toList]

/-- A flow is read back from its line. -/
theorem Writable.read (h : f.Writable) : Directive.read f.line.toList = .ok (.flow f) := by
  have hflow : Directive.isFlow f.line.toList = true := by
    rw [toList_line]
    exact Directive.isFlow_iff.mpr ⟨[' '], f.lineChars, rfl, by simp, by simp, h.head⟩
  have hbrace : ¬['%', '%', '\x7b'].isPrefixOf f.line.toList = true := by
    rw [toList_line]
    exact Bool.false_ne_true
  rw [Directive.read, if_neg hbrace, if_pos hflow, h.readFlow]

/-- The line of a flow is one token. -/
theorem Writable.tokenize (h : f.Writable) : Lifeline.tokenize f.line = .ok [.flow f] := by
  obtain ⟨note, hnote⟩ : ∃ note, note = ['f', 'l', 'o', 'w', ' '] ++ f.lineChars := ⟨_, rfl⟩
  have htext : f.line.toList = (Lexeme.lineDirective note).text := by
    rw [toList_line, hnote]
    rfl
  have hnewline : '\n' ∉ note := by simp [hnote, h.newline]
  have hbrace : ¬['\x7b'] <+: note := by
    rw [hnote]
    rintro ⟨rest, hrest⟩
    cases hrest
  have htokens := Source.tokens_lineDirective (b := []) hnewline hbrace (by simp) (htext ▸ h.read)
  rw [Lifeline.tokenize, htext, ← List.append_nil (Lexeme.text _), htokens, Source.tokens,
    Source.lexemes_nil]
  rfl

end Flow

/-- A flow that can be written is the one token of its line. Every flow that is read from a
directive, however it is written there, can be written, and it is read back from its line. -/
theorem flow_line_round_trip :
    (∀ f : Flow, f.Writable → tokenize f.line = .ok [.flow f]) ∧
      ∀ (text : List Char) (f : Flow), Directive.read text = .ok (.flow f) →
        f.Writable ∧ Directive.read f.line.toList = .ok (.flow f) := by
  refine ⟨fun f h => h.tokenize, fun text f h => ?_⟩
  have hwritable := Directive.writable_of_read h
  exact ⟨hwritable, hwritable.read⟩

/-- A flow with colors in its name, and the name of a function as its color. -/
def loudFlow : Flow := ⟨"retry_2", "#fff rgb(1, 2)", some "rgba"⟩

/-- A flow that is declared without a name, and with a bracket that is left open. -/
def openFlow : Flow := ⟨"retry", "retry", some "rgb(1, 2 "⟩

/-- The one flow is read from its line, and the other one is read from its line again. -/
theorem flow_line_round_trip_sample :
    tokenize "%%flow retry_2 \"#fff rgb(1, 2)\" rgba" = .ok [.flow loudFlow] ∧
      Directive.read "%%flow\t retry rgb(1, 2 \nred".toList = .ok (.flow openFlow) ∧
      Directive.read "%%flow retry \"retry\" rgb(1, 2 ".toList = .ok (.flow openFlow) := by
  have hword : ∀ c ∈ ['r', 'g', 'b', 'a'], c.isAlpha = true := List.all_eq_true.mp (by decide)
  have hwritable : loudFlow.Writable :=
    { id_ne := by decide +kernel
      id_letters := List.all_eq_true.mp (by decide +kernel)
      name_quote := by decide +kernel
      name_line := by decide +kernel
      color := by
        rintro color ⟨⟩
        exact .word (by decide +kernel) hword }
  have hread : Directive.read "%%flow\t retry rgb(1, 2 \nred".toList = .ok (.flow openFlow) := by
    decide +kernel
  exact ⟨flow_line_round_trip.1 loudFlow hwritable, hread,
    (flow_line_round_trip.2 _ openFlow hread).2⟩

end Lifeline
