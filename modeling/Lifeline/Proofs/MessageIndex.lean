import Lifeline.Proofs.LineRecognition
import Lifeline.Proofs.Scan.LineNumbers
import Mathlib.Data.List.Count

/-!
# Two ways of counting messages

An editor counts the lines that look like message lines; a reader counts the
messages that it reads. The two agree exactly if every line that looks like a
message line starts one message and no other line starts any. Where no line leaves
anything open this can be told from each line by itself, and where arrows only stand
between two names at the front of a line it can be told from how the lines start.
-/

namespace Lifeline

open Text

namespace Source

/-- For each message that is read from a source, in order, the line on which it starts. -/
def messageLines (s : List Char) : List Nat :=
  match tokens s with
  | .ok ts => (Script.messagePlaces ts).filterMap ((lineNumbers s)[·]?)
  | .error _ => []

/-- The line numbers of the messages of tokens. -/
theorem messageLines_of_tokens {s : List Char} {ts : List Token} (h : tokens s = .ok ts) :
    messageLines s = (Script.messagePlaces ts).filterMap ((lineNumbers s)[·]?) := by
  rw [messageLines, h]

theorem length_lineNumbers_of_tokens {s : List Char} {ts : List Token} (h : tokens s = .ok ts) :
    (lineNumbers s).length = ts.length := by
  rw [length_lineNumbers, length_tokens h]

/-- Every message starts on a line. -/
theorem length_messageLines {s : List Char} {messages : List Message} (h : ReadsAs s messages) :
    (messageLines s).length = messages.length := by
  obtain ⟨ts, hts, -, rfl⟩ := readsAs_iff.mp h
  rw [messageLines_of_tokens hts, ← Script.length_messagePlaces, List.filterMap_length_eq_length]
  intro i hi
  have hlt := Script.lt_of_mem_messagePlaces hi
  rw [← length_lineNumbers_of_tokens hts] at hlt
  rw [List.getElem?_eq_getElem hlt]
  rfl

/-- The lines of messages never go back. -/
theorem pairwise_messageLines (s : List Char) : (messageLines s).Pairwise (· ≤ ·) := by
  rw [messageLines]
  cases tokens s with
  | error e => exact List.Pairwise.nil
  | ok ts =>
    refine List.pairwise_filterMap.mpr ((Script.pairwise_messagePlaces ts).imp ?_)
    intro i j hij m hm n hn
    obtain ⟨hi, rfl⟩ := List.getElem?_eq_some_iff.mp hm
    obtain ⟨hj, rfl⟩ := List.getElem?_eq_some_iff.mp hn
    exact List.pairwise_iff_getElem.mp (pairwise_lineNumbers s) i j hi hj hij

/-- Messages start on lines of the source. -/
theorem lt_of_mem_messageLines {s : List Char} {n : Nat} (h : n ∈ messageLines s) :
    n < (lines s).length := by
  rw [messageLines] at h
  cases ht : tokens s with
  | error e => rw [ht] at h; cases h
  | ok ts =>
    rw [ht] at h
    obtain ⟨i, -, hi⟩ := List.mem_filterMap.mp h
    exact lt_of_mem_lineNumbers (List.mem_of_getElem? hi)

/-- The messages behind a closed line start one line further down than by themselves. -/
theorem messageLines_append_newline {a b : List Char} {xs ys : List Message} (hc : Closed a)
    (ha : '\n' ∉ a) (hx : ReadsAs a xs) (hy : ReadsAs b ys) :
    messageLines (a ++ '\n' :: b) = messageLines a ++ (messageLines b).map (· + 1) := by
  obtain ⟨ts, hts, hft, -⟩ := readsAs_iff.mp hx
  obtain ⟨us, hus, -, -⟩ := readsAs_iff.mp hy
  have htokens : tokens (a ++ '\n' :: b) = .ok (ts ++ .newline :: us) := by
    rw [tokens_append_newline hc, hts, hus]
    rfl
  have hlength := length_lineNumbers_of_tokens hts
  rw [messageLines_of_tokens htokens, Script.messagePlaces_append_newline us hft,
    List.filterMap_append, messageLines_of_tokens hts, messageLines_of_tokens hus,
    lineNumbers_append_newline hc ha, List.filterMap_map, List.map_filterMap]
  congr 1
  · refine List.filterMap_congr fun i hi => ?_
    have hlt := Script.lt_of_mem_messagePlaces hi
    rw [List.getElem?_append_left (by omega)]
  · refine List.filterMap_congr fun i _ => ?_
    have hplace : ts.length + 1 + i - ts.length = i + 1 := by omega
    rw [Function.comp_apply, List.getElem?_append_right (by omega), hlength, hplace,
      List.getElem?_cons_succ, List.getElem?_map]

/-- The messages of a single line start on it. -/
theorem eq_zero_of_mem_messageLines {l : Line} (hl : '\n' ∉ l) {n : Nat}
    (h : n ∈ messageLines l) : n = 0 := by
  have hlt := lt_of_mem_messageLines h
  rw [lines, divide_of_not_mem hl, List.length_singleton] at hlt
  omega

/-- So their number is the number of messages. -/
theorem count_messageLines_of_line {l : Line} (hl : '\n' ∉ l) {messages : List Message}
    (h : ReadsAs l messages) : (messageLines l).count 0 = messages.length := by
  rw [← length_messageLines h, List.count_eq_length]
  intro n hn
  exact (eq_zero_of_mem_messageLines hl hn).symm

/-- As many messages start on a closed line of a source as the line has by itself. -/
theorem count_messageLines_unlines {ls : List Line} {messages : Line → List Message}
    (h : ∀ l ∈ ls, '\n' ∉ l ∧ Closed l ∧ ReadsAs l (messages l)) {j : Nat} {l : Line}
    (hj : ls[j]? = some l) : (messageLines (unlines ls)).count j = (messages l).length := by
  induction ls generalizing j with
  | nil => cases hj
  | cons first ls ih =>
    obtain ⟨hn, hc, hr⟩ := h first List.mem_cons_self
    have hrest := fun x hx => h x (List.mem_cons_of_mem first hx)
    by_cases hne : ls = []
    · subst hne
      obtain ⟨rfl, rfl⟩ : j = 0 ∧ first = l := by
        cases j with
        | zero => exact ⟨rfl, Option.some.inj hj⟩
        | succ j => cases hj
      exact count_messageLines_of_line hn hr
    · have hbehind := readsAs_unlines fun x hx => (hrest x hx).2
      rw [unlines_cons first hne, messageLines_append_newline hc hn hr hbehind, List.count_append]
      cases j with
      | zero =>
        have hzero : ((messageLines (unlines ls)).map (· + 1)).count 0 = 0 :=
          List.count_eq_zero.mpr (by simp)
        rw [count_messageLines_of_line hn hr, hzero, Option.some.inj hj, Nat.add_zero]
      | succ j =>
        have hfirst : (messageLines first).count (j + 1) = 0 := by
          refine List.count_eq_zero.mpr fun hm => ?_
          exact Nat.succ_ne_zero j (eq_zero_of_mem_messageLines hn hm)
        rw [hfirst, List.count_map_of_injective _ _ (Nat.succ_injective), Nat.zero_add]
        exact ih hrest hj

end Source

/-- A closed source is read only if each of its lines is. -/
theorem readsAs_of_mem_lines {ls : List Line} (hc : ∀ l ∈ ls, Source.Closed l)
    {messages : List Message} (h : ReadsAs (unlines ls) messages) {l : Line} (hl : l ∈ ls) :
    ∃ xs, ReadsAs l xs := by
  induction ls generalizing messages with
  | nil => cases hl
  | cons first ls ih =>
    by_cases hne : ls = []
    · subst hne
      rw [List.mem_singleton.mp hl]
      exact ⟨messages, h⟩
    · rw [unlines_cons first hne] at h
      obtain ⟨xs, ys, hx, hy, -⟩ := h.of_append_newline (hc first List.mem_cons_self)
      rcases List.mem_cons.mp hl with rfl | hl
      · exact ⟨xs, hx⟩
      · exact ih (fun x hx => hc x (List.mem_cons_of_mem first hx)) hy hl

/-- The numbers of the lines that look like message lines. -/
def editorLines (s : List Char) : List Nat := (lines s).findIdxs holdsMessage

/-- As many lines look like message lines as there are messages, and for every `k` the `k`-th of
these lines is the one on which the `k`-th message starts. -/
def IndicesAgree (s : List Char) (messages : List Message) : Prop :=
  (editorLines s).length = messages.length ∧
    ∀ k < messages.length, (editorLines s)[k]? = (Source.messageLines s)[k]?

instance (s : List Char) (messages : List Message) : Decidable (IndicesAgree s messages) :=
  inferInstanceAs (Decidable (_ ∧ _))

private theorem count_editorLines {s : List Char} {j : Nat} {l : Line}
    (hj : (lines s)[j]? = some l) :
    (editorLines s).count j = if holdsMessage l then 1 else 0 := by
  obtain ⟨hlt, rfl⟩ := List.getElem?_eq_some_iff.mp hj
  rw [editorLines, List.Nodup.count List.nodup_findIdxs]
  simp only [List.mem_findIdxs_iff_pos_getElem hlt]

/-- The indices agree if the two lists of line numbers are the same. -/
theorem indicesAgree_iff_eq {s : List Char} {messages : List Message} (h : ReadsAs s messages) :
    IndicesAgree s messages ↔ editorLines s = Source.messageLines s := by
  have hlength := Source.length_messageLines h
  constructor
  · rintro ⟨hl, hk⟩
    apply List.ext_getElem?
    intro k
    by_cases hlt : k < messages.length
    · exact hk k hlt
    · rw [List.getElem?_eq_none (by omega), List.getElem?_eq_none (by omega)]
  · intro he
    exact ⟨by rw [he, hlength], fun k _ => by rw [he]⟩

/-- The indices agree if every line that looks like a message line starts one message, and no other
line starts any. -/
theorem indicesAgree_iff_count {s : List Char} {messages : List Message}
    (h : ReadsAs s messages) : IndicesAgree s messages ↔ ∀ j l, (lines s)[j]? = some l →
      (Source.messageLines s).count j = if holdsMessage l then 1 else 0 := by
  rw [indicesAgree_iff_eq h]
  constructor
  · intro he j l hj
    rw [← he, count_editorLines hj]
  · intro hcount
    have hperm : (editorLines s).Perm (Source.messageLines s) := by
      rw [List.perm_iff_count]
      intro j
      cases hj : (lines s)[j]? with
      | some l => rw [count_editorLines hj, hcount j l hj]
      | none =>
        have hout := List.getElem?_eq_none_iff.mp hj
        have hn : j ∉ editorLines s := fun hm => by
          have := List.lt_add_of_mem_findIdxs j hm
          omega
        have hm : j ∉ Source.messageLines s := fun hm => by
          have := Source.lt_of_mem_messageLines hm
          omega
        rw [List.count_eq_zero.mpr hn, List.count_eq_zero.mpr hm]
    -- Neither list goes back, so they cannot differ in the order of their numbers.
    have hpairwise : (editorLines s).Pairwise (· ≤ ·) := List.pairwise_findIdxs.imp Nat.le_of_lt
    exact hperm.eq_of_pairwise (fun i j _ _ => Nat.le_antisymm) hpairwise
      (Source.pairwise_messageLines s)

/-- On a closed source the indices agree if every line is what it looks like. -/
theorem indicesAgree_iff_faithful {s : List Char} (hc : ∀ l ∈ lines s, Source.Closed l)
    {messages : List Message} (h : ReadsAs s messages) :
    IndicesAgree s messages ↔ ∀ l ∈ lines s, FaithfulLine l := by
  have hread : ∀ l ∈ lines s, ReadsAs l (lineMessages l) := by
    intro l hl
    rw [← unlines_lines s] at h
    obtain ⟨xs, hx⟩ := readsAs_of_mem_lines hc h hl
    rwa [lineMessages_eq hx]
  have hcount {j : Nat} {l : Line} (hj : (lines s)[j]? = some l) :
      (Source.messageLines s).count j = (lineMessages l).length := by
    have hlines : ∀ l ∈ lines s, '\n' ∉ l ∧ Source.Closed l ∧ ReadsAs l (lineMessages l) :=
      fun l hl => ⟨not_mem_of_mem_lines hl, hc l hl, hread l hl⟩
    rw [← Source.count_messageLines_unlines hlines hj, unlines_lines]
  rw [indicesAgree_iff_count h]
  constructor
  · intro hall l hl
    obtain ⟨j, hj⟩ := List.mem_iff_getElem?.mp hl
    obtain ⟨d, hd, hm⟩ := hread l hl
    exact ⟨hc l hl, d, hd, by rw [hm, ← hcount hj, hall j l hj]⟩
  · intro hall j l hj
    rw [hcount hj, (hall l (List.mem_of_getElem? hj)).length_lineMessages]

/-- The indices agree exactly if every line that looks like a message line starts one message and
no other line starts any; where no line leaves anything open, this says that every line is what it
looks like. -/
theorem indicesAgree_iff {source : String} {d : Diagram} (h : parse source = .ok d) :
    (IndicesAgree source.toList d.messages ↔
      ∀ j l, (lines source.toList)[j]? = some l →
        (Source.messageLines source.toList).count j = if holdsMessage l then 1 else 0) ∧
    ((∀ l ∈ lines source.toList, Source.Closed l) →
      (IndicesAgree source.toList d.messages ↔ LineFaithful source)) := by
  have hread : ReadsAs source.toList d.messages := ⟨d, by rwa [String.ofList_toList], rfl⟩
  exact ⟨indicesAgree_iff_count hread, fun hc => indicesAgree_iff_faithful hc hread⟩

/-- On the sample source of edit runs the indices agree. -/
theorem indicesAgree_iff_sample :
    ∃ d, parse sampleSource = .ok d ∧ (∀ l ∈ lines sampleSource.toList, Source.Closed l) ∧
      IndicesAgree sampleSource.toList d.messages := by
  have hs : LineFaithful sampleSource := by decide +kernel
  have hc : ∀ l ∈ lines sampleSource.toList, Source.Closed l := fun l hl => (hs l hl).closed
  obtain ⟨d, hd, -⟩ := hs.readsAs
  rw [String.ofList_toList] at hd
  exact ⟨d, hd, hc, ((indicesAgree_iff hd).2 hc).mpr hs⟩

/-- A message behind two slashes is read, but its line does not look like a message line. -/
theorem not_indicesAgree_slashes :
    ∃ d, parse "// A->B: hi" = .ok d ∧ ¬IndicesAgree "// A->B: hi".toList d.messages := by
  obtain ⟨d, hd, hm⟩ : ReadsAs "// A->B: hi".toList
      [⟨"A", "B", ⟨.solid, .stroked⟩, "hi", {}⟩] := by decide +kernel
  rw [String.ofList_toList] at hd
  refine ⟨d, hd, ?_⟩
  rw [hm]
  decide +kernel

/-- A line in which an arrow can only stand between two names at its front. -/
inductive PlainLine : Line → Prop
  | other {l : Line} (h : ¬['-', '>'] <:+: l) : PlainLine l
  | message {indent rest : List Char} {source target : String} (a : Arrow)
      (hi : ∀ c ∈ indent, isBlank c = true ∧ c ≠ '\n') (hs : IsName source) (ht : IsName target)
      (hends : ∀ c ∈ rest.head?, isWordChar c = false) (hrest : ¬['-', '>'] <:+: rest) :
      PlainLine (indent ++ (source.toList ++ (a.chars ++ (target.toList ++ rest))))

private theorem infix_of_arrow_mem {s : List Char} {ts : List Token}
    (hts : Source.tokens s = .ok ts) {literal : String} (h : .arrow literal ∈ ts) :
    ['-', '>'] <:+: s := by
  obtain ⟨l, hl, hlt⟩ := Source.exists_lexeme_of_mem hts h
  obtain ⟨a, rfl⟩ := Source.arrow_of_token hlt
  exact a.infix_chars.trans (Source.text_infix_of_mem hl)

namespace Script

variable {ts : List Token}

/-- Tokens without an arrow are read without a message. -/
theorem messages_of_no_arrow (h : ∀ literal, .arrow literal ∉ ts) :
    (ofTokens ts).messages = [] := by
  refine List.eq_nil_iff_forall_not_mem.mpr fun m hm => ?_
  obtain ⟨⟨i, arrow, behind, hd⟩, -⟩ := exists_ends_of_mem_messages hm
  have hmem : .arrow arrow ∈ ts.drop i := by
    rw [hd]
    simp
  exact h arrow (List.mem_of_mem_drop hmem)

private theorem length_messages_names (source arrow target : String)
    (h : ∀ literal, .arrow literal ∉ ts) :
    (ofTokens (.identifier source :: .arrow arrow :: .identifier target :: ts)).messages.length =
      1 := by
  have hrest := Statement.rest_readMessage_suffix source arrow target ts
  have hnone := messages_of_no_arrow fun literal hmem => h literal (hrest.subset hmem)
  rw [ofTokens_cons]
  exact congrArg (·.length + 1) hnone

end Script

namespace PlainLine

variable {l : Line} {messages : List Message}

theorem infix_message {indent source target rest : List Char} (a : Arrow) :
    ['-', '>'] <:+: indent ++ (source ++ (a.chars ++ (target ++ rest))) :=
  a.infix_chars.trans ⟨indent ++ source, target ++ rest, by simp⟩

/-- A plain line looks like a message line exactly if it has an arrow and does not start as another
statement does. -/
theorem holdsMessage_iff (h : PlainLine l) : holdsMessage l = true ↔
    ['-', '>'] <:+: l ∧ startsWithAny statementWords (trim l) = false := by
  cases h with
  | other h =>
    have hno : occurs ['-', '>'] (trim l) = false := by
      rw [Bool.eq_false_iff]
      exact fun ho => h ((occurs_iff.mp ho).trans (infix_trim l))
    simp [holdsMessage, isMessageLine, hno, h]
  | @message indent rest source target a hi hs ht hends hrest =>
    have htrimmed := hs.trimmed.append ht.trimmed hs.ne_nil ht.ne_nil a.chars
    obtain ⟨t, htrim⟩ := htrimmed.prefix_trim (by simp [hs.ne_nil]) rest
    simp only [List.append_assoc] at htrim
    rw [holdsMessage, trim_append_of_blank fun c hc => (hi c hc).1, ← htrim,
      hs.isMessageLine_arrow, Bool.not_eq_true',
      and_iff_right (infix_message a)]

/-- A plain line is read as one message if it has an arrow, and as none otherwise. -/
theorem length_messages (h : PlainLine l) (hr : ReadsAs l messages) :
    messages.length = if occurs ['-', '>'] l then 1 else 0 := by
  obtain ⟨ts, hts, -, rfl⟩ := readsAs_iff.mp hr
  cases h with
  | other h =>
    rw [if_neg (h ∘ occurs_iff.mp), List.length_eq_zero_iff]
    exact Script.messages_of_no_arrow fun literal hm => h (infix_of_arrow_mem hts hm)
  | @message indent rest source target a hi hs ht hends hrest =>
    rw [Source.tokens, Source.lexemes_indent hi, Source.lexemes_names hs ht a hends,
      List.mapM_cons, hs.token, List.mapM_cons, List.mapM_cons, ht.token, ← Source.tokens] at hts
    cases hus : Source.tokens rest with
    | error e =>
      rw [hus] at hts
      cases hts
    | ok us =>
      rw [hus] at hts
      cases hts
      rw [if_pos (occurs_iff.mpr (infix_message a))]
      exact Script.length_messages_names _ _ _ fun literal hm => hrest (infix_of_arrow_mem hus hm)

/-- A plain line is what it looks like unless it has an arrow and starts as another statement
does. -/
theorem faithfulLine_iff (h : PlainLine l) (hc : Source.Closed l) (hr : ReadsAs l messages) :
    FaithfulLine l ↔ (['-', '>'] <:+: l → startsWithAny statementWords (trim l) = false) := by
  have hfaithful : FaithfulLine l ↔ messages.length = if holdsMessage l then 1 else 0 := by
    constructor
    · intro hl
      rw [← lineMessages_eq hr, hl.length_lineMessages]
    · obtain ⟨d, hd, rfl⟩ := hr
      exact fun hl => ⟨hc, d, hd, hl⟩
  have hlooks := h.holdsMessage_iff
  rw [hfaithful, h.length_messages hr]
  by_cases ha : ['-', '>'] <:+: l
  · rw [and_iff_right ha] at hlooks
    rw [if_pos (occurs_iff.mpr ha), forall_prop_of_true ha, ← hlooks]
    cases holdsMessage l <;> decide
  · have hno : holdsMessage l = false := Bool.eq_false_iff.mpr fun hm => ha (hlooks.mp hm).1
    rw [if_neg (ha ∘ occurs_iff.mp), hno]
    exact ⟨fun _ hin => absurd hin ha, fun _ => rfl⟩

end PlainLine

/-- Where no line leaves anything open and all are plain, the indices agree exactly if no line with
an arrow starts as another statement does. -/
theorem indicesAgree_iff_of_plain {source : String} {d : Diagram} (h : parse source = .ok d)
    (hc : ∀ l ∈ lines source.toList, Source.Closed l)
    (hp : ∀ l ∈ lines source.toList, PlainLine l) :
    IndicesAgree source.toList d.messages ↔ ∀ l ∈ lines source.toList,
      ['-', '>'] <:+: l → startsWithAny statementWords (trim l) = false := by
  have hread : ReadsAs source.toList d.messages := ⟨d, by rwa [String.ofList_toList], rfl⟩
  rw [indicesAgree_iff_faithful hc hread]
  refine forall₂_congr fun l hl => ?_
  have hlines := hread
  rw [← unlines_lines source.toList] at hlines
  obtain ⟨messages, hl'⟩ := readsAs_of_mem_lines hc hlines hl
  exact (hp l hl).faithfulLine_iff (hc l hl) hl'

end Lifeline
