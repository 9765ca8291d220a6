import Lifeline.Parse
import Lifeline.Proofs.Scan.Continuation
import Lifeline.Proofs.Script.LineBreak
import Lifeline.Proofs.Text.Lines

/-!
# Reading a source line by line

When no line of a source leaves anything open, the source is read exactly when
each of its lines is, and its messages are the messages of its lines, in order.
An indentation changes nothing about a line.
-/

namespace Lifeline

open Text

/-- The text is a source that can be read, and these are its messages. -/
def ReadsAs (s : List Char) (messages : List Message) : Prop :=
  ∃ d, parse (String.ofList s) = .ok d ∧ d.messages = messages

instance (s : List Char) (messages : List Message) : Decidable (ReadsAs s messages) :=
  match h : parse (String.ofList s) with
  | .ok d => decidable_of_iff (d.messages = messages) (by simp [ReadsAs, h])
  | .error _ => .isFalse (by simp [ReadsAs, h])

/-- A source is read if it has tokens and they have no fault; its messages are theirs. -/
theorem readsAs_iff {s : List Char} {messages : List Message} :
    ReadsAs s messages ↔ ∃ ts, Source.tokens s = .ok ts ∧
      (Script.ofTokens ts).fault = none ∧ (Script.ofTokens ts).messages = messages := by
  have hparse : parse (String.ofList s) = Source.tokens s >>= Diagram.ofTokens := by
    rw [parse, tokenize, String.toList_ofList]
  rw [ReadsAs, hparse]
  cases Source.tokens s with
  | error e => simp [bind, Except.bind]
  | ok ts =>
    simp only [bind, Except.bind, Diagram.ofTokens]
    cases hf : (Script.ofTokens ts).fault with
    | some f => simp [hf]
    | none =>
      constructor
      · rintro ⟨d, hd, rfl⟩
        cases hd
        exact ⟨ts, rfl, hf, rfl⟩
      · rintro ⟨us, hu, -, rfl⟩
        cases hu
        exact ⟨_, rfl, rfl⟩

/-- There is only one way to read a source. -/
theorem ReadsAs.unique {s : List Char} {xs ys : List Message} (hx : ReadsAs s xs)
    (hy : ReadsAs s ys) : xs = ys := by
  obtain ⟨d, hd, rfl⟩ := hx
  obtain ⟨e, he, rfl⟩ := hy
  rw [Except.ok.inj (hd.symm.trans he)]

/-- The empty source has no messages. -/
theorem readsAs_nil : ReadsAs [] [] := by
  refine readsAs_iff.mpr ⟨[], ?_, ?_, ?_⟩
  · rw [Source.tokens, Source.lexemes, Source.pieces_nil]
    rfl
  · rw [Script.ofTokens_nil]
  · rw [Script.messages, Script.ofTokens_nil]
    rfl

/-- A closed line and the source behind it are read one after the other. -/
theorem ReadsAs.append_newline {a b : List Char} {xs ys : List Message} (ha : Source.Closed a)
    (hx : ReadsAs a xs) (hy : ReadsAs b ys) : ReadsAs (a ++ '\n' :: b) (xs ++ ys) := by
  obtain ⟨ts, hts, hft, rfl⟩ := readsAs_iff.mp hx
  obtain ⟨us, hus, hfu, rfl⟩ := readsAs_iff.mp hy
  have htokens : Source.tokens (a ++ '\n' :: b) = .ok (ts ++ .newline :: us) := by
    rw [Source.tokens_append_newline ha, hts, hus]
    rfl
  refine readsAs_iff.mpr ⟨_, htokens, ?_, ?_⟩
  · rw [Script.ofTokens_append_newline us hft]
    exact hfu
  · rw [Script.messages, Script.ofTokens_append_newline us hft, List.filterMap_append]
    rfl

/-- A source with a closed first line is read only if this line and the source behind it are. -/
theorem ReadsAs.of_append_newline {a b : List Char} {messages : List Message}
    (ha : Source.Closed a) (h : ReadsAs (a ++ '\n' :: b) messages) :
    ∃ xs ys, ReadsAs a xs ∧ ReadsAs b ys ∧ messages = xs ++ ys := by
  obtain ⟨all, hall, hfault, -⟩ := readsAs_iff.mp h
  rw [Source.tokens_append_newline ha] at hall
  cases hts : Source.tokens a with
  | error e => rw [hts] at hall; cases hall
  | ok ts =>
    cases hus : Source.tokens b with
    | error e => rw [hts, hus] at hall; cases hall
    | ok us =>
      rw [hts, hus] at hall
      cases hall
      have hft := Script.fault_of_append_newline hfault
      rw [Script.ofTokens_append_newline us hft] at hfault
      have hx : ReadsAs a (Script.ofTokens ts).messages := readsAs_iff.mpr ⟨ts, hts, hft, rfl⟩
      have hy : ReadsAs b (Script.ofTokens us).messages := readsAs_iff.mpr ⟨us, hus, hfault, rfl⟩
      exact ⟨_, _, hx, hy, h.unique (hx.append_newline ha hy)⟩

/-- An indentation is not read. -/
theorem readsAs_indent {indent : List Char} (hi : ∀ c ∈ indent, isBlank c = true ∧ c ≠ '\n')
    {s : List Char} {messages : List Message} :
    ReadsAs (indent ++ s) messages ↔ ReadsAs s messages := by
  rw [readsAs_iff, readsAs_iff, Source.tokens, Source.lexemes_indent hi, Source.tokens]

/-- The messages of closed lines are the messages of the source that they make. -/
theorem readsAs_unlines {ls : List Line} {messages : Line → List Message}
    (h : ∀ l ∈ ls, Source.Closed l ∧ ReadsAs l (messages l)) :
    ReadsAs (unlines ls) (ls.flatMap messages) := by
  induction ls with
  | nil => exact readsAs_nil
  | cons l ls ih =>
    obtain ⟨hc, hr⟩ := h l List.mem_cons_self
    by_cases hne : ls = []
    · subst hne
      rw [List.flatMap_singleton]
      exact hr
    · rw [unlines_cons l hne, List.flatMap_cons]
      exact hr.append_newline hc (ih fun x hx => h x (List.mem_cons_of_mem l hx))

end Lifeline
