import Lifeline.Proofs.BracketBalance
import Lifeline.Proofs.Scan.Continuation
import Mathlib.Data.List.Infix

/-!
# Marks that close a lexeme

A scanned lexeme is closed exactly if its own characters hold the mark that closes
it: quoted text a second quote, a value the bracket at which its depth returns to
zero, a directive in braces the mark that ends it. What is not closed has been
searched for its mark up to the end of the source.
-/

namespace Lifeline

namespace Text

variable {mark s before behind : List Char}

/-- A mark is found exactly if it stands somewhere in the text. -/
theorem cut_eq_none_iff : cut mark s = none ↔ ¬mark <:+: s := by
  induction s with
  | nil => simp [cut, List.infix_nil, List.isEmpty_iff]
  | cons c s ih =>
    rw [cut, List.infix_cons_iff, ← List.isPrefixOf_iff_prefix]
    split
    · next hp => simp [hp]
    · next hp => simp [hp, ih]

/-- Before the first occurrence of a character there is no other. -/
theorem not_mem_of_cut {c : Char} (h : cut [c] s = some (before, behind)) : c ∉ before := by
  induction s generalizing before with
  | nil => simp [cut] at h
  | cons d s ih =>
    rw [cut] at h
    split at h
    · cases h
      exact List.not_mem_nil
    · next hp =>
      obtain ⟨⟨x, y⟩, hx, he⟩ := Option.map_eq_some_iff.mp h
      cases he
      intro hmem
      rcases List.mem_cons.mp hmem with rfl | hmem
      · simp at hp
      · exact ih hx hmem

/-- A text is cut at its first occurrence of a character. -/
theorem cut_of_not_mem {c : Char} (h : c ∉ before) (behind : List Char) :
    cut [c] (before ++ c :: behind) = some (before, behind) := by
  induction before with
  | nil => simp [cut]
  | cons d before ih =>
    rw [List.mem_cons, not_or] at h
    rw [List.cons_append, cut, if_neg (by simpa using h.1), ih h.2]
    rfl

theorem cut_eq_none_iff_not_mem {c : Char} : cut [c] s = none ↔ c ∉ s := by
  rw [cut_eq_none_iff, List.singleton_infix_iff]

end Text

open Text

namespace Lexeme

variable {s rest : List Char} {l : Lexeme}

theorem scan_quote (quote : Quote) (s : List Char) :
    scan (quote.char :: s) = some (scanQuoted quote s) := by
  cases quote <;> rfl

/-- The lexemes that are made of a fixed number of characters or of a run of them. -/
def isPlain : Lexeme → Bool
  | newline | colon | arrow _ | word _ => true
  | _ => false

/-- What a lexeme can be, and how the text starts in which it is scanned. -/
theorem scan_eq_some_cases (h : scan s = some (l, rest)) :
    l.isPlain = true ∨ (∃ u, s = '@' :: u ∧ scanTag u = (l, rest)) ∨
      (∃ u, s = '%' :: '%' :: u ∧ scanDirective u = (l, rest)) ∨
      ∃ quote u, s = quote.char :: u ∧ scanQuoted quote u = (l, rest) := by
  cases s with
  | nil => simp [scan] at h
  | cons c s =>
    rcases scan_cases c with rfl | rfl | rfl | rfl | rfl | hw | hq
    · cases h
      exact .inl rfl
    · cases h
      exact .inl rfl
    · exact .inr (.inl ⟨s, rfl, Option.some.inj h⟩)
    · rw [scan_percent] at h
      obtain ⟨u, hu, hd⟩ := Option.map_eq_some_iff.mp h
      exact .inr (.inr (.inl ⟨u, by rw [after?_eq_some_iff.mp hu]; rfl, hd⟩))
    · rw [scan_dash] at h
      obtain ⟨p, -, he⟩ := Option.map_eq_some_iff.mp h
      cases he
      exact .inl rfl
    · rw [scan_of_isWordStart hw] at h
      cases h
      exact .inl rfl
    · rw [hq] at h
      obtain ⟨quote, hquote, he⟩ := Option.map_eq_some_iff.mp h
      exact .inr (.inr (.inr ⟨quote, s, by rw [Quote.char_of_ofChar? hquote], he⟩))

/-- A directive that runs to the end of its line stands behind two percent signs. -/
theorem exists_scanDirective_of_scan {line : List Char}
    (h : scan s = some (lineDirective line, rest)) :
    ∃ u, scanDirective u = (lineDirective line, rest) := by
  rcases scan_eq_some_cases h with hp | ⟨u, -, hu⟩ | ⟨u, -, hu⟩ | ⟨quote, u, -, hu⟩
  · cases hp
  · cases congrArg Prod.fst hu
  · exact ⟨u, hu⟩
  · cases congrArg Prod.fst hu

/-- The characters of the lexeme hold the mark that closes it, if one is needed. -/
def HoldsMark (l : Lexeme) : Prop :=
  match l with
  | quoted quote _ => 1 < l.text.count quote.char
  | tag name (some (bracket, _)) => bracket.split 0 (l.text.drop (name.length + 2)) ≠ none
  | lineDirective _ | blockDirective _ =>
    ['%', '%', '\x7b'] <+: l.text → Directive.terminator <:+: l.text
  | _ => True

private theorem isClosed_iff_of_isPlain (h : l.isPlain = true) :
    l.isClosed = true ↔ l.HoldsMark := by
  cases l <;> simp_all [isPlain, isClosed, HoldsMark]

private theorem isClosed_iff_of_scanQuoted {quote : Quote} {u : List Char}
    (h : scanQuoted quote u = (l, rest)) : l.isClosed = true ↔ l.HoldsMark := by
  rw [scanQuoted] at h
  cases hcut : cut [quote.char] u with
  | some p =>
    rw [hcut] at h
    cases h
    have hcount : p.1.count quote.char = 0 := List.count_eq_zero.mpr (not_mem_of_cut hcut)
    simp [isClosed, HoldsMark, text, Enclosed.text, hcount]
  | none =>
    rw [hcut] at h
    cases h
    have hcount : u.count quote.char = 0 := by
      refine List.count_eq_zero.mpr fun hmem => cut_eq_none_iff.mp hcut ?_
      obtain ⟨x, y, rfl⟩ := List.append_of_mem hmem
      exact ⟨x, y, by simp⟩
    simp [isClosed, HoldsMark, text, Enclosed.text, hcount]

private theorem isClosed_iff_of_scanTag {u : List Char} (h : scanTag u = (l, rest)) :
    l.isClosed = true ↔ l.HoldsMark := by
  obtain ⟨rfl, -⟩ := Prod.mk.inj h
  cases hr : u.dropWhile isWordChar with
  | nil => exact iff_of_true rfl trivial
  | cons c r =>
    cases hb : Bracket.ofOpener? c with
    | none =>
      simp only [hb]
      exact iff_of_true rfl trivial
    | some bracket =>
      have hdrop (inside : Enclosed) :
          (tag (u.takeWhile isWordChar) (some (bracket, inside))).text.drop
            ((u.takeWhile isWordChar).length + 2) = inside.text bracket.closer := by
        simp [text, valueText, List.drop_append]
      simp only [hb, isClosed, HoldsMark, hdrop]
      cases hs : bracket.split 0 r with
      | some p =>
        have hsplit := Bracket.split_of_closes (Bracket.closes_of_split hs) []
        simp [Enclosed.ofSplit, Enclosed.text, hsplit]
      | none => simp [Enclosed.ofSplit, Enclosed.text, hs]

/-- A directive that runs to the end of its line opens no brace that is closed behind it. -/
theorem not_infix_of_scanDirective {u body : List Char}
    (h : scanDirective u = (lineDirective ('\x7b' :: body), rest)) :
    ¬Directive.terminator <:+: body := by
  rw [scanDirective] at h
  split at h
  · cases h
  · next hd =>
    obtain ⟨hline, -⟩ := Prod.mk.inj h
    obtain ⟨r, hr⟩ := List.takeWhile_prefix (p := (· != '\n')) (l := u)
    rw [Lexeme.lineDirective.inj hline] at hr
    have hafter : after? ['\x7b'] u = some (body ++ r) := after?_eq_some_iff.mpr hr.symm
    rw [hafter, Option.bind_some, cut_eq_none_iff] at hd
    exact fun hbody => hd (hbody.trans (List.prefix_append body r).isInfix)

private theorem isClosed_iff_of_scanDirective {u : List Char} (h : scanDirective u = (l, rest)) :
    l.isClosed = true ↔ l.HoldsMark := by
  cases l with
  | lineDirective s =>
    cases s with
    | nil => simp [isClosed, HoldsMark, text]
    | cons c s =>
      by_cases hc : c = '\x7b'
      · subst hc
        have hnone := not_infix_of_scanDirective h
        have hmark : ¬Directive.terminator <:+: '%' :: '%' :: '\x7b' :: s := by
          simp only [List.infix_cons_iff, not_or]
          refine ⟨?_, ?_, ?_, hnone⟩ <;> simp [Directive.terminator]
        simp [isClosed, HoldsMark, text, hmark]
      · simp [isClosed, HoldsMark, text, hc, Ne.symm hc]
  | blockDirective body =>
    have hmark : Directive.terminator <:+: (blockDirective body).text :=
      ⟨'%' :: '%' :: '\x7b' :: body, [], by simp [text]⟩
    simp [isClosed, HoldsMark, hmark]
  | _ => rw [scanDirective] at h; split at h <;> cases h

end Lexeme

namespace Source

/-- A located lexeme is one of the source. -/
theorem mem_lexemes_of_mem_locate {s : List Char} {p : Nat × Lexeme}
    (h : p ∈ locate 0 (pieces s)) : p.2 ∈ lexemes s := by
  rw [lexemes, ← map_snd_locate 0]
  exact List.mem_map_of_mem h

/-- Every lexeme of a source has been scanned somewhere in it. -/
theorem exists_scan_of_mem {s : List Char} {l : Lexeme} (h : l ∈ lexemes s) :
    ∃ t rest, Lexeme.scan t = some (l, rest) := by
  induction s using pieces.induct with
  | case1 => simp at h
  | case2 c s k rest hs ih =>
    rw [lexemes_of_scan hs] at h
    rcases List.mem_cons.mp h with rfl | h
    · exact ⟨_, _, hs⟩
    · exact ih h
  | case3 c s hs ih =>
    rw [lexemes_of_scan_none hs] at h
    exact ih h

/-- Every lexeme stands in its source. -/
theorem text_infix_of_mem {s : List Char} {l : Lexeme} (h : l ∈ lexemes s) : l.text <:+: s := by
  induction s using pieces.induct with
  | case1 => simp at h
  | case2 c s k rest hs ih =>
    rw [← Lexeme.scan_append hs]
    rw [lexemes_of_scan hs] at h
    rcases List.mem_cons.mp h with rfl | h
    · exact (List.prefix_append _ _).isInfix
    · exact (ih h).trans (List.suffix_append _ _).isInfix
  | case3 c s hs ih =>
    rw [lexemes_of_scan_none hs] at h
    exact (ih h).trans (List.suffix_cons c s).isInfix

/-- A source is closed exactly if every lexeme of it holds the mark that closes it. -/
theorem closed_iff_holdsMark {s : List Char} : Closed s ↔ ∀ l ∈ lexemes s, l.HoldsMark := by
  refine forall₂_congr fun l hl => ?_
  obtain ⟨t, rest, hscan⟩ := exists_scan_of_mem hl
  rcases Lexeme.scan_eq_some_cases hscan with hp | ⟨u, -, hu⟩ | ⟨u, -, hu⟩ | ⟨quote, u, -, hu⟩
  · exact Lexeme.isClosed_iff_of_isPlain hp
  · exact Lexeme.isClosed_iff_of_scanTag hu
  · exact Lexeme.isClosed_iff_of_scanDirective hu
  · exact Lexeme.isClosed_iff_of_scanQuoted hu

end Source

end Lifeline
