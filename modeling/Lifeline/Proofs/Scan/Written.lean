import Lifeline.Proofs.BracketBalance
import Lifeline.Proofs.Scan.Continuation
import Lifeline.Proofs.Text.Lines

/-!
# Lexemes that have been written

A word, or a tag whose value is balanced for its brackets, is scanned back from
its own characters, and so it is before any text that is parted from it. A run of
such lexemes with a space before each is therefore scanned as that run, and the
ends of a message are scanned as two words with an arrow between them.
-/

namespace Lifeline

open Text

namespace Lexeme

/-- Nothing else is scanned from the characters of the lexeme, and it leaves nothing open. -/
structure Alone (l : Lexeme) : Prop where
  scan : scan l.text = some (l, [])
  closed : l.isClosed = true
  fillsLine : l.fillsLine = false

variable {l : Lexeme} {a b : List Char}

/-- Such a lexeme is scanned before any parted text. -/
theorem Alone.scan_append (h : l.Alone) (hb : Parted b) : Lexeme.scan (l.text ++ b) = some (l, b) :=
  scan_append_of_parted hb h.scan h.closed fun hf => by simp [h.fillsLine] at hf

/-- A word ends where a character comes that may not stand in a word. -/
theorem scan_word (ha : ∃ c ∈ a.head?, isWordStart c = true) (hw : ∀ c ∈ a, isWordChar c = true)
    (hb : ∀ c ∈ b.head?, isWordChar c = false) : scan (a ++ b) = some (word a, b) := by
  obtain ⟨c, hc, hs⟩ := ha
  cases a with
  | nil => cases hc
  | cons d a =>
    cases hc
    rw [List.cons_append, scan_of_isWordStart hs, ← List.cons_append, takeWhile_append_eq hw hb,
      dropWhile_append_eq hw hb]

/-- A word stands alone. -/
theorem alone_word (ha : ∃ c ∈ a.head?, isWordStart c = true)
    (hw : ∀ c ∈ a, isWordChar c = true) : (word a).Alone := by
  have h := scan_word (b := []) ha hw (by simp)
  rw [List.append_nil] at h
  exact ⟨h, rfl, rfl⟩

/-- The name of a tag ends where a character comes that may not stand in a word. -/
theorem scanTag_of_name {name : List Char} (hn : ∀ c ∈ name, isWordChar c = true)
    (ha : ∀ c ∈ a.head?, isWordChar c = false) :
    scanTag (name ++ a) = (tag name (scanValue a).1, (scanValue a).2) := by
  rw [scanTag, takeWhile_append_eq hn ha, dropWhile_append_eq hn ha]

/-- A tag without a value stands alone. -/
theorem alone_tag_none {name : List Char} (hn : ∀ c ∈ name, isWordChar c = true) :
    (tag name none).Alone := by
  refine ⟨?_, rfl, rfl⟩
  rw [text, valueText, scan.eq_def]
  have h := scanTag_of_name (a := []) hn (by simp)
  exact congrArg some h

/-- A directive that opens no brace is scanned up to the end of its line. -/
theorem scan_lineDirective (hline : '\n' ∉ a) (hbrace : ¬['\x7b'] <+: a)
    (hb : ∀ c ∈ b.head?, c = '\n') :
    scan ((lineDirective a).text ++ b) = some (lineDirective a, b) := by
  have hpercent : after? ['%'] ('%' :: (a ++ b)) = some (a ++ b) := after?_eq_some_iff.mpr rfl
  have hopen : after? ['\x7b'] (a ++ b) = none := by
    rw [after?, if_neg]
    rw [List.isPrefixOf_iff_prefix]
    rintro ⟨rest, hrest⟩
    cases a with
    | nil =>
      rw [List.nil_append] at hrest
      obtain rfl := hrest
      exact absurd (hb _ rfl) (by decide)
    | cons c a =>
      obtain ⟨rfl, -⟩ := List.cons.inj hrest
      exact hbrace ⟨a, rfl⟩
  rw [text, List.cons_append, List.cons_append, scan_percent, hpercent, Option.map_some,
    scanDirective, hopen, Option.bind_none, takeWhile_line hline hb, dropWhile_line hline hb]

/-- What stands in brackets is scanned up to the bracket that closes it. -/
theorem scanValue_opener (bracket : Bracket) (s : List Char) :
    scanValue (bracket.opener :: s) =
      (some (bracket, (Enclosed.ofSplit s (bracket.split 0 s)).1),
        (Enclosed.ofSplit s (bracket.split 0 s)).2) := by
  rw [scanValue]
  simp only [Bracket.ofOpener?_eq_some_iff.mpr rfl]

theorem isWordChar_opener (bracket : Bracket) : isWordChar bracket.opener = false := by
  cases bracket <;> decide

/-- A tag whose value is balanced for its brackets stands alone. -/
theorem alone_tag {name value : List Char} {bracket : Bracket}
    (hn : ∀ c ∈ name, isWordChar c = true) (hv : bracket.balanced value = true) :
    (tag name (some (bracket, ⟨value, true⟩))).Alone := by
  refine ⟨?_, rfl, rfl⟩
  have hsplit : bracket.split 0 (value ++ [bracket.closer]) = some (value, []) :=
    Bracket.split_of_closes hv []
  have htext : (tag name (some (bracket, ⟨value, true⟩))).text =
      '@' :: (name ++ bracket.opener :: (value ++ [bracket.closer])) := by
    simp [text, valueText, Enclosed.text]
  rw [htext, scan_at, scanTag_of_name hn (by simp [isWordChar_opener]), scanValue_opener, hsplit,
    Enclosed.ofSplit]

/-- Lexemes as they are written, with a space before each. -/
def spaced (ls : List Lexeme) : List Char := ls.flatMap fun l => ' ' :: l.text

@[simp] theorem spaced_cons (l : Lexeme) (ls : List Lexeme) :
    spaced (l :: ls) = ' ' :: (l.text ++ spaced ls) := by
  rw [spaced, List.flatMap_cons, List.cons_append]
  rfl

theorem spaced_append (ls ms : List Lexeme) : spaced (ls ++ ms) = spaced ls ++ spaced ms :=
  List.flatMap_append

/-- A written run is parted from what precedes it. -/
theorem parted_spaced (ls : List Lexeme) : Parted (spaced ls) := by
  cases ls with
  | nil => exact parted_nil
  | cons l ls =>
    rw [spaced_cons, parted_cons]
    rfl

/-- Written lexemes behind some text. -/
theorem joinWith_map_text (head : List Char) (ls : List Lexeme) :
    joinWith [' '] (head :: ls.map text) = head ++ spaced ls := by
  rw [joinWith_space, List.flatMap_map]
  rfl

end Lexeme

/-- The text may name a participant: it is a word that has no meaning of its own. -/
structure IsName (name : String) : Prop where
  start : ∃ c ∈ name.toList.head?, isWordStart c = true
  letters : ∀ c ∈ name.toList, isWordChar c = true
  notReserved : name ∉ Token.reserved
  notAs : name.toList.map Char.toLower ≠ ['a', 's']

instance (name : String) : Decidable (IsName name) :=
  decidable_of_iff
    (name.toList.head?.any isWordStart = true ∧ name.toList.all isWordChar = true ∧
      name ∉ Token.reserved ∧ name.toList.map Char.toLower ≠ ['a', 's'])
    ⟨fun ⟨hs, hl, hr, ha⟩ =>
      ⟨(Option.any_eq_true _ _).mp hs, List.all_eq_true.mp hl, hr, ha⟩,
    fun ⟨hs, hl, hr, ha⟩ =>
      ⟨(Option.any_eq_true _ _).mpr hs, List.all_eq_true.mpr hl, hr, ha⟩⟩

/-- The token of a name is an identifier. -/
theorem IsName.token {name : String} (h : IsName name) :
    (Lexeme.word name.toList).token = .ok (.identifier name) := by
  rw [Lexeme.token, String.ofList_toList, Token.ofWord, if_neg (by simpa using h.notReserved),
    if_neg h.notAs]

namespace Source

open Lexeme

theorem lexemes_space (s : List Char) : lexemes (' ' :: s) = lexemes s :=
  lexemes_of_scan_none (scan_of_isBlank rfl (by decide) s)

/-- A written lexeme is scanned before what follows. -/
theorem lexemes_text_append {l : Lexeme} (h : l.Alone) {b : List Char} (hb : Parted b) :
    lexemes (l.text ++ b) = l :: lexemes b :=
  lexemes_of_scan (h.scan_append hb)

/-- A directive that opens no brace is made a token up to the end of its line. -/
theorem tokens_lineDirective {a b : List Char} {d : Directive} (hline : '\n' ∉ a)
    (hbrace : ¬['\x7b'] <+: a) (hb : ∀ c ∈ b.head?, c = '\n')
    (h : Directive.read (lineDirective a).text = .ok d) :
    tokens ((lineDirective a).text ++ b) = (tokens b).map (.ofDirective d :: ·) := by
  have htoken : (lineDirective a).token = .ok (.ofDirective d) := by
    rw [token, h]
    rfl
  rw [tokens, lexemes_of_scan (scan_lineDirective hline hbrace hb), List.mapM_cons, ← tokens,
    htoken]
  cases tokens b <;> rfl

/-- A written run of lexemes is scanned as that run, before whatever follows. -/
theorem lexemes_spaced_append {ls : List Lexeme} (h : ∀ l ∈ ls, l.Alone) {b : List Char}
    (hb : Parted b) : lexemes (spaced ls ++ b) = ls ++ lexemes b := by
  induction ls with
  | nil => rfl
  | cons l ls ih =>
    have hp : Parted (spaced ls ++ b) := by
      cases ls with
      | nil => exact hb
      | cons m ls =>
        rw [spaced_cons, List.cons_append, parted_cons]
        rfl
    rw [spaced_cons, List.cons_append, List.append_assoc, lexemes_space,
      lexemes_text_append (h l List.mem_cons_self) hp,
      ih fun m hm => h m (List.mem_cons_of_mem l hm), List.cons_append]

/-- A written run of lexemes is scanned as that run. -/
theorem lexemes_spaced {ls : List Lexeme} (h : ∀ l ∈ ls, l.Alone) : lexemes (spaced ls) = ls := by
  have hl := lexemes_spaced_append h parted_nil
  rwa [List.append_nil, lexemes, lexemes, pieces_nil, List.filterMap_nil, List.append_nil] at hl

/-- An arrow ends before anything that could not belong to an arrow. -/
theorem scan_arrow (x : Arrow) {c : Char} (hc : c ≠ '>') (s : List Char) :
    Lexeme.scan (x.chars ++ c :: s) = some (.arrow x, c :: s) := by
  have hx : Arrow.scan (x.chars ++ c :: s) = some (x, c :: s) := by
    rcases x with ⟨line, head⟩
    cases line <;> cases head <;>
      simp [Arrow.scan, Arrow.longestFirst, Arrow.chars, after?, Ne.symm hc]
  obtain ⟨rest, hr⟩ : ∃ rest, x.chars ++ c :: s = '-' :: rest := by
    rcases x with ⟨line, head⟩
    cases line <;> cases head <;> exact ⟨_, rfl⟩
  rw [hr] at hx ⊢
  rw [scan_dash, hx]
  rfl

/-- Two names are scanned as words, with the arrow between them. -/
theorem lexemes_names {source target : String} (hs : IsName source) (ht : IsName target) (a : Arrow)
    {rest : List Char} (hrest : ∀ d ∈ rest.head?, isWordChar d = false) :
    lexemes (source.toList ++ (a.chars ++ (target.toList ++ rest))) =
      .word source.toList :: .arrow a :: .word target.toList :: lexemes rest := by
  obtain ⟨c, hc, hstart⟩ := ht.start
  obtain ⟨letters, htarget⟩ := List.head?_eq_some_iff.mp hc
  have hdash : ∀ d ∈ (a.chars ++ (target.toList ++ rest)).head?, isWordChar d = false := by
    rcases a with ⟨line, head⟩
    cases line <;> cases head <;> (rintro d ⟨⟩; rfl)
  have hpoint : c ≠ '>' := by
    rintro rfl
    simp [isWordStart] at hstart
  have harrow : Lexeme.scan (a.chars ++ (target.toList ++ rest)) =
      some (.arrow a, target.toList ++ rest) := by
    rw [htarget, List.cons_append]
    exact scan_arrow a hpoint _
  rw [lexemes_of_scan (scan_word hs.start hs.letters hdash), lexemes_of_scan harrow,
    lexemes_of_scan (scan_word ⟨c, hc, hstart⟩ ht.letters hrest)]

/-- So are the ends of a message, with the colon behind them. -/
theorem lexemes_ends {source target : String} (hs : IsName source) (ht : IsName target) (a : Arrow)
    (rest : List Char) :
    lexemes (source.toList ++ (a.chars ++ (target.toList ++ ':' :: rest))) =
      .word source.toList :: .arrow a :: .word target.toList :: .colon :: lexemes rest := by
  have hcolon : ∀ d ∈ (':' :: rest).head?, isWordChar d = false := by
    rintro d ⟨⟩
    rfl
  rw [lexemes_names hs ht a hcolon, lexemes_of_scan (Lexeme.scan_colon rest)]

end Source

end Lifeline
