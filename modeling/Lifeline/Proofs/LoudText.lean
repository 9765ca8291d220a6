import Lifeline.Proofs.TagRun

/-!
# Texts that are more than text

The text of a message is written without quotes, so it may hold what ends a text:
a tag, a line end, a directive that takes the rest of its line, or a quote or
directive that is left open. Behind anything of this kind but a tag no annotation
can be read back: what is left open may close inside a value, but then the
brackets before it are lost, and the rest cannot make up for them.
-/

namespace Lifeline

open Text

namespace Lexeme

/-- The lexeme is text, whatever follows it. -/
def isQuiet (l : Lexeme) : Bool := l.isText && l.isClosed && !l.fillsLine

theorem isQuiet_iff {l : Lexeme} :
    l.isQuiet = true ↔ l.isText = true ∧ l.isClosed = true ∧ l.fillsLine = false := by
  simp [isQuiet, and_assoc]

variable {a b : List Char}

/-- A directive for the rest of its line is one in the longer text, or it closes behind the seam. -/
theorem scanDirective_append_of_open
    (h : (after? ['\x7b'] a).bind (cut Directive.terminator) = none) (hb : Parted b) :
    scanDirective (a ++ b) =
        (lineDirective ((a ++ b).takeWhile (· != '\n')), (a ++ b).dropWhile (· != '\n')) ∨
      ∃ body before behind, cut Directive.terminator b = some (before, behind) ∧
        scanDirective (a ++ b) = (blockDirective body, behind) := by
  rw [scanDirective, after?_append_of_parted Directive.brace_no_break hb]
  cases ha : after? ['\x7b'] a with
  | none => exact .inl rfl
  | some s =>
    rw [ha, Option.bind_some] at h
    rw [Option.map_some, Option.bind_some, cut_append_of_none Directive.terminator_no_break hb h]
    cases hc : cut Directive.terminator b with
    | none => exact .inl rfl
    | some p => exact .inr ⟨_, p.1, p.2, rfl, rfl⟩

private theorem tagRun_dropWhile (s : List Char) :
    tagRun (Source.lexemes (s.dropWhile (· != '\n'))) = [] := by
  rcases behind_line_cases s with hs | ⟨rest, hs⟩
  · rw [hs, Source.lexemes_nil]
    rfl
  · rw [hs, Source.lexemes_of_scan (scan_newline rest)]
    rfl

end Lexeme

namespace Annotations

variable {r : Annotations}

/-- A character that is written outside values, brackets apart. -/
def isFrame (c : Char) : Bool := c == ' ' || c == '@' || isWordChar c

private theorem isOpener_of_isFrame {c : Char} (h : isFrame c = true) : isOpener c = false := by
  rw [Bool.eq_false_iff]
  intro ho
  simp only [isOpener, Bool.or_eq_true, beq_iff_eq] at ho
  rcases ho with rfl | rfl <;> cases h

/-- A tag is written as its name, behind an opening bracket if it has a value. -/
theorem mem_takeWhile_spaced {ls : List Lexeme}
    (h : ∀ l ∈ ls, ∃ name value, l = .tag name value ∧ ∀ c ∈ name, isWordChar c = true)
    {c : Char} (hc : c ∈ (Lexeme.spaced ls).takeWhile (!isOpener ·)) : isFrame c = true := by
  induction ls with
  | nil => cases hc
  | cons l ls ih =>
    obtain ⟨name, value, rfl, hname⟩ := h l List.mem_cons_self
    have hframe : ∀ d ∈ ' ' :: '@' :: name, isFrame d = true := by
      intro d hd
      rcases List.mem_cons.mp hd with rfl | hd
      · rfl
      rcases List.mem_cons.mp hd with rfl | hd
      · rfl
      · simp [isFrame, hname d hd]
    have hrest : c ∈ (Lexeme.valueText value ++ Lexeme.spaced ls).takeWhile (!isOpener ·) →
        isFrame c = true := by
      cases value with
      | none => exact fun hm => ih (fun m hm => h m (List.mem_cons_of_mem _ hm)) hm
      | some v =>
        obtain ⟨b, inside⟩ := v
        intro hm
        have ho : isOpener b.opener = true := by cases b <;> rfl
        rw [Lexeme.valueText, List.cons_append, List.takeWhile_cons, if_neg (by simp [ho])] at hm
        cases hm
    have htext : Lexeme.spaced (.tag name value :: ls) =
        (' ' :: '@' :: name) ++ (Lexeme.valueText value ++ Lexeme.spaced ls) := by
      simp [Lexeme.text]
    rw [htext, List.takeWhile_append_of_pos
      fun d hd => by simp [isOpener_of_isFrame (hframe d hd)]] at hc
    rcases List.mem_append.mp hc with hc | hc
    · exact hframe c hc
    · exact hrest hc

/-- Whatever is not written outside values has an opening bracket before it. -/
theorem openers_pos_of_marks {before behind : List Char} {c : Char}
    (h : Lexeme.spaced r.marks = before ++ c :: behind) (hc : isFrame c = false)
    (ho : isOpener c = false) : 0 < openers before := by
  by_contra hz
  have hnone : ∀ d ∈ before, isOpener d = false := by
    intro d hd
    have hcount := List.countP_eq_zero.mp (Nat.eq_zero_of_not_pos hz) d hd
    simpa using hcount
  have hmem : c ∈ (Lexeme.spaced r.marks).takeWhile (!isOpener ·) := by
    rw [h, List.takeWhile_append_of_pos fun d hd => by simp [hnone d hd], List.takeWhile_cons,
      if_pos (by simp [ho])]
    exact List.mem_append_right before List.mem_cons_self
  have hframe := mem_takeWhile_spaced (fun l hl => ?_) hmem
  · rw [hc] at hframe
    cases hframe
  · rcases mem_marks hl with rfl | ⟨f, hf⟩
    · exact ⟨_, _, rfl, List.all_eq_true.mp rfl⟩
    · obtain ⟨v, -, rfl⟩ := mem_mark hf
      exact ⟨_, _, rfl, isWordChar_name f⟩

/-- The annotations are not read back from the middle of a value. -/
theorem ne_of_marks {before behind : List Char} {c : Char}
    (h : Lexeme.spaced r.marks = before ++ c :: behind) (hc : isFrame c = false)
    (ho : isOpener c = false) {s : List Char} (hs : openers s ≤ openers behind) :
    ofList (Lexeme.tagRun (Source.lexemes s)) ≠ r := by
  intro he
  have hpos := openers_pos_of_marks h hc ho
  have hw := weight_tagRun_le s
  have hr := openers_spaced_marks r
  rw [h, openers_append, openers_cons_of_false ho] at hr
  rw [he] at hw
  omega

/-- No annotations are read from `s`, or they are read behind a mark in `b` that can only stand
inside a value. -/
def Displaced (s b : List Char) : Prop :=
  Lexeme.tagRun (Source.lexemes s) = [] ∨
    ∃ before x behind t, b = before ++ x :: behind ∧ isFrame x = false ∧ isOpener x = false ∧
      openers t ≤ openers behind ∧
      Lexeme.tagRun (Source.lexemes s) = Lexeme.tagRun (Source.lexemes t)

/-- Displaced annotations are those of a record only if it has none. -/
theorem eq_empty_of_displaced {s : List Char} (hd : Displaced s (Lexeme.spaced r.marks))
    (h : ofList (Lexeme.tagRun (Source.lexemes s)) = r) : r = {} := by
  rcases hd with hnone | ⟨before, x, behind, t, hmarks, hx, ho, hle, htags⟩
  · rw [hnone] at h
    exact h.symm
  · rw [htags] at h
    exact absurd h (ne_of_marks hmarks hx ho hle)

variable {a b : List Char}

/-- A directive that takes the rest of its line, or is left open, displaces the annotations. -/
theorem displaced_of_directive (h : (after? ['\x7b'] a).bind (cut Directive.terminator) = none)
    (hb : Parted b) : Displaced ('%' :: '%' :: (a ++ b)) b := by
  have hscan : Lexeme.scan ('%' :: '%' :: (a ++ b)) = some (Lexeme.scanDirective (a ++ b)) := by
    have hafter : after? ['%'] ('%' :: (a ++ b)) = some (a ++ b) := after?_eq_some_iff.mpr rfl
    rw [Lexeme.scan_percent, hafter, Option.map_some]
  rcases Lexeme.scanDirective_append_of_open h hb with hline | ⟨body, before, behind, hcut, hblock⟩
  · left
    rw [hline] at hscan
    rw [Source.lexemes_of_scan hscan, Lexeme.tagRun_cons rfl, Lexeme.tagRun_dropWhile]
  · right
    rw [hblock] at hscan
    rw [Source.lexemes_of_scan hscan, Lexeme.tagRun_cons rfl]
    refine ⟨before, '\x7d', '%' :: '%' :: behind, behind, ?_, rfl, rfl, ?_, rfl⟩
    · rw [← cut_append hcut]
      simp [Directive.terminator]
    · rw [openers_cons_of_false rfl, openers_cons_of_false rfl]

/-- A quote that is left open displaces the annotations. -/
theorem displaced_of_quote {c : Char} {quote : Quote} (h : cut [quote.char] a = none)
    (hb : Parted b)
    (hscan : Lexeme.scan (c :: (a ++ b)) = some (Lexeme.scanQuoted quote (a ++ b))) :
    Displaced (c :: (a ++ b)) b := by
  rw [Lexeme.scanQuoted_append_of_open h hb] at hscan
  cases hcut : cut [quote.char] b with
  | none =>
    left
    rw [hcut] at hscan
    rw [Source.lexemes_of_scan hscan, Lexeme.tagRun_cons rfl, Source.lexemes, Source.pieces_nil]
    rfl
  | some p =>
    obtain ⟨before, behind⟩ := p
    right
    rw [hcut] at hscan
    rw [Source.lexemes_of_scan hscan, Lexeme.tagRun_cons rfl]
    refine ⟨before, quote.char, behind, behind, ?_, ?_, ?_, Nat.le_refl _, rfl⟩
    · rw [← cut_append hcut]
      simp
    · cases quote <;> rfl
    · cases quote <;> rfl

/-- So does any lexeme that is not quiet, a tag apart. -/
theorem displaced_of_loud {c : Char} {l : Lexeme} {rest : List Char} (hb : Parted b)
    (hs : Lexeme.scan (c :: a) = some (l, rest)) (hl : l.isQuiet = false) (ht : l.tag? = none) :
    Displaced (c :: (a ++ b)) b := by
  rcases Lexeme.scan_cases c with rfl | rfl | rfl | rfl | rfl | hw | hq
  · left
    rw [Source.lexemes_of_scan (Lexeme.scan_newline _)]
    rfl
  · cases hs
    cases hl
  · cases hs
    cases ht
  · rw [Lexeme.scan_percent] at hs
    obtain ⟨s, hafter, hd⟩ := Option.map_eq_some_iff.mp hs
    obtain rfl := after?_eq_some_iff.mp hafter
    have hopen : (after? ['\x7b'] s).bind (cut Directive.terminator) = none := by
      rw [Option.eq_none_iff_forall_not_mem]
      intro p hp
      rw [Lexeme.scanDirective, hp] at hd
      cases hd
      cases hl
    exact displaced_of_directive hopen hb
  · rw [Lexeme.scan_dash] at hs
    obtain ⟨p, -, hp⟩ := Option.map_eq_some_iff.mp hs
    cases hp
    cases hl
  · rw [Lexeme.scan_of_isWordStart hw] at hs
    cases hs
    cases hl
  · rw [hq] at hs
    obtain ⟨quote, hquote, hp⟩ := Option.map_eq_some_iff.mp hs
    have hopen : cut [quote.char] a = none := by
      rw [Option.eq_none_iff_forall_not_mem]
      intro found hfound
      rw [Lexeme.scanQuoted, hfound] at hp
      cases hp
      cases hl
    exact displaced_of_quote hopen hb (by rw [hq, hquote, Option.map_some])

/-- Behind a text that goes on into what follows, or that ends its line, only the annotations of a
record without any are read back. -/
theorem eq_empty_of_loud {l : Lexeme}
    (hl : (Source.lexemes a).find? (!·.isQuiet) = some l) (ht : l.tag? = none)
    (h : ofList (Lexeme.tagRun (Source.lexemes (a ++ Lexeme.spaced r.marks))) = r) : r = {} := by
  have hb := Lexeme.parted_spaced r.marks
  induction a using Source.pieces.induct with
  | case1 => simp [Source.lexemes] at hl
  | case2 c a first rest hs ih =>
    rw [Source.lexemes_of_scan hs, List.find?_cons] at hl
    split at hl
    · next hloud =>
      cases hl
      exact eq_empty_of_displaced (displaced_of_loud hb hs (by simpa using hloud) ht) h
    · next hquiet =>
      obtain ⟨htext, hclosed, hfills⟩ := Lexeme.isQuiet_iff.mp (by simpa using hquiet)
      rw [Source.lexemes_of_scan (Lexeme.scan_append_of_parted hb hs hclosed
        fun hf => by simp [hfills] at hf)] at h
      rw [Lexeme.tagRun_cons htext] at h
      exact ih hl h
  | case3 c a hs ih =>
    have hnone : Lexeme.scan (c :: (a ++ Lexeme.spaced r.marks)) = none :=
      Lexeme.scan_append_of_none hb hs
    rw [Source.lexemes_of_scan_none hs] at hl
    rw [List.cons_append, Source.lexemes_of_scan_none hnone] at h
    exact ih hl h

end Annotations

end Lifeline
