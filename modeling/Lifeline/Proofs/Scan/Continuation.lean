import Lifeline.Proofs.Text.Continuation
import Lifeline.Source

/-!
# Sources that go on

A source can be cut into pieces before it is known what follows, provided that it
leaves nothing open. A quote, a value or a metadata directive without its closing
mark takes whatever comes next; a directive that runs to the end of its line takes
the rest of that line. Behind any other lexeme the cuts are the same whatever
follows the next break.
-/

namespace Lifeline

open Text

theorem Enclosed.closed_ofSplit (s : List Char) (found : Option (List Char × List Char)) :
    (ofSplit s found).1.closed = found.isSome := by
  cases found <;> rfl

theorem Directive.brace_no_break : ∀ c ∈ ['\x7b'], isBreak c = false :=
  List.forall_mem_singleton.mpr rfl

theorem Directive.terminator_no_break : ∀ c ∈ Directive.terminator, isBreak c = false := by
  simp [Directive.terminator, isBreak]

theorem Quote.char_no_break (quote : Quote) : ∀ c ∈ [quote.char], isBreak c = false :=
  List.forall_mem_singleton.mpr (by cases quote <;> rfl)

theorem Arrow.chars_no_break (a : Arrow) : ∀ c ∈ a.chars, isBreak c = false := by
  rcases a with ⟨line, head⟩
  cases line <;> cases head <;> simp [chars, isBreak]

namespace Lexeme

/-- The lexeme has the mark that closes it, if one is needed. -/
def isClosed : Lexeme → Bool
  | quoted _ inside => inside.closed
  | tag _ (some (_, inside)) => inside.closed
  | lineDirective rest => rest.head? != some '\x7b'
  | _ => true

/-- The lexeme takes all that is left of its line. -/
def fillsLine : Lexeme → Bool
  | lineDirective _ => true
  | _ => false

variable {a b : List Char}

/-- A directive that ends is the same in the longer text. -/
theorem scanDirective_append_of_parted (hb : Parted b) (hc : (scanDirective a).1.isClosed = true)
    (hline : (scanDirective a).1.fillsLine = true → (scanDirective a).2 = [] →
      ∀ c ∈ b.head?, c = '\n') :
    scanDirective (a ++ b) = ((scanDirective a).1, (scanDirective a).2 ++ b) := by
  simp only [scanDirective] at hc hline ⊢
  rw [after?_append_of_parted Directive.brace_no_break hb]
  cases hd : (after? ['\x7b'] a).bind (cut Directive.terminator) with
  | some p =>
    obtain ⟨r, hr, hcut⟩ := Option.bind_eq_some_iff.mp hd
    rw [hr, Option.map_some, Option.bind_some, cut_append_of_some hcut]
  | none =>
    rw [hd] at hc hline
    simp only [isClosed, bne_iff_ne, fillsLine, true_implies] at hc hline
    have hopen : after? ['\x7b'] a = none := by
      rw [Option.eq_none_iff_forall_not_mem]
      intro r hr
      rw [after?_eq_some_iff.mp hr] at hc
      exact hc rfl
    rw [hopen, Option.map_none, Option.bind_none]
    by_cases ha : a.dropWhile (· != '\n') = []
    · have hend : ∀ c ∈ b.head?, (c != '\n') = false := fun c hc => by simp [hline ha c hc]
      rw [takeWhile_append_of_head hend, dropWhile_append_of_head hend]
    · have hlen : ¬(a.takeWhile (· != '\n')).length = a.length := by
        intro he
        have := congrArg List.length (List.takeWhile_append_dropWhile (p := (· != '\n')) (l := a))
        rw [List.length_append, he] at this
        exact ha (List.length_eq_zero_iff.mp (by omega))
      rw [List.takeWhile_append, if_neg hlen, List.dropWhile_append,
        if_neg (by simpa [List.isEmpty_iff] using ha)]

/-- No bracket opens a value behind the name of a tag unless it opened one before. -/
theorem scanValue_append_of_parted (hb : Parted b)
    (hc : ∀ v ∈ (scanValue a).1, v.2.closed = true) :
    scanValue (a ++ b) = ((scanValue a).1, (scanValue a).2 ++ b) := by
  cases a with
  | nil =>
    cases b with
    | nil => rfl
    | cons c b =>
      have hne : Bracket.ofOpener? c = none := by
        have := parted_cons.mp hb
        simp only [isBreak, Bool.or_eq_true, beq_iff_eq] at this
        rcases this with ((rfl | rfl) | rfl) | rfl <;> rfl
      simp [scanValue, hne]
  | cons c a =>
    rw [List.cons_append, scanValue, scanValue]
    simp only [scanValue] at hc
    cases hbr : Bracket.ofOpener? c with
    | none => rfl
    | some bracket =>
      simp only [hbr, Option.mem_def, Option.some.injEq, forall_eq'] at hc
      rw [Enclosed.closed_ofSplit, Option.isSome_iff_exists] at hc
      obtain ⟨p, hp⟩ := hc
      simp only [hp, Bracket.split_append_of_some hp, Enclosed.ofSplit]

/-- A tag whose value is closed is the same in the longer text. -/
theorem scanTag_append_of_parted (hb : Parted b) (hc : (scanTag a).1.isClosed = true) :
    scanTag (a ++ b) = ((scanTag a).1, (scanTag a).2 ++ b) := by
  have hv : ∀ v ∈ (scanValue (a.dropWhile isWordChar)).1, v.2.closed = true := by
    intro v hv
    simpa only [scanTag, Option.mem_def.mp hv, isClosed] using hc
  simp only [scanTag, takeWhile_append_of_head hb.isWordChar,
    dropWhile_append_of_head hb.isWordChar, scanValue_append_of_parted hb hv]

/-- Quoted text that is closed is the same in the longer text. -/
theorem scanQuoted_append_of_closed {quote : Quote} (hc : (scanQuoted quote a).1.isClosed = true) :
    scanQuoted quote (a ++ b) = ((scanQuoted quote a).1, (scanQuoted quote a).2 ++ b) := by
  simp only [scanQuoted, isClosed, Enclosed.closed_ofSplit, Option.isSome_iff_exists] at hc
  obtain ⟨p, hp⟩ := hc
  simp only [scanQuoted, hp, cut_append_of_some hp, Enclosed.ofSplit]

/-- A quote that is left open takes what follows up to the next such quote. -/
theorem scanQuoted_append_of_open {quote : Quote} (h : cut [quote.char] a = none) (hb : Parted b) :
    scanQuoted quote (a ++ b) =
      match cut [quote.char] b with
      | some (before, behind) => (quoted quote ⟨a ++ before, true⟩, behind)
      | none => (quoted quote ⟨a ++ b, false⟩, []) := by
  rw [scanQuoted, cut_append_of_none quote.char_no_break hb h]
  cases cut [quote.char] b <;> rfl

end Lexeme

/-- No arrow grows by a break. -/
theorem Arrow.scan_append_of_parted {a b : List Char} (hb : Parted b) :
    Arrow.scan (a ++ b) = (Arrow.scan a).map fun p => (p.1, p.2 ++ b) := by
  have hx (x : Arrow) : (after? x.chars (a ++ b)).map (x, ·) =
      ((after? x.chars a).map (x, ·)).map fun p => (p.1, p.2 ++ b) := by
    rw [after?_append_of_parted x.chars_no_break hb, Option.map_map, Option.map_map]
    rfl
  simp only [Arrow.scan, hx, List.map_findSome?, Function.comp_def]

namespace Lexeme

theorem scan_newline (s : List Char) : scan ('\n' :: s) = some (newline, s) := rfl

theorem scan_colon (s : List Char) : scan (':' :: s) = some (colon, s) := rfl

theorem scan_at (s : List Char) : scan ('@' :: s) = some (scanTag s) := rfl

theorem scan_percent (s : List Char) : scan ('%' :: s) = (after? ['%'] s).map scanDirective := rfl

theorem scan_dash (s : List Char) :
    scan ('-' :: s) = (Arrow.scan ('-' :: s)).map fun p => (arrow p.1, p.2) := rfl

/-- A word takes all the word characters that follow. -/
theorem scan_of_isWordStart {c : Char} (hc : isWordStart c = true) (s : List Char) :
    scan (c :: s) = some (word ((c :: s).takeWhile isWordChar), (c :: s).dropWhile isWordChar) := by
  have hne (x : Char) (hx : isWordStart x = false) : c ≠ x := by
    rintro rfl
    simp [hc] at hx
  rw [scan, if_neg (hne '\n' rfl), if_neg (hne ':' rfl), if_neg (hne '@' rfl), if_neg (hne '%' rfl),
    if_neg (hne '-' rfl), if_pos hc]

/-- The ways in which a lexeme starts; any other character starts quoted text or nothing. -/
theorem scan_cases (c : Char) :
    c = '\n' ∨ c = ':' ∨ c = '@' ∨ c = '%' ∨ c = '-' ∨ isWordStart c = true ∨
      ∀ s, scan (c :: s) = (Quote.ofChar? c).map fun quote => scanQuoted quote s := by
  by_cases h1 : c = '\n'
  · exact .inl h1
  by_cases h2 : c = ':'
  · exact .inr (.inl h2)
  by_cases h3 : c = '@'
  · exact .inr (.inr (.inl h3))
  by_cases h4 : c = '%'
  · exact .inr (.inr (.inr (.inl h4)))
  by_cases h5 : c = '-'
  · exact .inr (.inr (.inr (.inr (.inl h5))))
  by_cases h6 : isWordStart c = true
  · exact .inr (.inr (.inr (.inr (.inr (.inl h6)))))
  · refine .inr (.inr (.inr (.inr (.inr (.inr fun s => ?_)))))
    rw [scan, if_neg h1, if_neg h2, if_neg h3, if_neg h4, if_neg h5, if_neg h6]

private theorem toNat_of_isWordChar {c : Char} (h : isWordChar c = true) :
    (48 ≤ c.toNat ∧ c.toNat ≤ 57) ∨ (65 ≤ c.toNat ∧ c.toNat ≤ 90) ∨
      (97 ≤ c.toNat ∧ c.toNat ≤ 122) ∨ c = '_' := by
  have hclasses : isWordChar c = (c.isUpper || c.isLower || c.isDigit || c == '_') := rfl
  rw [hclasses] at h
  simp only [Bool.or_eq_true, beq_iff_eq] at h
  rcases h with ((hupper | hlower) | hdigit) | hc
  · exact .inr (.inl (of_decide_eq_true hupper))
  · obtain ⟨hle, hge⟩ := Bool.and_eq_true_iff.mp hlower
    exact .inr (.inr (.inl ⟨of_decide_eq_true hle, of_decide_eq_true hge⟩))
  · exact .inl (Char.isDigit_iff_toNat.mp hdigit)
  · exact .inr (.inr (.inr hc))

/-- No blank may stand in a word. -/
theorem isWordChar_of_isBlank {c : Char} (h : isBlank c = true) : isWordChar c = false := by
  rw [Bool.eq_false_iff]
  intro hw
  simp only [isBlank, Bool.or_eq_true, Bool.and_eq_true, decide_eq_true_eq, beq_iff_eq] at h
  rcases toNat_of_isWordChar hw with hc | hc | hc | rfl
  · omega
  · omega
  · omega
  · simp at h

/-- No blank starts a word. -/
theorem isWordStart_of_isBlank {c : Char} (h : isBlank c = true) : isWordStart c = false := by
  rw [Bool.eq_false_iff]
  intro hw
  have hc := isWordChar_of_isBlank h
  rw [isWordChar_of_isWordStart hw] at hc
  cases hc

/-- No lexeme starts at a blank other than a line end. -/
theorem scan_of_isBlank {c : Char} (h : isBlank c = true) (hn : c ≠ '\n') (s : List Char) :
    scan (c :: s) = none := by
  have hne (x : Char) (hx : isBlank x = false) : c ≠ x := by
    rintro rfl
    simp [h] at hx
  rw [scan, if_neg hn, if_neg (hne ':' rfl), if_neg (hne '@' rfl), if_neg (hne '%' rfl),
    if_neg (hne '-' rfl), if_neg (by simp [isWordStart_of_isBlank h]), Quote.ofChar?,
    if_neg (hne '"' rfl), if_neg (hne '\'' rfl)]
  rfl

variable {a b rest : List Char} {l : Lexeme}

private theorem percent_no_break : ∀ c ∈ ['%'], isBreak c = false :=
  List.forall_mem_singleton.mpr rfl

/-- A scanned lexeme that leaves nothing open is scanned from the longer text just the same. -/
theorem scan_append_of_parted (hb : Parted b) (h : scan a = some (l, rest))
    (hc : l.isClosed = true)
    (hline : l.fillsLine = true → rest = [] → ∀ c ∈ b.head?, c = '\n') :
    scan (a ++ b) = some (l, rest ++ b) := by
  cases a with
  | nil => simp [scan] at h
  | cons c a =>
    rcases scan_cases c with rfl | rfl | rfl | rfl | rfl | hw | hq
    · cases h
      rfl
    · cases h
      rfl
    · have ht := Option.some.inj h
      rw [List.cons_append, scan_at, scanTag_append_of_parted hb (by rwa [ht]), ht]
    · rw [scan_percent] at h
      obtain ⟨r, hr, hd⟩ := Option.map_eq_some_iff.mp h
      rw [List.cons_append, scan_percent, after?_append_of_parted percent_no_break hb, hr,
        Option.map_some, Option.map_some, scanDirective_append_of_parted hb (by rwa [hd])
        (by rwa [hd]), hd]
    · rw [scan_dash] at h
      obtain ⟨⟨x, r⟩, hr, he⟩ := Option.map_eq_some_iff.mp h
      cases he
      rw [List.cons_append, scan_dash, ← List.cons_append, Arrow.scan_append_of_parted hb, hr]
      rfl
    · rw [scan_of_isWordStart hw] at h
      cases h
      rw [List.cons_append, scan_of_isWordStart hw, ← List.cons_append,
        takeWhile_append_of_head hb.isWordChar, dropWhile_append_of_head hb.isWordChar]
    · rw [hq] at h
      obtain ⟨quote, hquote, he⟩ := Option.map_eq_some_iff.mp h
      rw [List.cons_append, hq, hquote, Option.map_some, scanQuoted_append_of_closed (by rwa [he]),
        he]

/-- Where no lexeme starts, none starts in the longer text. -/
theorem scan_append_of_none {c : Char} (hb : Parted b) (h : scan (c :: a) = none) :
    scan (c :: a ++ b) = none := by
  rcases scan_cases c with rfl | rfl | rfl | rfl | rfl | hw | hq
  · cases h
  · cases h
  · cases h
  · rw [scan_percent] at h
    rw [List.cons_append, scan_percent, after?_append_of_parted percent_no_break hb,
      Option.map_eq_none_iff.mp h]
    rfl
  · rw [scan_dash] at h
    rw [List.cons_append, scan_dash, ← List.cons_append, Arrow.scan_append_of_parted hb,
      Option.map_eq_none_iff.mp h]
    rfl
  · rw [scan_of_isWordStart hw] at h
    cases h
  · rw [hq] at h
    rw [List.cons_append, hq, Option.map_eq_none_iff.mp h]
    rfl

end Lexeme

namespace Source

/-- Every lexeme of the source has the mark that closes it. -/
def Closed (s : List Char) : Prop := ∀ l ∈ lexemes s, l.isClosed = true

instance : DecidablePred Closed := fun s =>
  inferInstanceAs (Decidable (∀ l ∈ lexemes s, l.isClosed = true))

/-- The last lexeme of the source takes all that is left of its line. -/
def FillsLastLine (s : List Char) : Prop := ∃ l, (lexemes s).getLast? = some l ∧ l.fillsLine = true

/-- A lexeme at the front is the first lexeme. -/
theorem lexemes_of_scan {s rest : List Char} {l : Lexeme} (h : Lexeme.scan s = some (l, rest)) :
    lexemes s = l :: lexemes rest := by
  rw [lexemes, pieces_of_scan h]
  rfl

/-- A character that is skipped is no lexeme. -/
theorem lexemes_of_scan_none {c : Char} {s : List Char} (h : Lexeme.scan (c :: s) = none) :
    lexemes (c :: s) = lexemes s := by
  rw [lexemes, pieces_of_scan_none h]
  rfl

@[simp] theorem pieces_nil : pieces [] = [] := by
  rw [pieces]

@[simp] theorem lexemes_nil : lexemes [] = [] := by
  rw [lexemes, pieces_nil, List.filterMap_nil]

private theorem Closed.of_scan {s rest : List Char} {l : Lexeme} (hs : Closed s)
    (h : Lexeme.scan s = some (l, rest)) : l.isClosed = true ∧ Closed rest := by
  rw [Closed, lexemes_of_scan h] at hs
  exact ⟨hs l List.mem_cons_self, fun x hx => hs x (List.mem_cons_of_mem l hx)⟩

private theorem FillsLastLine.of_scan {s rest : List Char} {l : Lexeme}
    (h : Lexeme.scan s = some (l, rest)) (hr : FillsLastLine rest) : FillsLastLine s := by
  obtain ⟨x, hx, hf⟩ := hr
  refine ⟨x, ?_, hf⟩
  rw [lexemes_of_scan h, List.getLast?_cons, hx]
  rfl

/-- A closed source is cut by itself, whatever follows its next break. -/
theorem pieces_append {a b : List Char} (ha : Closed a) (hb : Parted b)
    (hline : FillsLastLine a → ∀ c ∈ b.head?, c = '\n') :
    pieces (a ++ b) = pieces a ++ pieces b := by
  induction a using pieces.induct with
  | case1 => simp
  | case2 c a l rest hs ih =>
    obtain ⟨hl, hrest⟩ := ha.of_scan hs
    have hlast : l.fillsLine = true → rest = [] → ∀ c ∈ b.head?, c = '\n' := by
      rintro hf rfl
      exact hline ⟨l, by rw [lexemes_of_scan hs]; simp [lexemes], hf⟩
    rw [pieces_of_scan (Lexeme.scan_append_of_parted hb hs hl hlast), pieces_of_scan hs,
      ih hrest fun hf => hline (hf.of_scan hs), List.cons_append]
  | case3 c a hs ih =>
    have hrest : lexemes (c :: a) = lexemes a := lexemes_of_scan_none hs
    have hnone : Lexeme.scan (c :: (a ++ b)) = none := Lexeme.scan_append_of_none hb hs
    rw [List.cons_append, pieces_of_scan_none hnone, pieces_of_scan_none hs,
      ih (by rwa [Closed, ← hrest]) (by rwa [FillsLastLine, ← hrest]), List.cons_append]

/-- The lexemes of the longer text are those of its two parts. -/
theorem lexemes_append {a b : List Char} (ha : Closed a) (hb : Parted b)
    (hline : FillsLastLine a → ∀ c ∈ b.head?, c = '\n') :
    lexemes (a ++ b) = lexemes a ++ lexemes b := by
  rw [lexemes, pieces_append ha hb hline, List.filterMap_append]
  rfl

/-- A line end behind a closed source is a lexeme of its own. -/
theorem pieces_append_newline {a : List Char} (ha : Closed a) (b : List Char) :
    pieces (a ++ '\n' :: b) = pieces a ++ .lexeme .newline :: pieces b := by
  rw [pieces_append ha (parted_cons.mpr rfl) (fun _ c hc => (Option.some.inj hc).symm),
    pieces_of_scan (Lexeme.scan_newline b)]

/-- The tokens of a source are found one after the other. -/
theorem tokens_of_lexemes {s a b : List Char} (h : lexemes s = lexemes a ++ lexemes b) :
    tokens s = (do return (← tokens a) ++ (← tokens b)) := by
  rw [tokens, h, List.mapM_append]
  rfl

theorem tokens_newline (b : List Char) : tokens ('\n' :: b) = (tokens b).map (.newline :: ·) := by
  rw [tokens, lexemes_of_scan (Lexeme.scan_newline b), List.mapM_cons, ← tokens]
  cases tokens b <;> rfl

/-- A closed line is made tokens by itself, and so is the source behind it. -/
theorem tokens_append_newline {a : List Char} (ha : Closed a) (b : List Char) :
    tokens (a ++ '\n' :: b) = (do return (← tokens a) ++ .newline :: (← tokens b)) := by
  have hsplit : lexemes (a ++ '\n' :: b) = lexemes a ++ lexemes ('\n' :: b) :=
    lexemes_append ha (parted_cons.mpr rfl) fun _ _ hc => (Option.some.inj hc).symm
  rw [tokens_of_lexemes hsplit, tokens_newline]
  cases tokens a <;> cases tokens b <;> rfl

/-- Indentation has no lexemes. -/
theorem lexemes_indent {indent : List Char} (hi : ∀ c ∈ indent, isBlank c = true ∧ c ≠ '\n')
    (s : List Char) : lexemes (indent ++ s) = lexemes s := by
  induction indent with
  | nil => rfl
  | cons c indent ih =>
    obtain ⟨hc, hn⟩ := hi c List.mem_cons_self
    rw [List.cons_append, lexemes_of_scan_none (Lexeme.scan_of_isBlank hc hn _),
      ih fun d hd => hi d (List.mem_cons_of_mem c hd)]

end Source

end Lifeline
