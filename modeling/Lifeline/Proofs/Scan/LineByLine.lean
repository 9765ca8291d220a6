import Lifeline.Proofs.NumeralFaults
import Lifeline.Proofs.Scan.LineNumbers
import Lifeline.Proofs.Scan.Tokens

/-!
# Sources that are read line by line

A source may be read by itself before the next line is known exactly if each of its
lexemes is closed. What a lexeme leaves open takes the next line with it: quotes and
values take everything, and a directive in braces takes what comes before its
closing mark, so that there is always a next line that shows the difference.
-/

namespace Lifeline

open Text

namespace Span

/-- The span with `k` more characters in front of it. -/
def moved (k : Nat) (s : Span) : Span := { s with start := k + s.start, stop := k + s.stop }

/-- The span of a line end. -/
def newline (start : Nat) : Span := ⟨.newline, "\n", start, start + 1⟩

end Span

namespace Source

variable {a : List Char}

private theorem spanOf_add (k start : Nat) (l : Lexeme) :
    spanOf (k + start) l = (spanOf start l).map (Span.moved k) := by
  rw [spanOf, spanOf]
  cases l.token with
  | error e => rfl
  | ok t => simp only [bind, Except.bind, pure, Except.pure, Except.map, Span.moved, Nat.add_assoc]

/-- More characters in front move all spans. -/
theorem mapM_spanOf_add (k : Nat) (ls : List (Nat × Lexeme)) :
    (ls.map fun p => (k + p.1, p.2)).mapM (fun p => spanOf p.1 p.2) =
      (ls.mapM fun p => spanOf p.1 p.2).map (List.map (Span.moved k)) := by
  induction ls with
  | nil => rfl
  | cons p ls ih =>
    rw [List.map_cons, List.mapM_cons, List.mapM_cons, ih, spanOf_add]
    cases spanOf p.1 p.2 with
    | error e => rfl
    | ok s => cases ls.mapM fun p => spanOf p.1 p.2 <;> rfl

/-- Behind a closed line stands the span of its end, and then the moved spans of the source behind
it. -/
theorem spans_append_newline (hc : Closed a) (b : List Char) :
    spans (a ++ '\n' :: b) =
      (do return (← spans a) ++ .newline a.length :: (← spans b).map (.moved (a.length + 1))) := by
  rw [spans, locate_append_newline hc, List.mapM_append, List.mapM_cons, mapM_spanOf_add, spans,
    spans]
  cases (locate 0 (pieces a)).mapM fun p => spanOf p.1 p.2 with
  | error e => rfl
  | ok ss => cases (locate 0 (pieces b)).mapM fun p => spanOf p.1 p.2 <;> rfl

/-- Behind a closed source whose last line is not filled, spaces, tabs and carriage returns part
what follows. -/
theorem tokens_append_gap (hc : Closed a) (hf : ¬FillsLastLine a) {w : List Char} (hne : w ≠ [])
    (hw : ∀ c ∈ w, c = ' ' ∨ c = '\t' ∨ c = '\r') (b : List Char) :
    tokens (a ++ (w ++ b)) = (do return (← tokens a) ++ (← tokens b)) := by
  have hparted : Parted (w ++ b) := by
    obtain ⟨c, w, rfl⟩ := List.exists_cons_of_ne_nil hne
    rw [List.cons_append, parted_cons]
    rcases hw c List.mem_cons_self with rfl | rfl | rfl <;> rfl
  have hblank : ∀ c ∈ w, isBlank c = true ∧ c ≠ '\n' := by
    intro c hmem
    rcases hw c hmem with rfl | rfl | rfl <;> decide
  have hsplit : lexemes (a ++ (w ++ b)) = lexemes a ++ lexemes b := by
    rw [lexemes_append hc hparted fun h => absurd h hf, lexemes_indent hblank]
  exact tokens_of_lexemes hsplit

/-- A lexeme in front of a source may be one that has no token. -/
theorem tooLong?_of_scan {s rest : List Char} {l : Lexeme} (h : Lexeme.scan s = some (l, rest)) :
    tooLong? s = none ↔ l.tooLong? = none ∧ tooLong? rest = none := by
  rw [tooLong?, tooLong?, lexemes_of_scan h, List.findSome?_eq_none_iff,
    List.findSome?_eq_none_iff, List.forall_mem_cons]

/-- A character that is skipped makes no difference. -/
theorem tooLong?_of_scan_none {c : Char} {s : List Char} (h : Lexeme.scan (c :: s) = none) :
    tooLong? (c :: s) = tooLong? s := by
  rw [tooLong?, lexemes_of_scan_none h, tooLong?]

theorem tooLong?_nil : tooLong? [] = none := by
  rw [tooLong?, lexemes_nil, List.findSome?_nil]

end Source

namespace Lexeme

open Source

variable {s rest : List Char} {l : Lexeme}

/-- The line that closes a directive in braces which has been left open. -/
def closingLine : List Char := ['x', '\x7d', '%', '%']

private theorem tooLong?_closingLine : Source.tooLong? closingLine = none := by decide +kernel

/-- A value that has been left open takes in a line end as well. -/
theorem scanTag_append_newline {u : List Char} (ho : (scanTag u).1.isClosed = false) :
    ∃ name value, scanTag (u ++ ['\n']) = (tag name value, []) := by
  have hnewline : ∀ c ∈ ['\n'].head?, isWordChar c = false := by
    rintro c ⟨⟩
    rfl
  rw [scanTag, takeWhile_append_of_head hnewline, dropWhile_append_of_head hnewline]
  rw [scanTag] at ho
  cases hv : u.dropWhile isWordChar with
  | nil =>
    rw [hv] at ho
    cases ho
  | cons c v =>
    rw [hv] at ho
    rw [List.cons_append, scanValue]
    simp only [scanValue] at ho
    cases hb : Bracket.ofOpener? c with
    | none =>
      rw [hb] at ho
      cases ho
    | some bracket =>
      simp only [hb, isClosed, Enclosed.closed_ofSplit, Option.isSome_eq_false_iff,
        Option.isNone_iff_eq_none] at ho
      have hopen := Bracket.split_append_of_none bracket.closer_ne_newline ho
      simp only [hopen, Enclosed.ofSplit]
      exact ⟨_, _, rfl⟩

/-- A directive in braces that has been left open takes in everything up to the closing line. -/
theorem scanDirective_append_closingLine {u : List Char}
    (ho : (scanDirective u).1.isClosed = false) :
    ∃ before,
      scanDirective (u ++ '\n' :: closingLine) = (blockDirective (before ++ ['x']), []) := by
  cases hd : (after? ['\x7b'] u).bind (cut Directive.terminator) with
  | some p =>
    rw [scanDirective, hd] at ho
    cases ho
  | none =>
    have hbrace : (u.takeWhile (· != '\n')).head? = some '\x7b' := by
      simpa [scanDirective, hd, isClosed] using ho
    obtain ⟨v, rfl⟩ : ∃ v, u = '\x7b' :: v := by
      cases u with
      | nil => simp at hbrace
      | cons c u =>
        rw [List.takeWhile_cons] at hbrace
        split at hbrace
        · exact ⟨u, by rw [Option.some.inj hbrace]⟩
        · cases hbrace
    have hv : cut Directive.terminator v = none := hd
    have hparted : Parted ('\n' :: closingLine) := parted_cons.mpr rfl
    have hline : cut Directive.terminator ('\n' :: closingLine) = some (['\n', 'x'], []) := rfl
    have hafter : after? ['\x7b'] ('\x7b' :: v ++ '\n' :: closingLine) =
      some (v ++ '\n' :: closingLine) := rfl
    refine ⟨v ++ ['\n'], ?_⟩
    rw [scanDirective, hafter, Option.bind_some,
      cut_append_of_none Directive.terminator_no_break hparted hv, hline, List.append_assoc]
    rfl

private theorem scanQuoted_append_newline {quote : Quote} {u : List Char}
    (ho : (scanQuoted quote u).1.isClosed = false) :
    scanQuoted quote (u ++ ['\n']) = (quoted quote ⟨u ++ ['\n'], false⟩, []) := by
  have hopen : cut [quote.char] u = none := by
    simpa [scanQuoted, isClosed, Enclosed.closed_ofSplit] using ho
  have hnewline : cut [quote.char] ['\n'] = none := by cases quote <;> rfl
  rw [scanQuoted_append_of_open hopen (parted_cons.mpr rfl), hnewline]

private theorem tooLong?_of_letter (before : List Char) :
    (blockDirective (before ++ ['x'])).tooLong? = none := by
  have hobject : Directive.objectText? (before ++ ['x']) = none :=
    Directive.objectText?_of_getLast List.getLast?_concat (by decide) (by decide)
  rw [tooLong?, Directive.tooLong?, hobject, Option.bind_none]

/-- Behind what has been left open there is a line up to whose end the lexeme reaches. -/
theorem exists_scan_append_of_open (h : scan s = some (l, rest)) (ho : l.isClosed = false) :
    ∃ b k, scan (s ++ '\n' :: b) = some (k, []) ∧ Source.tooLong? b = none ∧ k.tooLong? = none := by
  rcases scan_eq_some_cases h with hp | ⟨u, rfl, hu⟩ | ⟨u, rfl, hu⟩ | ⟨quote, u, rfl, hu⟩
  · cases l <;> simp [isPlain, isClosed] at hp ho
  · obtain ⟨name, value, hscan⟩ := scanTag_append_newline (u := u) (by rwa [hu])
    exact ⟨[], _, by rw [List.cons_append, scan_at, hscan], tooLong?_nil, rfl⟩
  · obtain ⟨before, hscan⟩ := scanDirective_append_closingLine (u := u) (by rwa [hu])
    have htwo : scan ('%' :: '%' :: (u ++ '\n' :: closingLine)) =
        some (scanDirective (u ++ '\n' :: closingLine)) := rfl
    exact ⟨closingLine, _, by rw [List.cons_append, List.cons_append, htwo, hscan],
      tooLong?_closingLine, tooLong?_of_letter before⟩
  · have hopen : (scanQuoted quote u).1.isClosed = false := by rwa [hu]
    have hscan := scanQuoted_append_newline hopen
    exact ⟨[], _, by rw [List.cons_append, scan_quote, hscan], tooLong?_nil, rfl⟩

end Lexeme

namespace Source

/-- Behind a source that is not closed there is a line that takes away a lexeme. -/
theorem exists_append_of_not_closed (hc : ¬Closed a) (ha : tooLong? a = none) :
    ∃ b, tooLong? b = none ∧ tooLong? (a ++ '\n' :: b) = none ∧
      (lexemes (a ++ '\n' :: b)).length ≤ (lexemes a).length + (lexemes b).length := by
  -- The first lexeme that is open takes in all that follows; those before it stay as they are.
  induction a using pieces.induct with
  | case1 => exact absurd (by simp [Closed]) hc
  | case2 c a l rest hs ih =>
    obtain ⟨hfront, hrest⟩ := (tooLong?_of_scan hs).mp ha
    cases hl : l.isClosed with
    | false =>
      obtain ⟨b, k, hscan, hb, hk⟩ := Lexeme.exists_scan_append_of_open hs hl
      refine ⟨b, hb, (tooLong?_of_scan hscan).mpr ⟨hk, tooLong?_nil⟩, ?_⟩
      rw [lexemes_of_scan hscan, lexemes_of_scan hs, lexemes_nil, List.length_cons,
        List.length_cons, List.length_nil]
      omega
    | true =>
      have hopen : ¬Closed rest := by
        intro hclosed
        refine hc fun k hk => ?_
        rw [lexemes_of_scan hs] at hk
        rcases List.mem_cons.mp hk with rfl | hk
        · exact hl
        · exact hclosed k hk
      obtain ⟨b, hb, hjoin, hlen⟩ := ih hopen hrest
      have hscan := Lexeme.scan_append_of_parted (b := '\n' :: b) (parted_cons.mpr rfl) hs hl
        fun _ _ d hd => (Option.some.inj hd).symm
      refine ⟨b, hb, (tooLong?_of_scan hscan).mpr ⟨hfront, hjoin⟩, ?_⟩
      rw [lexemes_of_scan hscan, lexemes_of_scan hs, List.length_cons, List.length_cons]
      omega
  | case3 c a hs ih =>
    have hlexemes : lexemes (c :: a) = lexemes a := lexemes_of_scan_none hs
    have hrest : tooLong? a = none := tooLong?_of_scan_none hs ▸ ha
    obtain ⟨b, hb, hjoin, hlen⟩ := ih (by rwa [Closed, ← hlexemes]) hrest
    have hscan : Lexeme.scan (c :: (a ++ '\n' :: b)) = none :=
      Lexeme.scan_append_of_none (parted_cons.mpr rfl) hs
    refine ⟨b, hb, (tooLong?_of_scan_none hscan).trans hjoin, ?_⟩
    rw [List.cons_append, lexemes_of_scan_none hscan, hlexemes]
    exact hlen

end Source

/-- The source `a` reads as it does by itself when `b` stands on the lines behind it, and so does
`b` but for its place. -/
structure ReadsByLine (a b : String) : Prop where
  tokens : tokenize (a ++ "\n" ++ b) = (do return (← tokenize a) ++ .newline :: (← tokenize b))
  spans : tokenSpans (a ++ "\n" ++ b) =
    (do
      return (← tokenSpans a) ++
        .newline a.length :: (← tokenSpans b).map (.moved (a.length + 1)))

/-- A closed source reads as it does by itself whatever stands on the lines behind it. -/
theorem Source.Closed.readsByLine {a : String} (hc : Source.Closed a.toList) (b : String) :
    ReadsByLine a b := by
  have hjoin : (a ++ "\n" ++ b).toList = a.toList ++ '\n' :: b.toList := by simp
  constructor
  · rw [tokenize, hjoin, Source.tokens_append_newline hc]
    rfl
  · rw [tokenSpans, hjoin, Source.spans_append_newline hc, ← String.length_toList]
    rfl

/-- A source without a numeral that is too long reads as it does by itself whatever stands on the
lines behind it exactly if each of its lexemes holds the mark that closes it. Unless a directive
fills its last line, what follows it may then stand on the same line behind spaces, tabs or carriage
returns as well. -/
theorem holdsMark_iff_readsByLine {a : String} (ha : Source.tooLong? a.toList = none) :
    ((∀ l ∈ Source.lexemes a.toList, l.HoldsMark) ↔
      ∀ b : String, Source.tooLong? b.toList = none →
        Source.tooLong? (a ++ "\n" ++ b).toList = none → ReadsByLine a b) ∧
    ((∀ l ∈ Source.lexemes a.toList, l.HoldsMark) → ∀ b, ReadsByLine a b) ∧
    ((∀ l ∈ Source.lexemes a.toList, l.HoldsMark) → ¬Source.FillsLastLine a.toList →
      ∀ w b : String, w ≠ "" → (∀ c ∈ w.toList, c = ' ' ∨ c = '\t' ∨ c = '\r') →
        tokenize (a ++ w ++ b) = (do return (← tokenize a) ++ (← tokenize b))) := by
  simp only [← Source.closed_iff_holdsMark]
  refine ⟨⟨fun hc b _ _ => hc.readsByLine b, fun hreads => ?_⟩, fun hc => hc.readsByLine, ?_⟩
  · by_contra hc
    obtain ⟨b, hb, hjoin, hlen⟩ := Source.exists_append_of_not_closed hc ha
    have hboth : (a ++ "\n" ++ String.ofList b).toList = a.toList ++ '\n' :: b := by simp
    obtain ⟨ts, hts⟩ := Source.exists_tokens ha
    obtain ⟨us, hus⟩ := Source.exists_tokens hb
    obtain ⟨vs, hvs⟩ := Source.exists_tokens hjoin
    have htokens := (hreads (String.ofList b) (by rwa [String.toList_ofList])
      (by rwa [hboth])).tokens
    rw [tokenize, tokenize, tokenize, hboth, String.toList_ofList, hts, hus, hvs] at htokens
    have hlength : vs.length = (ts ++ .newline :: us).length :=
      congrArg List.length (Except.ok.inj htokens)
    rw [Source.length_tokens hts, Source.length_tokens hus, Source.length_tokens hvs] at hlen
    rw [List.length_append, List.length_cons] at hlength
    omega
  · intro hc hf w b hne hw
    rw [tokenize, String.toList_append, String.toList_append, List.append_assoc,
      Source.tokens_append_gap hc hf (by simpa using hne) hw]
    rfl

/-- A line in which every kind of mark closes something. -/
def closedLine : String := "A->B: \"hi\" @request\x7bid\x7d %%\x7binit: \x7b\x7d\x7d%%"

/-- The closed line is read before it is known what follows, on other lines or behind a blank. -/
theorem holdsMark_iff_readsByLine_sample :
    (∀ b, ReadsByLine closedLine b) ∧
      ∀ b, tokenize (closedLine ++ " " ++ b) =
        (do return (← tokenize closedLine) ++ (← tokenize b)) := by
  have hmarks : ∀ l ∈ Source.lexemes closedLine.toList, l.HoldsMark :=
    Source.closed_iff_holdsMark.mp (by decide +kernel)
  have hfills : ¬Source.FillsLastLine closedLine.toList := by
    rintro ⟨l, hl, hf⟩
    have hlast : (Source.lexemes closedLine.toList).getLast? =
        some (.blockDirective "init: \x7b\x7d".toList) := by decide +kernel
    rw [hlast] at hl
    cases hl
    cases hf
  obtain ⟨-, hlines, hgap⟩ := holdsMark_iff_readsByLine (a := closedLine) (by decide +kernel)
  refine ⟨hlines hmarks, fun b => hgap hmarks hfills " " b (by decide) ?_⟩
  rintro c hc
  exact .inl (by simpa using hc)

end Lifeline
