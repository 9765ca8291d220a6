import Lifeline.Proofs.Scan.Marks
import Lifeline.Proofs.Text.Returns
import Lifeline.Proofs.Text.Trim

/-!
# Scanning texts with carriage returns

A carriage return in front of a line end is skipped, unless a directive stands there
that runs to the end of its line: it takes the carriage return in. No other lexeme
that keeps to one line is scanned otherwise.
-/

namespace Lifeline

open Text

/-- The arrow at the front of a text is the same. -/
theorem Arrow.scan_withReturns (s : List Char) :
    Arrow.scan (withReturns s) = (Arrow.scan s).map (Prod.map id withReturns) := by
  have ha (a : Arrow) : (after? a.chars (withReturns s)).map (a, ·) =
      ((after? a.chars s).map (a, ·)).map (Prod.map id withReturns) := by
    rw [after?_withReturns a.chars_no_break, Option.map_map, Option.map_map]
    rfl
  simp only [Arrow.scan, ha, List.map_findSome?, Function.comp_def]

/-- Enclosed text that keeps to one line is the same. -/
theorem Enclosed.ofSplit_withReturns {s : List Char} {found : Option (List Char × List Char)}
    (h : '\n' ∉ (ofSplit s found).1.content) :
    ofSplit (withReturns s) (found.map (Prod.map withReturns withReturns)) =
      ((ofSplit s found).1, withReturns (ofSplit s found).2) := by
  cases found with
  | none =>
    have hs : withReturns s = s := withReturns_of_not_mem h
    simp [ofSplit, hs]
  | some p =>
    have hp : withReturns p.1 = p.1 := withReturns_of_not_mem h
    simp [ofSplit, hp]

namespace Lexeme

variable {s u rest line : List Char} {l : Lexeme}

/-- The lexeme in front of a carriage return: a directive that runs to the end of its line takes it
in. -/
def withReturn : Lexeme → Lexeme
  | lineDirective line => lineDirective (line ++ ['\r'])
  | l => l

private theorem withReturn_of_fillsLine (h : l.fillsLine = false) : l.withReturn = l := by
  cases l with
  | lineDirective line => cases h
  | _ => rfl

private theorem scanQuoted_withReturns {quote : Quote} (h : '\n' ∉ (scanQuoted quote u).1.text) :
    scanQuoted quote (withReturns u) =
      ((scanQuoted quote u).1, withReturns (scanQuoted quote u).2) := by
  have hinside : '\n' ∉ (Enclosed.ofSplit u (cut [quote.char] u)).1.content := fun hn =>
    h (List.mem_cons_of_mem _ (List.mem_append_left _ hn))
  simp only [scanQuoted, cut_withReturns quote.char_no_break (List.cons_ne_nil _ _),
    Enclosed.ofSplit_withReturns hinside]

private theorem scanValue_withReturns (h : '\n' ∉ valueText (scanValue u).1) :
    scanValue (withReturns u) = ((scanValue u).1, withReturns (scanValue u).2) := by
  cases u with
  | nil => rfl
  | cons c u =>
    by_cases hc : c = '\n'
    · subst hc
      rfl
    · rw [withReturns_cons hc, scanValue, scanValue]
      cases hb : Bracket.ofOpener? c with
      | none => simp only [withReturns_cons hc]
      | some bracket =>
        simp only [scanValue, hb] at h
        have hinside : '\n' ∉ (Enclosed.ofSplit u (bracket.split 0 u)).1.content := fun hn =>
          h (List.mem_cons_of_mem _ (List.mem_append_left _ hn))
        simp only [Bracket.split_withReturns, Enclosed.ofSplit_withReturns hinside]

private theorem scanTag_withReturns (h : '\n' ∉ (scanTag u).1.text) :
    scanTag (withReturns u) = ((scanTag u).1, withReturns (scanTag u).2) := by
  have hvalue : '\n' ∉ valueText (scanValue (u.dropWhile isWordChar)).1 := fun hn =>
    h (List.mem_append_right _ hn)
  simp only [scanTag, takeWhile_withReturns (p := isWordChar) rfl rfl,
    dropWhile_withReturns (p := isWordChar) rfl rfl, scanValue_withReturns hvalue]

/-- The body of a directive in braces is searched for in the same way. -/
theorem body_withReturns (u : List Char) :
    (after? ['\x7b'] (withReturns u)).bind (cut Directive.terminator) =
      ((after? ['\x7b'] u).bind (cut Directive.terminator)).map
        (Prod.map withReturns withReturns) := by
  rw [after?_withReturns Directive.brace_no_break]
  cases after? ['\x7b'] u with
  | none => rfl
  | some r => exact cut_withReturns Directive.terminator_no_break (List.cons_ne_nil _ _) r

private theorem scanDirective_withReturns {body : List Char}
    (h : scanDirective u = (blockDirective body, rest)) (hbody : '\n' ∉ body) :
    scanDirective (withReturns u) = (blockDirective body, withReturns rest) := by
  rw [scanDirective] at h
  split at h
  · next found =>
    cases h
    rw [scanDirective, body_withReturns, found]
    simp only [Option.map_some, Prod.map_apply, withReturns_of_not_mem hbody]
  · cases h

/-- A directive that runs to the end of its line takes in the carriage return there, if there is a
line end. -/
theorem scanDirective_withReturns_of_line (h : scanDirective u = (lineDirective line, rest)) :
    (rest = [] ∧ scanDirective (withReturns u) = (lineDirective line, [])) ∨
      ∃ behind, rest = '\n' :: behind ∧
        scanDirective (withReturns u) =
          (lineDirective (line ++ ['\r']), '\n' :: withReturns behind) := by
  rw [scanDirective] at h
  split at h
  · cases h
  · next hnone =>
    obtain ⟨hline, rfl⟩ := Prod.mk.inj h
    obtain rfl := lineDirective.inj hline
    have hnewline : '\n' ∉ u.takeWhile (· != '\n') := fun hn =>
      absurd (List.mem_takeWhile_imp hn) (by decide)
    have hu := withReturns_append (u.takeWhile (· != '\n')) (u.dropWhile (· != '\n'))
    rw [List.takeWhile_append_dropWhile, withReturns_of_not_mem hnewline] at hu
    rw [scanDirective, body_withReturns, hnone, Option.map_none, hu]
    rcases behind_line_cases u with hr | ⟨behind, hr⟩
    · refine .inl ⟨hr, ?_⟩
      simp only [hr, withReturns_nil, takeWhile_line hnewline (b := []) (by simp),
        dropWhile_line hnewline (b := []) (by simp)]
    · refine .inr ⟨behind, hr, ?_⟩
      have hreturn : '\n' ∉ u.takeWhile (· != '\n') ++ ['\r'] := by simpa using hnewline
      have hend : ∀ c ∈ ('\n' :: withReturns behind).head?, c = '\n' := by
        rintro c ⟨⟩
        rfl
      rw [hr, withReturns_newline, ← List.singleton_append (x := '\r'), ← List.append_assoc]
      simp only [takeWhile_line hreturn hend, dropWhile_line hreturn hend]

/-- A lexeme that keeps to one line is scanned just the same, unless it fills the line. -/
theorem scan_withReturns (h : scan s = some (l, rest)) (hl : '\n' ∉ l.text)
    (hf : l.fillsLine = false) : scan (withReturns s) = some (l, withReturns rest) := by
  cases s with
  | nil => simp [scan] at h
  | cons c s =>
    have hc : c ≠ '\n' := by
      rintro rfl
      cases h
      exact hl List.mem_cons_self
    rw [withReturns_cons hc]
    rcases scan_cases c with rfl | rfl | rfl | rfl | rfl | hw | hq
    · exact absurd rfl hc
    · cases h
      rfl
    · have ht := Option.some.inj h
      rw [scan_at, scanTag_withReturns (by rwa [ht]), ht]
    · rw [scan_percent] at h
      obtain ⟨u, hu, hd⟩ := Option.map_eq_some_iff.mp h
      rw [scan_percent, after?_withReturns (List.forall_mem_singleton.mpr rfl), hu, Option.map_some,
        Option.map_some]
      cases l with
      | lineDirective line => cases hf
      | blockDirective body =>
        have hbody : '\n' ∉ body := fun hn => hl (by simp [text, hn])
        rw [scanDirective_withReturns hd hbody]
      | _ => rw [scanDirective] at hd; split at hd <;> cases hd
    · rw [scan_dash] at h
      obtain ⟨p, hp, he⟩ := Option.map_eq_some_iff.mp h
      cases he
      rw [scan_dash, ← withReturns_cons hc, Arrow.scan_withReturns, hp]
      rfl
    · rw [scan_of_isWordStart hw] at h
      cases h
      rw [scan_of_isWordStart hw, ← withReturns_cons hc,
        takeWhile_withReturns (p := isWordChar) rfl rfl,
        dropWhile_withReturns (p := isWordChar) rfl rfl]
    · rw [hq] at h
      obtain ⟨quote, hquote, he⟩ := Option.map_eq_some_iff.mp h
      rw [hq, hquote, Option.map_some, scanQuoted_withReturns (by rwa [he]), he]

/-- A directive that runs to the end of its line is scanned with the carriage return there, if there
is a line end. -/
theorem scan_withReturns_of_line (h : scan s = some (lineDirective line, rest)) :
    (rest = [] ∧ scan (withReturns s) = some (lineDirective line, [])) ∨
      ∃ behind, rest = '\n' :: behind ∧ scan (withReturns s) =
        some (lineDirective (line ++ ['\r']), '\n' :: withReturns behind) := by
  have hscan (v : List Char) : scan ('%' :: '%' :: v) = some (scanDirective v) := rfl
  rcases scan_eq_some_cases h with hp | ⟨u, -, hu⟩ | ⟨u, rfl, hu⟩ | ⟨quote, u, -, hu⟩
  · cases hp
  · cases congrArg Prod.fst hu
  · have hs : withReturns ('%' :: '%' :: u) = '%' :: '%' :: withReturns u := rfl
    rw [hs, hscan]
    exact (scanDirective_withReturns_of_line hu).imp (And.imp_right (congrArg some))
      fun ⟨behind, hrest, hd⟩ => ⟨behind, hrest, congrArg some hd⟩
  · cases congrArg Prod.fst hu

/-- Where no lexeme starts, none starts. -/
theorem scan_withReturns_of_none {c : Char} (h : scan (c :: s) = none) :
    c ≠ '\n' ∧ scan (c :: withReturns s) = none := by
  have hc : c ≠ '\n' := by
    rintro rfl
    cases h
  refine ⟨hc, ?_⟩
  rcases scan_cases c with rfl | rfl | rfl | rfl | rfl | hw | hq
  · cases h
  · cases h
  · cases h
  · rw [scan_percent] at h ⊢
    rw [after?_withReturns (List.forall_mem_singleton.mpr rfl), Option.map_eq_none_iff.mp h]
    rfl
  · rw [scan_dash] at h ⊢
    rw [← withReturns_cons hc, Arrow.scan_withReturns, Option.map_eq_none_iff.mp h]
    rfl
  · rw [scan_of_isWordStart hw] at h
    cases h
  · rw [hq] at h ⊢
    rw [Option.map_eq_none_iff.mp h]
    rfl

end Lexeme

namespace Source

/-- The lexemes with a carriage return in front of every line end. -/
def returned : List Lexeme → List Lexeme
  | [] => []
  | l :: ls => (if ls.head? = some .newline then l.withReturn else l) :: returned ls

private theorem lexemes_withReturns_newline (s : List Char) :
    lexemes (withReturns ('\n' :: s)) = .newline :: lexemes (withReturns s) := by
  rw [withReturns_newline, lexemes_of_scan_none (Lexeme.scan_of_isBlank rfl (by decide) _),
    lexemes_of_scan (Lexeme.scan_newline _)]

/-- A source whose lexemes keep to one line has the same lexemes when its line ends have carriage
returns in front of them, which only the directives at the end of a line take in. -/
theorem lexemes_withReturns {s : List Char} (h : ∀ l ∈ lexemes s, l = .newline ∨ '\n' ∉ l.text) :
    lexemes (withReturns s) = returned (lexemes s) := by
  induction s using pieces.induct with
  | case1 => rw [withReturns_nil, lexemes_nil, returned]
  | case2 c s l rest hs ih =>
    rw [lexemes_of_scan hs] at h ⊢
    obtain ⟨hl, hrest⟩ := List.forall_mem_cons.mp h
    rw [returned, ← ih hrest]
    rcases hl with rfl | hl
    · have hsource : '\n' :: rest = c :: s := Lexeme.scan_append hs
      rw [← hsource, lexemes_withReturns_newline]
      split <;> rfl
    · cases hf : l.fillsLine with
      | false =>
        rw [lexemes_of_scan (Lexeme.scan_withReturns hs hl hf), Lexeme.withReturn_of_fillsLine hf,
          ite_self]
      | true =>
        obtain ⟨line, rfl⟩ : ∃ line, l = .lineDirective line := by
          cases l <;> first | exact ⟨_, rfl⟩ | cases hf
        -- The directive is the last lexeme, or the next one is the line end that stops it.
        rcases Lexeme.scan_withReturns_of_line hs with ⟨rfl, hscan⟩ | ⟨behind, rfl, hscan⟩
        · rw [lexemes_of_scan hscan, lexemes_nil, withReturns_nil, lexemes_nil]
          rfl
        · rw [lexemes_of_scan hscan, lexemes_withReturns_newline,
            lexemes_of_scan (Lexeme.scan_newline _), lexemes_of_scan (Lexeme.scan_newline _)]
          rfl
  | case3 c s hs ih =>
    obtain ⟨hc, hscan⟩ := Lexeme.scan_withReturns_of_none hs
    rw [lexemes_of_scan_none hs] at h ⊢
    rw [withReturns_cons hc, lexemes_of_scan_none hscan, ih h]

end Source

end Lifeline
