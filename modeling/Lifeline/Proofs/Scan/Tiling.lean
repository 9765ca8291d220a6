import Lifeline.Proofs.Scan.LineNumbers
import Lifeline.Proofs.Scan.Marks
import Lifeline.Proofs.Scan.Tokens
import Mathlib.Data.List.TakeDrop

/-!
# Spans tile their source

The spans of a source are pieces of it, none of them empty, which stand one after
the other. Between them stand only characters at which no token can start. So the
source is made of its spans and the gaps between them.
-/

namespace Lifeline

open Text

/-- No token can start at the front of the text. -/
structure StartsNothing (s : List Char) : Prop where
  head : ∀ c ∈ s.head?, c ≠ '\n' ∧ c ≠ '@' ∧ c ≠ ':' ∧ c ≠ '"' ∧ c ≠ '\'' ∧ c.isAlpha = false ∧
    c ≠ '_'
  directive : ¬['%', '%'] <+: s
  arrow : ¬['-', '>'] <+: s
  dashed : ¬['-', '-', '>'] <+: s

/-- The span stands in the text: it is not empty, and its characters are those at its place. -/
structure Span.StandsIn (s : List Char) (p : Span) : Prop where
  start_lt_stop : p.start < p.stop
  stop_le_length : p.stop ≤ s.length
  text : p.text.toList = (s.drop p.start).take (p.stop - p.start)

/-- The texts of spans, with what stands between them in `s` from the `offset`-th character on. -/
def withGaps (s : List Char) (offset : Nat) : List Span → List Char
  | [] => s.drop offset
  | p :: ps =>
    (s.drop offset).take (p.start - offset) ++ p.text.toList ++ withGaps s p.stop ps

/-- An arrow stands at the front of no text in which none is scanned. -/
theorem Arrow.not_prefix_of_scan {s : List Char} (h : Arrow.scan s = none) (a : Arrow) :
    ¬a.chars <+: s := by
  rintro ⟨r, rfl⟩
  have hmem : a ∈ longestFirst := by
    rcases a with ⟨line, head⟩
    cases line <;> cases head <;> decide
  have hnone := List.findSome?_eq_none_iff.mp h a hmem
  rw [after?_eq_some_iff.mpr rfl] at hnone
  cases hnone

/-- Where no lexeme is scanned, no token can start. -/
theorem startsNothing_of_scan {s : List Char} (h : Lexeme.scan s = none) : StartsNothing s := by
  have harrow (a : Arrow) : ¬a.chars <+: s := by
    rintro ⟨r, rfl⟩
    obtain ⟨u, hu⟩ : ∃ u, a.chars ++ r = '-' :: u := by
      rcases a with ⟨line, head⟩
      cases line <;> cases head <;> exact ⟨_, rfl⟩
    rw [hu, Lexeme.scan_dash, Option.map_eq_none_iff, ← hu] at h
    exact Arrow.not_prefix_of_scan h a (List.prefix_append _ _)
  refine ⟨fun c hc => ?_, ?_, harrow ⟨.solid, .stroked⟩, harrow ⟨.dashed, .stroked⟩⟩
  · obtain ⟨r, rfl⟩ := List.head?_eq_some_iff.mp hc
    have hword : ¬isWordStart c = true := by
      intro hw
      rw [Lexeme.scan_of_isWordStart hw] at h
      cases h
    simp only [isWordStart, Bool.or_eq_true, beq_iff_eq, not_or, Bool.not_eq_true] at hword
    refine ⟨?_, ?_, ?_, ?_, ?_, hword⟩ <;> rintro rfl <;> cases h
  · rintro ⟨r, rfl⟩
    cases h

namespace Source

variable {s : List Char} {ps : List Piece} {start k i : Nat} {l : Lexeme}

/-- A located lexeme stands behind the pieces in front of it. -/
theorem exists_pieces_of_locate (h : (locate start ps)[i]? = some (k, l)) :
    ∃ front back, ps = front ++ .lexeme l :: back ∧ k = start + width front ∧
      (front.filterMap Piece.lexeme?).length = i := by
  induction ps generalizing start i with
  | nil => simp [locate] at h
  | cons p ps ih =>
    cases p with
    | gap c =>
      obtain ⟨front, back, rfl, rfl, hi⟩ := ih h
      refine ⟨.gap c :: front, back, rfl, ?_, hi⟩
      rw [width_cons, Nat.add_assoc]
      rfl
    | lexeme m =>
      cases i with
      | zero =>
        cases h
        exact ⟨[], ps, rfl, rfl, rfl⟩
      | succ i =>
        obtain ⟨front, back, rfl, rfl, hi⟩ := ih h
        refine ⟨.lexeme m :: front, back, rfl, ?_, ?_⟩
        · rw [width_cons, Nat.add_assoc]
          rfl
        · exact congrArg (· + 1) hi

/-- The characters of a located lexeme are those at its place, and there is at least one. -/
theorem of_mem_locate (h : (k, l) ∈ locate 0 (pieces s)) :
    l.text ≠ [] ∧ k + l.text.length ≤ s.length ∧ l.text = (s.drop k).take l.text.length := by
  obtain ⟨i, hi⟩ := List.getElem?_of_mem h
  obtain ⟨front, back, hpieces, rfl, -⟩ := exists_pieces_of_locate hi
  obtain ⟨t, rest, hscan⟩ := exists_scan_of_mem (mem_lexemes_of_mem_locate h)
  have hs := flatMap_text_pieces s
  rw [hpieces, List.flatMap_append, List.flatMap_cons] at hs
  rw [Nat.zero_add, width, ← hs, List.drop_left]
  refine ⟨Lexeme.text_ne_nil_of_scan hscan, ?_, List.take_left.symm⟩
  simp only [List.length_append, Piece.text]
  omega

/-- Where no lexeme covers a character, none starts. -/
theorem scan_drop_of_uncovered (hi : i < s.length)
    (h : ∀ p ∈ locate 0 (pieces s), i < p.1 ∨ p.1 + p.2.text.length ≤ i) :
    Lexeme.scan (s.drop i) = none := by
  induction s using pieces.induct generalizing i with
  | case1 => simp at hi
  | case2 c s l rest hs ih =>
    have happend := Lexeme.scan_append hs
    rw [pieces_of_scan hs, locate, Nat.zero_add, ← Nat.add_zero l.text.length, locate_add] at h
    -- The place is not in the first lexeme, so it is one of the text behind it.
    obtain ⟨hfirst, hbehind⟩ := List.forall_mem_cons.mp h
    have hle : l.text.length ≤ i := by simpa using hfirst
    obtain ⟨j, rfl⟩ := Nat.exists_eq_add_of_le hle
    rw [← happend, List.length_append] at hi
    rw [← happend, List.drop_length_add_append]
    refine ih (by omega) fun p hp => ?_
    have := hbehind _ (List.mem_map_of_mem hp)
    simp only at this
    omega
  | case3 c s hs ih =>
    rw [pieces_of_scan_none hs, locate, Nat.zero_add, ← Nat.add_zero 1, locate_add] at h
    cases i with
    | zero => exact hs
    | succ i =>
      refine ih (Nat.lt_of_succ_lt_succ hi) fun p hp => ?_
      have := h _ (List.mem_map_of_mem hp)
      simp only at this
      omega

/-- The span of a lexeme is its place and its text. -/
theorem of_spanOf_eq_ok {p : Span} (h : spanOf start l = .ok p) :
    p.start = start ∧ p.stop = start + l.text.length ∧ p.text.toList = l.text := by
  rw [spanOf] at h
  cases ht : l.token with
  | error e => rw [ht] at h; cases h
  | ok t =>
    rw [ht] at h
    cases h
    exact ⟨rfl, rfl, String.toList_ofList⟩

/-- The spans of lexemes are their places and their texts. -/
theorem map_spans {ls : List (Nat × Lexeme)} {qs : List Span}
    (h : (ls.mapM fun p => spanOf p.1 p.2) = .ok qs) :
    (qs.map fun q => (q.start, q.stop, q.text.toList)) =
      ls.map fun p => (p.1, p.1 + p.2.text.length, p.2.text) := by
  have hall := forall₂_of_mapM h
  clear h
  induction hall with
  | nil => rfl
  | cons hp _ ih =>
    obtain ⟨hstart, hstop, htext⟩ := of_spanOf_eq_ok hp
    rw [List.map_cons, List.map_cons, ih, hstart, hstop, htext]

/-- Every span is that of the lexeme in its place. -/
theorem locate_of_spans {qs : List Span} (h : spans s = .ok qs) {q : Span}
    (hq : qs[i]? = some q) :
    ∃ l, (locate 0 (pieces s))[i]? = some (q.start, l) ∧ q.stop = q.start + l.text.length ∧
      q.text.toList = l.text := by
  have hplace := congrArg (·[i]?) (map_spans h)
  simp only [List.getElem?_map, hq, Option.map_some] at hplace
  obtain ⟨⟨k, l⟩, hl, he⟩ := Option.map_eq_some_iff.mp hplace.symm
  obtain ⟨rfl, he⟩ := Prod.mk.inj he
  obtain ⟨hstop, htext⟩ := Prod.mk.inj he
  exact ⟨l, hl, hstop.symm, htext.symm⟩

/-- Every lexeme has a span. -/
theorem mem_spans_of_mem_locate {qs : List Span} (h : spans s = .ok qs) {p : Nat × Lexeme}
    (hp : p ∈ locate 0 (pieces s)) :
    ∃ q ∈ qs, q.start = p.1 ∧ q.stop = p.1 + p.2.text.length := by
  have hplace : (p.1, p.1 + p.2.text.length, p.2.text) ∈
      qs.map fun q => (q.start, q.stop, q.text.toList) :=
    map_spans h ▸ List.mem_map_of_mem hp
  obtain ⟨q, hq, he⟩ := List.mem_map.mp hplace
  obtain ⟨hstart, he⟩ := Prod.mk.inj he
  exact ⟨q, hq, hstart, (Prod.mk.inj he).1⟩

/-- Spans stand one behind the other. -/
theorem pairwise_spans {qs : List Span} (h : spans s = .ok qs) :
    qs.Pairwise fun p q => p.stop ≤ q.start := by
  have hplaces : ((locate 0 (pieces s)).map fun p =>
      (p.1, p.1 + p.2.text.length, p.2.text)).Pairwise fun p q => p.2.1 ≤ q.1 :=
    List.pairwise_map.mpr (pairwise_locate 0 (pieces s))
  rw [← map_spans h] at hplaces
  exact List.pairwise_map.mp hplaces

/-- Spans stand in the source. -/
theorem standsIn_of_mem_spans {qs : List Span} (h : spans s = .ok qs) {q : Span} (hq : q ∈ qs) :
    q.StandsIn s := by
  obtain ⟨i, hi⟩ := List.getElem?_of_mem hq
  obtain ⟨l, hl, hstop, htext⟩ := locate_of_spans h hi
  obtain ⟨hne, hle, hchars⟩ := of_mem_locate (List.mem_of_getElem? hl)
  have hpos := List.length_pos_iff.mpr hne
  refine ⟨by omega, by omega, ?_⟩
  rw [htext, hstop, Nat.add_sub_cancel_left]
  exact hchars

end Source

/-- Spans that stand in a text one behind the other give it back with the gaps between them. -/
theorem withGaps_eq_drop {s : List Char} {offset : Nat} {ps : List Span}
    (hstands : ∀ p ∈ ps, p.StandsIn s) (hsorted : ps.Pairwise fun p q => p.stop ≤ q.start)
    (hfirst : ∀ p ∈ ps, offset ≤ p.start) : withGaps s offset ps = s.drop offset := by
  induction ps generalizing offset with
  | nil => rfl
  | cons p ps ih =>
    have hp := hstands p List.mem_cons_self
    have hgap := hfirst p List.mem_cons_self
    obtain ⟨hnext, hsorted⟩ := List.pairwise_cons.mp hsorted
    have hparts (m n : Nat) (hle : m ≤ n) : (s.drop m).take (n - m) ++ s.drop n = s.drop m := by
      have hall := List.drop_take_append_drop s m (n - m)
      rwa [Nat.add_sub_cancel' hle] at hall
    rw [withGaps, ih (fun q hq => hstands q (List.mem_cons_of_mem p hq)) hsorted hnext, hp.text,
      List.append_assoc, hparts _ _ (Nat.le_of_lt hp.start_lt_stop), hparts _ _ hgap]

/-- The spans of a source are pieces of it that stand one behind the other, and no token can start
at a character that none of them covers; spaces, tabs and carriage returns are such characters.
So the spans and the gaps between them are the source. -/
theorem tokenSpans_tile {source : String} {ps : List Span} (h : tokenSpans source = .ok ps) :
    (∀ p ∈ ps, p.StandsIn source.toList) ∧ ps.Pairwise (fun p q => p.stop ≤ q.start) ∧
      (∀ i < source.length, (∀ p ∈ ps, i < p.start ∨ p.stop ≤ i) →
        StartsNothing (source.toList.drop i)) ∧
      withGaps source.toList 0 ps = source.toList := by
  have hstands : ∀ p ∈ ps, p.StandsIn source.toList := fun p => Source.standsIn_of_mem_spans h
  have hsorted := Source.pairwise_spans h
  refine ⟨hstands, hsorted, fun i hi hgap => ?_, ?_⟩
  · rw [← String.length_toList] at hi
    refine startsNothing_of_scan (Source.scan_drop_of_uncovered hi fun q hq => ?_)
    obtain ⟨p, hp, hstart, hstop⟩ := Source.mem_spans_of_mem_locate h hq
    rw [← hstop, ← hstart]
    exact hgap p hp
  · rw [withGaps_eq_drop hstands hsorted fun p _ => Nat.zero_le _, List.drop_zero]

/-- A dash and a percent sign at which nothing starts, and a quote that is left open. -/
def gapSource : String := "A - %.B: \"hi"

/-- The spans of this source, two of them behind a gap. -/
def gapSpans : List Span :=
  [⟨.identifier, "A", 0, 1⟩, ⟨.identifier, "B", 6, 7⟩, ⟨.colon, ":", 7, 8⟩,
    ⟨.string, "\"hi", 9, 12⟩]

/-- Five characters in a row start nothing, and one more does not. -/
theorem tokenSpans_tile_sample :
    tokenSpans gapSource = .ok gapSpans ∧ withGaps gapSource.toList 0 gapSpans = gapSource.toList ∧
      ∀ i ∈ [1, 2, 3, 4, 5, 8], StartsNothing (gapSource.toList.drop i) := by
  have hspans : tokenSpans gapSource = .ok gapSpans := by decide +kernel
  obtain ⟨-, -, hgaps, hwhole⟩ := tokenSpans_tile hspans
  refine ⟨hspans, hwhole, fun i hi => ?_⟩
  have hplaces : ∀ i ∈ [1, 2, 3, 4, 5, 8],
      i < gapSource.length ∧ ∀ p ∈ gapSpans, i < p.start ∨ p.stop ≤ i := by decide +kernel
  exact hgaps i (hplaces i hi).1 (hplaces i hi).2

end Lifeline
