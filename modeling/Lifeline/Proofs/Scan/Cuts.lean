import Lifeline.Proofs.Scan.LineByLine
import Lifeline.Proofs.Scan.Tiling

/-!
# Sources that are cut between lexemes

What a lexeme is found to be does not depend on the text behind it, as long as the
lexeme itself stays whole: a mark that is not found in the longer text is not found in
the shorter one either. So a source may be cut behind any of its tokens, and each part
is read as it is read in the whole.
-/

namespace Lifeline

namespace Text

variable {a b rest mark before : List Char}

/-- A run that ends in front of the seam is the same in the shorter list. -/
theorem run_of_append {α : Type} {p : α → Bool} {xs ys rest : List α}
    (h : (xs ++ ys).dropWhile p = rest ++ ys) :
    xs.takeWhile p = (xs ++ ys).takeWhile p ∧ xs.dropWhile p = rest := by
  have hdrop : xs.dropWhile p = rest := by
    rw [List.dropWhile_append] at h
    split at h
    · next hall =>
      have hlength := congrArg List.length h
      have hle := (List.dropWhile_sublist p (l := ys)).length_le
      rw [List.length_append] at hlength
      rw [List.isEmpty_iff.mp hall, List.length_eq_zero_iff.mp (by omega : rest.length = 0)]
    · exact List.append_cancel_right h
  have htake : xs.takeWhile p ++ rest = xs := hdrop ▸ List.takeWhile_append_dropWhile
  have hwhole : (xs ++ ys).takeWhile p ++ (rest ++ ys) = xs ++ ys :=
    h ▸ List.takeWhile_append_dropWhile
  rw [← List.append_assoc] at hwhole
  exact ⟨List.append_cancel_right (htake.trans (List.append_cancel_right hwhole).symm), hdrop⟩

/-- A mark at the front of the shorter text is one at the front of the longer text. -/
theorem after?_append_of_some (h : after? mark a = some rest) :
    after? mark (a ++ b) = some (rest ++ b) := by
  rw [after?_eq_some_iff] at h ⊢
  rw [h, List.append_assoc]

/-- A mark in front of the seam is found in the shorter text. -/
theorem after?_of_append (h : after? mark (a ++ b) = some (rest ++ b)) :
    after? mark a = some rest := by
  rw [after?_eq_some_iff, ← List.append_assoc] at h
  exact after?_eq_some_iff.mpr (List.append_cancel_right h)

/-- A mark that is not found is not found in the shorter text. -/
theorem after?_of_append_none (h : after? mark (a ++ b) = none) : after? mark a = none := by
  cases ha : after? mark a with
  | none => rfl
  | some r => rw [after?_append_of_some ha] at h; cases h

private theorem cut_of_append_none (h : cut mark (a ++ b) = none) : cut mark a = none := by
  cases ha : cut mark a with
  | none => rfl
  | some p => rw [cut_append_of_some ha] at h; cases h

/-- A text that is cut in front of the seam is cut there in the shorter text. -/
theorem cut_of_append (h : cut mark (a ++ b) = some (before, rest ++ b)) :
    cut mark a = some (before, rest) := by
  have hwhole := cut_append h
  rw [← List.append_assoc] at hwhole
  -- The mark stands in the shorter text, and where it is first found there it is found in both.
  cases ha : cut mark a with
  | none =>
    exact absurd ⟨before, rest, List.append_cancel_right hwhole⟩ (cut_eq_none_iff.mp ha)
  | some p =>
    rw [cut_append_of_some ha] at h
    obtain ⟨x, y⟩ := p
    obtain ⟨hbefore, hrest⟩ := Prod.mk.inj (Option.some.inj h)
    exact congrArg some (Prod.ext hbefore (List.append_cancel_right hrest))

end Text

open Text

/-- A value that is closed in front of the seam is closed in the shorter text. -/
theorem Bracket.split_of_append {bracket : Bracket} {a b value rest : List Char}
    (h : bracket.split 0 (a ++ b) = some (value, rest ++ b)) :
    bracket.split 0 a = some (value, rest) := by
  obtain ⟨hcloses, hwhole⟩ := split_eq_some_iff.mp h
  rw [← List.cons_append, ← List.append_assoc] at hwhole
  exact split_eq_some_iff.mpr ⟨hcloses, List.append_cancel_right hwhole⟩

/-- An arrow in front of the seam is the longest one in the shorter text. -/
theorem Arrow.scan_of_append {a b rest : List Char} {x : Arrow}
    (h : Arrow.scan (a ++ b) = some (x, rest ++ b)) : Arrow.scan a = some (x, rest) := by
  obtain ⟨longer, y, shorter, hall, hy, hnone⟩ := List.findSome?_eq_some_iff.mp h
  refine List.findSome?_eq_some_iff.mpr ⟨longer, y, shorter, hall, ?_, fun z hz => ?_⟩
  · obtain ⟨r, hr, he⟩ := Option.map_eq_some_iff.mp hy
    cases he
    rw [after?_of_append hr]
    rfl
  · have hz := Option.map_eq_none_iff.mp (hnone z hz)
    rw [after?_of_append_none hz]
    rfl

private theorem Arrow.scan_of_append_none {a b : List Char} (h : Arrow.scan (a ++ b) = none) :
    Arrow.scan a = none := by
  refine List.findSome?_eq_none_iff.mpr fun x hx => ?_
  rw [after?_of_append_none (Option.map_eq_none_iff.mp (List.findSome?_eq_none_iff.mp h x hx))]
  rfl

/-- Text that is closed in front of the seam is enclosed in the shorter text as it was. -/
theorem Enclosed.ofSplit_of_append {a b rest : List Char} {inside : Enclosed}
    {find : List Char → Option (List Char × List Char)}
    (hfind : ∀ content r, find (a ++ b) = some (content, r ++ b) → find a = some (content, r))
    (h : ofSplit (a ++ b) (find (a ++ b)) = (inside, rest ++ b)) :
    ofSplit a (find a) = (inside, rest) := by
  cases hf : find (a ++ b) with
  | some p =>
    rw [hf] at h
    obtain ⟨rfl, hrest⟩ := Prod.mk.inj h
    rw [hfind p.1 rest (by rw [hf, ← hrest])]
    rfl
  | none =>
    -- What is left open reaches up to the end, so nothing stands behind the seam.
    have hrest := (Prod.mk.inj (hf ▸ h)).2
    obtain ⟨rfl, rfl⟩ := List.append_eq_nil_iff.mp hrest.symm
    simpa using h

namespace Lexeme

variable {a b rest : List Char} {l : Lexeme}

theorem scanDirective_of_append (h : scanDirective (a ++ b) = (l, rest ++ b)) :
    scanDirective a = (l, rest) := by
  rw [scanDirective] at h
  cases hfound : (after? ['\x7b'] (a ++ b)).bind (cut Directive.terminator) with
  | some p =>
    rw [hfound] at h
    obtain ⟨body, r⟩ := p
    obtain ⟨rfl, rfl⟩ := Prod.mk.inj h
    obtain ⟨u, hu, hcut⟩ := Option.bind_eq_some_iff.mp hfound
    obtain ⟨v, rfl⟩ : ∃ v, u = v ++ b :=
      ⟨body ++ Directive.terminator ++ rest, by rw [← cut_append hcut, ← List.append_assoc]⟩
    rw [scanDirective, after?_of_append hu, Option.bind_some, cut_of_append hcut]
  | none =>
    have hnone : (after? ['\x7b'] a).bind (cut Directive.terminator) = none := by
      cases ha : after? ['\x7b'] a with
      | none => rfl
      | some v =>
        rw [after?_append_of_some ha, Option.bind_some] at hfound
        exact cut_of_append_none hfound
    rw [hfound] at h
    obtain ⟨rfl, hrest⟩ := Prod.mk.inj h
    obtain ⟨htake, hdrop⟩ := run_of_append hrest
    rw [scanDirective, hnone, htake, hdrop]

private theorem scanValue_of_append {value : Option (Bracket × Enclosed)}
    (h : scanValue (a ++ b) = (value, rest ++ b)) : scanValue a = (value, rest) := by
  cases a with
  | nil =>
    have hwhole := congrArg List.length (scanValue_append ([] ++ b))
    rw [h, List.length_append, List.length_append, List.nil_append] at hwhole
    cases value with
    | none => rw [List.length_eq_zero_iff.mp (by omega : rest.length = 0), scanValue]
    | some v =>
      rw [valueText, List.length_cons] at hwhole
      omega
  | cons c a =>
    rw [List.cons_append, scanValue] at h
    rw [scanValue]
    cases hb : Bracket.ofOpener? c with
    | none =>
      rw [hb] at h
      obtain ⟨rfl, hrest⟩ := Prod.mk.inj h
      rw [← List.cons_append] at hrest
      rw [List.append_cancel_right hrest]
    | some bracket =>
      cases hs : Enclosed.ofSplit (a ++ b) (bracket.split 0 (a ++ b)) with
      | mk inside r =>
        simp only [hb, hs] at h
        obtain ⟨rfl, rfl⟩ := Prod.mk.inj h
        simp only [Enclosed.ofSplit_of_append (fun _ _ => Bracket.split_of_append) hs]

private theorem scanTag_of_append (h : scanTag (a ++ b) = (l, rest ++ b)) :
    scanTag a = (l, rest) := by
  cases hv : scanValue ((a ++ b).dropWhile isWordChar) with
  | mk value r =>
    rw [scanTag, hv] at h
    obtain ⟨rfl, rfl⟩ := Prod.mk.inj h
    have hrun : (a ++ b).dropWhile isWordChar = valueText value ++ rest ++ b := by
      rw [← scanValue_append ((a ++ b).dropWhile isWordChar), hv, List.append_assoc]
    obtain ⟨htake, hdrop⟩ := run_of_append hrun
    rw [hrun] at hv
    rw [scanTag, hdrop, scanValue_of_append hv, htake]

private theorem scanQuoted_of_append {quote : Quote}
    (h : scanQuoted quote (a ++ b) = (l, rest ++ b)) :
    scanQuoted quote a = (l, rest) := by
  cases hs : Enclosed.ofSplit (a ++ b) (cut [quote.char] (a ++ b)) with
  | mk inside r =>
    rw [scanQuoted, hs] at h
    obtain ⟨rfl, rfl⟩ := Prod.mk.inj h
    rw [scanQuoted, Enclosed.ofSplit_of_append (fun _ _ => cut_of_append) hs]

/-- A lexeme in front of the seam is the same in the shorter text. -/
theorem scan_of_append (h : scan (a ++ b) = some (l, rest ++ b)) : scan a = some (l, rest) := by
  cases a with
  | nil =>
    have hlt := length_lt_of_scan h
    rw [List.nil_append, List.length_append] at hlt
    omega
  | cons c a =>
    rw [List.cons_append] at h
    rcases scan_cases c with rfl | rfl | rfl | rfl | rfl | hw | hq
    · obtain ⟨rfl, hrest⟩ := Prod.mk.inj (Option.some.inj h)
      rw [scan_newline, List.append_cancel_right hrest]
    · obtain ⟨rfl, hrest⟩ := Prod.mk.inj (Option.some.inj h)
      rw [scan_colon, List.append_cancel_right hrest]
    · rw [scan_at, scanTag_of_append (Option.some.inj h)]
    · rw [scan_percent] at h
      obtain ⟨u, hu, hd⟩ := Option.map_eq_some_iff.mp h
      obtain ⟨front, hfront⟩ : ∃ front, (scanDirective u).1.text = '%' :: '%' :: front := by
        rw [scanDirective]
        split <;> exact ⟨_, rfl⟩
      have hwhole := scanDirective_append u
      rw [hfront, hd, List.cons_append, List.cons_append, ← List.append_assoc] at hwhole
      obtain rfl := (List.cons.inj (List.cons.inj hwhole).2).2
      rw [scan_percent, after?_of_append hu, Option.map_some, scanDirective_of_append hd]
    · rw [scan_dash] at h
      obtain ⟨⟨x, r⟩, hx, he⟩ := Option.map_eq_some_iff.mp h
      obtain ⟨rfl, rfl⟩ := Prod.mk.inj he
      rw [scan_dash, Arrow.scan_of_append hx]
      rfl
    · rw [scan_of_isWordStart hw, ← List.cons_append] at h
      obtain ⟨rfl, hrest⟩ := Prod.mk.inj (Option.some.inj h)
      obtain ⟨htake, hdrop⟩ := run_of_append hrest
      rw [scan_of_isWordStart hw, htake, hdrop]
    · rw [hq] at h
      obtain ⟨quote, hquote, hs⟩ := Option.map_eq_some_iff.mp h
      rw [hq, hquote, Option.map_some, scanQuoted_of_append hs]

/-- Where no lexeme starts in the longer text, none starts in the shorter one. -/
theorem scan_of_append_none {c : Char} (h : scan (c :: (a ++ b)) = none) :
    scan (c :: a) = none := by
  rcases scan_cases c with rfl | rfl | rfl | rfl | rfl | hw | hq
  · cases h
  · cases h
  · cases h
  · rw [scan_percent] at h ⊢
    rw [after?_of_append_none (Option.map_eq_none_iff.mp h)]
    rfl
  · rw [scan_dash, ← List.cons_append] at h
    rw [scan_dash, Arrow.scan_of_append_none (Option.map_eq_none_iff.mp h)]
    rfl
  · rw [scan_of_isWordStart hw] at h
    cases h
  · rw [hq, Option.map_eq_none_iff] at h
    rw [hq, h]
    rfl

end Lexeme

section

variable {α β : Type} {f : α → Except Failure β}

/-- Two lists that are read together are read one by one. -/
theorem mapM_of_append {xs ys : List α} {zs : List β} (h : (xs ++ ys).mapM f = .ok zs) :
    xs.mapM f = .ok (zs.take xs.length) ∧ ys.mapM f = .ok (zs.drop xs.length) := by
  rw [List.mapM_append] at h
  cases hx : xs.mapM f with
  | error e => rw [hx] at h; cases h
  | ok us =>
    cases hy : ys.mapM f with
    | error e => rw [hx, hy] at h; cases h
    | ok vs =>
      rw [hx, hy] at h
      cases h
      rw [(Source.forall₂_of_mapM hx).length_eq, List.take_left, List.drop_left]
      exact ⟨rfl, rfl⟩

end

namespace Source

variable {s : List Char} {front back : List Piece} {ts : List Token} {ps : List Span}

/-- The first piece of a source is the lexeme that is scanned at its front, or else a character. -/
theorem of_pieces_eq_cons {p : Piece} (h : pieces s = p :: back) :
    (∃ l rest, p = .lexeme l ∧ Lexeme.scan s = some (l, rest) ∧ pieces rest = back) ∨
      ∃ c rest, p = .gap c ∧ s = c :: rest ∧ Lexeme.scan s = none ∧ pieces rest = back := by
  cases hs : Lexeme.scan s with
  | some found =>
    obtain ⟨l, rest⟩ := found
    rw [pieces_of_scan hs] at h
    obtain ⟨rfl, rfl⟩ := List.cons.inj h
    exact .inl ⟨l, rest, rfl, rfl, rfl⟩
  | none =>
    cases s with
    | nil => simp at h
    | cons c rest =>
      rw [pieces_of_scan_none hs] at h
      obtain ⟨rfl, rfl⟩ := List.cons.inj h
      exact .inr ⟨c, rest, rfl, rfl, rfl, rfl⟩

/-- A source that is cut between two pieces has these pieces still. -/
theorem pieces_of_append (h : pieces s = front ++ back) :
    pieces (front.flatMap Piece.text) = front ∧ pieces (back.flatMap Piece.text) = back := by
  induction front generalizing s with
  | nil => exact ⟨pieces_nil, by rw [← List.nil_append back, ← h, flatMap_text_pieces]⟩
  | cons p front ih =>
    have hparts {rest : List Char} (hrest : pieces rest = front ++ back) :
        rest = front.flatMap Piece.text ++ back.flatMap Piece.text := by
      rw [← List.flatMap_append, ← hrest, flatMap_text_pieces]
    rcases of_pieces_eq_cons h with ⟨l, rest, rfl, hs, hrest⟩ | ⟨c, rest, rfl, rfl, hs, hrest⟩
    · obtain ⟨hfront, hback⟩ := ih hrest
      rw [← Lexeme.scan_append hs, hparts hrest, ← List.append_assoc] at hs
      refine ⟨?_, hback⟩
      rw [List.flatMap_cons]
      exact (pieces_of_scan (Lexeme.scan_of_append hs)).trans (congrArg _ hfront)
    · obtain ⟨hfront, hback⟩ := ih hrest
      rw [hparts hrest] at hs
      refine ⟨?_, hback⟩
      exact (pieces_of_scan_none (Lexeme.scan_of_append_none hs)).trans (congrArg _ hfront)

/-- The tokens of a source that is cut between two pieces are those of its two parts. -/
theorem tokens_of_append (hts : tokens s = .ok ts) (h : pieces s = front ++ back) :
    tokens (front.flatMap Piece.text) = .ok (ts.take (front.filterMap Piece.lexeme?).length) ∧
      tokens (back.flatMap Piece.text) = .ok (ts.drop (front.filterMap Piece.lexeme?).length) := by
  obtain ⟨hfront, hback⟩ := pieces_of_append h
  rw [tokens, lexemes, h, List.filterMap_append] at hts
  rw [tokens, tokens, lexemes, lexemes, hfront, hback]
  exact mapM_of_append hts

/-- The spans behind such a cut are those of the second part, moved behind the first one. -/
theorem spans_of_append (hps : spans s = .ok ps) (h : pieces s = front ++ back) :
    ∃ qs, spans (back.flatMap Piece.text) = .ok qs ∧
      qs.map (.moved (width front)) = ps.drop (front.filterMap Piece.lexeme?).length := by
  have hlength : (locate 0 front).length = (front.filterMap Piece.lexeme?).length := by
    rw [← map_snd_locate 0 front, List.length_map]
  rw [spans, h, locate_append, Nat.zero_add, ← Nat.add_zero (width front), locate_add] at hps
  have hmoved := (mapM_of_append hps).2
  rw [hlength, mapM_spanOf_add] at hmoved
  rw [spans, (pieces_of_append h).2]
  cases hqs : (locate 0 back).mapM fun p => spanOf p.1 p.2 with
  | error e => rw [hqs] at hmoved; cases hmoved
  | ok qs =>
    rw [hqs] at hmoved
    exact ⟨qs, rfl, Except.ok.inj hmoved⟩

/-- A source with tokens has as many spans. -/
theorem exists_spans_of_tokens (h : tokens s = .ok ts) :
    ∃ ps, spans s = .ok ps ∧ ps.length = ts.length := by
  cases hlong : tooLong? s with
  | some n => rw [tokens_of_tooLong? hlong] at h; cases h
  | none =>
    obtain ⟨ps, hps⟩ := exists_spans hlong
    have hlength := (forall₂_of_mapM hps).length_eq
    rw [← List.length_map Prod.snd, map_snd_locate, ← lexemes, length_tokens h] at hlength
    exact ⟨ps, hps, hlength.symm⟩

/-- The characters on the two sides of a cut are those of the pieces there. -/
theorem take_drop_of_append (h : pieces s = front ++ back) :
    s.take (width front) = front.flatMap Piece.text ∧
      s.drop (width front) = back.flatMap Piece.text := by
  rw [← flatMap_text_pieces s, h, List.flatMap_append, width]
  exact ⟨List.take_left, List.drop_left⟩

/-- A lexeme in the pieces of a source has its token there and by itself. -/
theorem tokens_lexeme {l : Lexeme} {t : Token} (hts : tokens s = .ok ts)
    (h : pieces s = front ++ .lexeme l :: back)
    (ht : ts[(front.filterMap Piece.lexeme?).length]? = some t) : tokens l.text = .ok [t] := by
  -- The lexeme is cut off on its left, and then on its right.
  have hbehind : pieces ((.lexeme l :: back).flatMap Piece.text) = [.lexeme l] ++ back :=
    (pieces_of_append h).2
  have halone := (tokens_of_append (tokens_of_append hts h).2 hbehind).1
  have hfirst : (ts.drop (front.filterMap Piece.lexeme?).length).take 1 = [t] := by
    rw [List.take_one, List.head?_drop, ht]
    rfl
  have htext : [Piece.lexeme l].flatMap Piece.text = l.text := List.append_nil l.text
  rw [htext] at halone
  exact halone.trans (congrArg _ hfirst)

/-- The characters of a source up to a place. -/
def upTo (source : String) (n : Nat) : String := String.ofList (source.toList.take n)

/-- The characters of a source behind a place. -/
def behind (source : String) (n : Nat) : String := String.ofList (source.toList.drop n)

end Source

/-- A source may be cut behind each of its tokens. The first part has the tokens up to there. The
second part has the others, and their spans but for the place of the cut. The text of a token has
this token alone. -/
theorem tokenize_restarts {source : String} {ts : List Token} (h : tokenize source = .ok ts) :
    ∃ ps, tokenSpans source = .ok ps ∧ ps.length = ts.length ∧
      ∀ i t p, ts[i]? = some t → ps[i]? = some p →
        tokenize (Source.upTo source p.stop) = .ok (ts.take (i + 1)) ∧
        tokenize (Source.behind source p.stop) = .ok (ts.drop (i + 1)) ∧
        (∃ qs, tokenSpans (Source.behind source p.stop) = .ok qs ∧
          qs.map (.moved p.stop) = ps.drop (i + 1)) ∧
        tokenize p.text = .ok [t] := by
  obtain ⟨ps, hps, hlength⟩ := Source.exists_spans_of_tokens h
  refine ⟨ps, hps, hlength, fun i t p ht hp => ?_⟩
  obtain ⟨l, hl, hstop, htext⟩ := Source.locate_of_spans hps hp
  obtain ⟨front, back, hpieces, hstart, rfl⟩ := Source.exists_pieces_of_locate hl
  have hcut : Source.pieces source.toList = (front ++ [.lexeme l]) ++ back := by
    rw [hpieces, List.append_assoc, List.singleton_append]
  have hwidth : Source.width (front ++ [.lexeme l]) = p.stop := by
    rw [Source.width_append, Source.width_cons, hstop, hstart, Nat.zero_add]
    rfl
  have hcount : ((front ++ [Piece.lexeme l]).filterMap Piece.lexeme?).length =
      (front.filterMap Piece.lexeme?).length + 1 := by
    rw [List.filterMap_append, List.length_append]
    rfl
  obtain ⟨htake, hdrop⟩ := Source.take_drop_of_append hcut
  obtain ⟨hfront, hback⟩ := Source.tokens_of_append h hcut
  have hspans := Source.spans_of_append hps hcut
  rw [hwidth] at htake hdrop hspans
  rw [hcount] at hfront hback hspans
  rw [tokenize, tokenize, tokenSpans, tokenize, Source.upTo, Source.behind, String.toList_ofList,
    String.toList_ofList, htake, hdrop, htext]
  exact ⟨hfront, hback, hspans, Source.tokens_lexeme h hpieces ht⟩

/-- A source with an arrow that could be shorter, a value, and a quote that is left open. -/
def cutSource : String := "A->>B @x\x7b1\x7d \"hi"

/-- The tokens of this source. -/
def cutTokens : List Token :=
  [.identifier "A", .arrow "->>", .identifier "B", .tag ⟨"x", some "1"⟩, .string "hi"]

/-- The spans of this source. -/
def cutSpans : List Span :=
  [⟨.identifier, "A", 0, 1⟩, ⟨.arrow, "->>", 1, 4⟩, ⟨.identifier, "B", 4, 5⟩,
    ⟨.tag, "@x\x7b1\x7d", 6, 11⟩, ⟨.string, "\"hi", 12, 15⟩]

/-- The source is cut behind its value. -/
theorem tokenize_restarts_sample :
    tokenize cutSource = .ok cutTokens ∧ tokenSpans cutSource = .ok cutSpans ∧
      tokenize (Source.upTo cutSource 11) = .ok (cutTokens.take 4) ∧
      tokenize (Source.behind cutSource 11) = .ok (cutTokens.drop 4) ∧
      tokenize "@x\x7b1\x7d" = .ok [.tag ⟨"x", some "1"⟩] := by
  have htokens : tokenize cutSource = .ok cutTokens := by decide +kernel
  have hspans : tokenSpans cutSource = .ok cutSpans := by decide +kernel
  obtain ⟨ps, hps, -, hcuts⟩ := tokenize_restarts htokens
  obtain rfl : cutSpans = ps := Except.ok.inj (hspans.symm.trans hps)
  obtain ⟨hfront, hbehind, -, halone⟩ := hcuts 3 _ _ rfl rfl
  exact ⟨htokens, hspans, hfront, hbehind, halone⟩

end Lifeline
