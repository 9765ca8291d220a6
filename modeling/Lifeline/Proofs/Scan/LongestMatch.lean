import Lifeline.Proofs.Scan.Cuts

/-!
# Words and arrows are as long as they can be

On its right a word takes every character that may stand in it, and the longest arrow is
looked for first. On the left it is what ends there that counts, a lexeme or a skipped
character. So every seam between two pieces of a source is looked at: no word and no
arrow behind it could have started in front of it.
-/

namespace Lifeline

open Text

/-- A place where one piece of a source ends, with `a` in front of it, and the next one starts, with
`b` behind it: a letter ends no word that goes on, and a dash belongs to no arrow behind it. -/
structure Seam (a b : List Char) : Prop where
  word : ∀ c ∈ a.getLast?, isWordStart c = true → ∀ d ∈ b.head?, isWordChar d = false
  arrow : a.getLast? = some '-' → ¬['-', '>'] <+: b

namespace Seam

variable {a b : List Char}

/-- Nothing goes on over the end of a line or of the source. -/
theorem before_newline (a : List Char) (hb : ∀ d ∈ b.head?, d = '\n') : Seam a b := by
  refine ⟨fun _ _ _ d hd => ?_, ?_⟩
  · rw [hb d hd]
    rfl
  · rintro - ⟨t, rfl⟩
    cases hb '-' rfl

/-- Nothing goes on behind a character that is neither a letter nor a dash. -/
theorem of_last {c : Char} (hw : isWordStart c = false) (hd : c ≠ '-') (front b : List Char) :
    Seam (front ++ [c]) b := by
  refine ⟨fun d hl hs => ?_, fun hl => ?_⟩
  · rw [List.getLast?_concat] at hl
    obtain rfl := Option.some.inj hl
    rw [hw] at hs
    cases hs
  · rw [List.getLast?_concat] at hl
    exact absurd (Option.some.inj hl) hd

/-- Where there are no dashes, nothing goes on before a character that may not stand in a word. -/
theorem of_head (ha : '-' ∉ a) (hb : ∀ d ∈ b.head?, isWordChar d = false) : Seam a b :=
  ⟨fun _ _ _ => hb, fun hl => absurd (List.mem_of_getLast? hl) ha⟩

private theorem append (h : Seam a b) (hne : a ≠ []) (front : List Char) : Seam (front ++ a) b := by
  have hlast : (front ++ a).getLast? = a.getLast? := List.getLast?_append_of_ne_nil front hne
  exact ⟨by rw [hlast]; exact h.word, by rw [hlast]; exact h.arrow⟩

end Seam

namespace Arrow

variable {s rest : List Char} {x y : Arrow}

/-- The arrow that is scanned is the longest one at the front of the text. -/
theorem length_le_of_scan (h : Arrow.scan s = some (x, rest)) (hy : y.chars <+: s) :
    y.chars.length ≤ x.chars.length := by
  obtain ⟨longer, z, shorter, hall, hz, hnone⟩ := List.findSome?_eq_some_iff.mp h
  obtain ⟨_, -, heq⟩ := Option.map_eq_some_iff.mp hz
  obtain rfl : z = x := congrArg Prod.fst heq
  obtain ⟨t, rfl⟩ := hy
  have hmem : y ∈ longer ++ z :: shorter := by
    rw [← hall]
    rcases y with ⟨line, head⟩
    cases line <;> cases head <;> decide
  have hsorted : longestFirst.Pairwise fun p q => q.chars.length ≤ p.chars.length := by decide
  rw [hall, List.pairwise_append, List.pairwise_cons] at hsorted
  rcases List.mem_append.mp hmem with hlonger | hrest
  · have hy := hnone y hlonger
    rw [after?_eq_some_iff.mpr rfl] at hy
    cases hy
  · rcases List.mem_cons.mp hrest with rfl | hshorter
    · exact Nat.le_refl _
    · exact hsorted.2.1.1 y hshorter

private theorem dash_of_prefix_drop {n : Nat} (h : x.chars <+: y.chars.drop (n + 1)) :
    y.chars.take (n + 1) = ['-'] ∧ ['-', '>'] <+: x.chars := by
  rcases x with ⟨line, head⟩
  rcases y with ⟨line', head'⟩
  rcases n with _ | _ | _ | n <;> cases line <;> cases head <;> cases line' <;> cases head' <;>
    simp_all [chars]

end Arrow

namespace Lexeme

variable {s rest : List Char} {l : Lexeme}

/-- A plain lexeme is a line end, a colon, the longest arrow, or all the letters of a word. -/
theorem scan_plain_cases (h : scan s = some (l, rest)) (hp : l.isPlain = true) :
    l = newline ∨ l = colon ∨ (∃ x, l = arrow x ∧ Arrow.scan s = some (x, rest)) ∨
      (l = word (s.takeWhile isWordChar) ∧ rest = s.dropWhile isWordChar) := by
  cases s with
  | nil => simp [scan] at h
  | cons c s =>
    rcases scan_cases c with rfl | rfl | rfl | rfl | rfl | hw | hq
    · exact .inl (congrArg Prod.fst (Option.some.inj h)).symm
    · exact .inr (.inl (congrArg Prod.fst (Option.some.inj h)).symm)
    · rw [scan_at] at h
      obtain rfl := congrArg Prod.fst (Option.some.inj h)
      cases hp
    · rw [scan_percent] at h
      obtain ⟨u, -, hd⟩ := Option.map_eq_some_iff.mp h
      obtain rfl := congrArg Prod.fst hd
      rw [scanDirective] at hp
      split at hp <;> cases hp
    · rw [scan_dash] at h
      obtain ⟨⟨x, r⟩, hx, he⟩ := Option.map_eq_some_iff.mp h
      cases he
      exact .inr (.inr (.inl ⟨x, rfl, hx⟩))
    · rw [scan_of_isWordStart hw] at h
      obtain ⟨rfl, rfl⟩ := Prod.mk.inj (Option.some.inj h)
      exact .inr (.inr (.inr ⟨rfl, rfl⟩))
    · rw [hq] at h
      obtain ⟨quote, -, he⟩ := Option.map_eq_some_iff.mp h
      obtain rfl := congrArg Prod.fst he
      cases hp

theorem dash_not_mem_takeWhile (u : List Char) : '-' ∉ u.takeWhile isWordChar :=
  fun h => absurd (List.mem_takeWhile_imp h) (by decide)

private theorem seam_of_isPlain (h : scan s = some (l, rest)) (hp : l.isPlain = true) :
    Seam l.text rest := by
  rcases scan_plain_cases h hp with rfl | rfl | ⟨x, rfl, -⟩ | ⟨rfl, rfl⟩
  · exact .of_last rfl (by decide) [] rest
  · exact .of_last rfl (by decide) [] rest
  · have hx : x.chars = x.chars.dropLast ++ ['>'] := by
      rcases x with ⟨line, head⟩
      cases line <;> cases head <;> rfl
    rw [text, hx]
    exact .of_last rfl (by decide) _ rest
  · exact .of_head (dash_not_mem_takeWhile s) fun d hd => head?_dropWhile_eq_false hd

theorem seam_of_scanTag (u : List Char) : Seam (scanTag u).1.text (scanTag u).2 := by
  rw [scanTag]
  cases hv : u.dropWhile isWordChar with
  | nil => exact .before_newline _ (by simp [scanValue])
  | cons c v =>
    rw [scanValue]
    cases hb : Bracket.ofOpener? c with
    | none =>
      refine .of_head ?_ fun d hd => head?_dropWhile_eq_false (hv ▸ hd)
      simpa [text, valueText] using dash_not_mem_takeWhile u
    | some bracket =>
      cases hs : bracket.split 0 v with
      | none => exact .before_newline _ (by simp [hs, Enclosed.ofSplit])
      | some p =>
        have htext : (tag (u.takeWhile isWordChar) (some (bracket, ⟨p.1, true⟩))).text =
            '@' :: (u.takeWhile isWordChar) ++ bracket.opener :: p.1 ++ [bracket.closer] := by
          simp [text, valueText, Enclosed.text]
        simp only [hs, Enclosed.ofSplit]
        rw [htext]
        exact .of_last (by cases bracket <;> rfl) (by cases bracket <;> decide) _ _

theorem seam_of_scanDirective (u : List Char) :
    Seam (scanDirective u).1.text (scanDirective u).2 := by
  rw [scanDirective]
  split
  · next body rest _ =>
    have htext : (blockDirective body).text =
        '%' :: '%' :: '\x7b' :: body ++ ['\x7d', '%'] ++ ['%'] := by
      simp [text, Directive.terminator]
    rw [htext]
    exact .of_last rfl (by decide) _ rest
  · exact .before_newline _ fun d hd => by simpa using head?_dropWhile_eq_false hd

private theorem seam_of_scanQuoted (quote : Quote) (u : List Char) :
    Seam (scanQuoted quote u).1.text (scanQuoted quote u).2 := by
  rw [scanQuoted]
  cases hs : cut [quote.char] u with
  | none => exact .before_newline _ (by simp [Enclosed.ofSplit])
  | some p =>
    have htext : (quoted quote ⟨p.1, true⟩).text = quote.char :: p.1 ++ [quote.char] := rfl
    rw [Enclosed.ofSplit, htext]
    exact .of_last (by cases quote <;> rfl) (by cases quote <;> decide) _ p.2

/-- Every lexeme leaves a seam behind it. -/
theorem seam_of_scan (h : scan s = some (l, rest)) : Seam l.text rest := by
  rcases scan_eq_some_cases h with hp | ⟨u, -, hu⟩ | ⟨u, -, hu⟩ | ⟨quote, u, -, hu⟩
  · exact seam_of_isPlain h hp
  · have hseam := seam_of_scanTag u
    rwa [hu] at hseam
  · have hseam := seam_of_scanDirective u
    rwa [hu] at hseam
  · have hseam := seam_of_scanQuoted quote u
    rwa [hu] at hseam

/-- So does a character that is skipped: no word starts with it, and no arrow. -/
theorem seam_of_scan_none {c : Char} (h : scan (c :: s) = none) : Seam [c] s := by
  obtain ⟨hhead, -, -, hdashed⟩ := startsNothing_of_scan h
  obtain ⟨-, -, -, -, -, hletter, hunderscore⟩ := hhead c rfl
  refine ⟨fun d hd hs => ?_, fun hd => ?_⟩
  · obtain rfl := Option.some.inj hd
    simp [isWordStart, hletter, hunderscore] at hs
  · obtain rfl := Option.some.inj hd
    rintro ⟨t, rfl⟩
    exact hdashed (List.prefix_append ['-', '-', '>'] t)

end Lexeme

namespace Source

variable {s : List Char} {front back : List Piece} {l : Lexeme}

/-- There is a seam between each two pieces of a source. -/
theorem seam_of_pieces (h : pieces s = front ++ back) :
    Seam (front.flatMap Piece.text) (back.flatMap Piece.text) := by
  rcases List.eq_nil_or_concat front with rfl | ⟨init, p, rfl⟩
  · exact ⟨by simp, by simp⟩
  · -- The piece in front of the seam is the first one of the text behind the others.
    rw [List.concat_eq_append, List.append_assoc] at h
    have hback {rest : List Char} (hrest : pieces rest = back) :
        rest = back.flatMap Piece.text := by rw [← hrest, flatMap_text_pieces]
    rw [List.concat_eq_append, List.flatMap_append]
    rcases of_pieces_eq_cons (pieces_of_append h).2 with
      ⟨l, rest, rfl, hs, hrest⟩ | ⟨c, rest, rfl, hc, hs, hrest⟩
    · rw [← hback hrest, List.flatMap_singleton]
      exact (Lexeme.seam_of_scan hs).append (Lexeme.text_ne_nil_of_scan hs) _
    · rw [hc] at hs
      rw [← hback hrest, List.flatMap_singleton]
      exact (Lexeme.seam_of_scan_none hs).append (List.cons_ne_nil _ _) _

/-- A lexeme among the pieces of a source is scanned from the text there. -/
theorem scan_of_pieces (h : pieces s = front ++ .lexeme l :: back) :
    Lexeme.scan (l.text ++ back.flatMap Piece.text) = some (l, back.flatMap Piece.text) := by
  rcases of_pieces_eq_cons (pieces_of_append h).2 with ⟨k, rest, hk, hs, hrest⟩ | ⟨c, rest, hc, -⟩
  · obtain rfl := Piece.lexeme.inj hk
    rw [← hrest, flatMap_text_pieces, Lexeme.scan_append hs]
    exact hs
  · cases hc

/-- A word takes all the characters around it that could belong to it. -/
theorem word_of_pieces {letters : List Char}
    (h : pieces s = front ++ .lexeme (.word letters) :: back) :
    (∀ c ∈ (front.flatMap Piece.text).getLast?, isWordStart c = false) ∧
      ∀ d ∈ (back.flatMap Piece.text).head?, isWordChar d = false := by
  have hscan := scan_of_pieces h
  constructor
  · intro c hc
    obtain ⟨⟨d, hd, hstart⟩, -⟩ := word_of_scan hscan
    have hword : d ∈ ((Piece.lexeme (.word letters) :: back).flatMap Piece.text).head? := by
      rw [List.flatMap_cons, Piece.text, Lexeme.text, List.head?_append, Option.mem_def.mp hd]
      rfl
    rw [Bool.eq_false_iff]
    intro hc'
    have hd' := (seam_of_pieces h).word c hc hc' d hword
    rw [isWordChar_of_isWordStart hstart] at hd'
    cases hd'
  · rcases Lexeme.scan_plain_cases hscan rfl with hl | hl | ⟨x, hl, -⟩ | ⟨-, hrest⟩
    · cases hl
    · cases hl
    · cases hl
    · rw [hrest]
      exact fun d hd => head?_dropWhile_eq_false hd

/-- No longer arrow stands around an arrow. -/
theorem arrow_of_pieces {x y : Arrow} {n k : Nat}
    (h : pieces s = front ++ .lexeme (.arrow x) :: back) (hk : k + n = width front)
    (hy : y.chars <+: s.drop k) (hn : n + x.chars.length ≤ y.chars.length) :
    y.chars.length ≤ x.chars.length := by
  have hscan := scan_of_pieces h
  have hseam := seam_of_pieces h
  have hbehind : s.drop (width front) = x.chars ++ back.flatMap Piece.text :=
    (take_drop_of_append h).2
  cases n with
  | zero =>
    obtain rfl : k = width front := hk
    rcases Lexeme.scan_plain_cases hscan rfl with hl | hl | ⟨z, hl, hz⟩ | ⟨hl, -⟩
    · cases hl
    · cases hl
    · cases hl
      rw [hbehind] at hy
      exact Arrow.length_le_of_scan hz hy
    · cases hl
  | succ n =>
    -- The arrow would stand behind the first dash of the longer one, and that dash in front of the
    -- seam.
    obtain ⟨t, ht⟩ := hy
    have hdrop : (y.chars ++ t).drop (n + 1) = x.chars ++ back.flatMap Piece.text := by
      rw [ht, List.drop_drop, hk, hbehind]
    rw [List.drop_append_of_le_length (by omega)] at hdrop
    have hx : x.chars <+: y.chars.drop (n + 1) := by
      refine List.prefix_of_prefix_length_le (hdrop ▸ List.prefix_append _ _)
        (List.prefix_append _ t) ?_
      rw [List.length_drop]
      omega
    obtain ⟨hdash, hpoint⟩ := Arrow.dash_of_prefix_drop hx
    have hfront : front.flatMap Piece.text = s.take k ++ ['-'] := by
      rw [← (take_drop_of_append h).1, ← hk, List.take_add, ← ht,
        List.take_append_of_le_length (by omega), hdash]
    refine absurd (hpoint.trans (List.prefix_append _ _)) (hseam.arrow ?_)
    rw [hfront, List.getLast?_concat]

/-- Every span is that of a lexeme among the pieces of the source. -/
theorem exists_pieces_of_mem_spans {qs : List Span} (h : spans s = .ok qs) {q : Span}
    (hq : q ∈ qs) :
    ∃ front l back t, pieces s = front ++ .lexeme l :: back ∧ l.token = .ok t ∧
      q = ⟨t.kind, String.ofList l.text, width front, width front + l.text.length⟩ := by
  have hall := forall₂_of_mapM h
  rw [List.forall₂_iff_get] at hall
  obtain ⟨i, hi, rfl⟩ := List.getElem_of_mem hq
  have hj : i < (locate 0 (pieces s)).length := hall.1 ▸ hi
  obtain ⟨⟨start, l⟩, hl⟩ : ∃ p, (locate 0 (pieces s))[i]? = some p :=
    ⟨_, List.getElem?_eq_getElem hj⟩
  have hspan : spanOf start l = .ok qs[i] := by
    have := hall.2 i hj hi
    simp only [List.get_eq_getElem, (List.getElem?_eq_some_iff.mp hl).2] at this
    exact this
  obtain ⟨front, back, hpieces, rfl, -⟩ := exists_pieces_of_locate hl
  rw [Nat.zero_add, spanOf] at hspan
  cases ht : l.token with
  | error e => rw [ht] at hspan; cases hspan
  | ok t =>
    rw [ht] at hspan
    exact ⟨front, l, back, t, hpieces, ht, (Except.ok.inj hspan).symm⟩

end Source

namespace Token

/-- The kinds of token that a word may have. -/
def Kind.wordKinds : List Kind := [.keyword, .identifier, .as]

/-- A word is reserved by its exact letters, introduces a display name by its letters in any case,
and is an identifier otherwise; never two of these. -/
theorem kind_ofWord (word : String) :
    ((ofWord word).kind = .keyword ↔ word ∈ reserved) ∧
      ((ofWord word).kind = .as ↔ word.toList.map Char.toLower = ['a', 's']) ∧
      ((ofWord word).kind = .identifier ↔
        word ∉ reserved ∧ word.toList.map Char.toLower ≠ ['a', 's']) := by
  have hreserved : ∀ w ∈ reserved, w.toList.map Char.toLower ≠ ['a', 's'] := by decide
  rw [ofWord]
  split
  · next h =>
    have hmem : word ∈ reserved := List.contains_iff_mem.mp h
    simp [kind, hmem, hreserved word hmem]
  · next h =>
    rw [List.contains_iff_mem] at h
    split
    · next has => simp [kind, h, has]
    · next has => simp [kind, h, has]

end Token

namespace Lexeme

variable {l : Lexeme} {t : Token}

/-- A lexeme whose token is a word or an arrow by its kind is one. -/
theorem word_or_arrow_of_kind (h : l.token = .ok t) :
    (t.kind ∈ Token.Kind.wordKinds →
      ∃ letters, l = word letters ∧ t = .ofWord (String.ofList letters)) ∧
    (t.kind = .arrow → ∃ x, l = arrow x) := by
  have hdirective {s : List Char} (hd : (Directive.read s).map Token.ofDirective = .ok t) :
      t.kind ∉ Token.Kind.wordKinds ∧ t.kind ≠ .arrow := by
    obtain ⟨d, -, rfl⟩ := of_map_eq_ok hd
    cases d <;> simp [Token.ofDirective, Token.kind, Token.Kind.wordKinds]
  cases l with
  | word letters =>
    obtain rfl := Except.ok.inj h
    refine ⟨fun _ => ⟨letters, rfl, rfl⟩, fun hk => ?_⟩
    rw [Token.ofWord] at hk
    split at hk
    · cases hk
    · split at hk <;> cases hk
  | arrow x =>
    cases h
    exact ⟨fun hk => by simp [Token.kind, Token.Kind.wordKinds] at hk, fun _ => ⟨x, rfl⟩⟩
  | lineDirective rest =>
    exact ⟨fun hk => absurd hk (hdirective h).1, fun hk => absurd hk (hdirective h).2⟩
  | blockDirective body =>
    exact ⟨fun hk => absurd hk (hdirective h).1, fun hk => absurd hk (hdirective h).2⟩
  | _ =>
    cases h
    exact ⟨fun hk => by simp [Token.kind, Token.Kind.wordKinds] at hk,
      fun hk => by simp [Token.kind] at hk⟩

end Lexeme

namespace Span

/-- The span is a word of the text, and no character next to it could belong to the word: no letter
and no underscore in front of it, and no word character behind it. -/
structure IsWholeWord (s : List Char) (p : Span) : Prop where
  start : ∃ c ∈ p.text.toList.head?, isWordStart c = true
  letters : ∀ c ∈ p.text.toList, isWordChar c = true
  before : ∀ c ∈ (s.take p.start).getLast?, isWordStart c = false
  behind : ∀ c ∈ (s.drop p.stop).head?, isWordChar c = false

/-- The span is an arrow, and it is no part of a longer arrow in the text. -/
structure IsWholeArrow (s : List Char) (p : Span) : Prop where
  literal : ∃ x : Arrow, p.text = x.literal
  longest : ∀ (y : Arrow) (k : Nat), y.chars <+: s.drop k → k ≤ p.start →
    p.stop ≤ k + y.chars.length → y.chars.length ≤ p.text.length

end Span

/-- Every word of a source is as long as it can be on both sides, and it has one kind, by its
letters alone; every arrow is one of the four and no part of a longer one. -/
theorem tokenSpans_longest {source : String} {ps : List Span} (h : tokenSpans source = .ok ps) :
    ∀ p ∈ ps,
      (p.kind ∈ Token.Kind.wordKinds → p.IsWholeWord source.toList ∧
        (p.kind = .keyword ↔ p.text ∈ Token.reserved) ∧
        (p.kind = .as ↔ p.text.toList.map Char.toLower = ['a', 's']) ∧
        (p.kind = .identifier ↔
          p.text ∉ Token.reserved ∧ p.text.toList.map Char.toLower ≠ ['a', 's'])) ∧
      (p.kind = .arrow → p.IsWholeArrow source.toList) := by
  intro p hp
  obtain ⟨front, l, back, t, hpieces, ht, rfl⟩ := Source.exists_pieces_of_mem_spans h hp
  obtain ⟨hword, harrow⟩ := Lexeme.word_or_arrow_of_kind ht
  refine ⟨fun hk => ?_, fun hk => ?_⟩
  · obtain ⟨letters, rfl, rfl⟩ := hword hk
    obtain ⟨hbefore, hbehind⟩ := Source.word_of_pieces hpieces
    obtain ⟨hstart, hletters⟩ := Source.word_of_scan (Source.scan_of_pieces hpieces)
    have hcut : Source.pieces source.toList = (front ++ [.lexeme (.word letters)]) ++ back := by
      rw [hpieces, List.append_assoc, List.singleton_append]
    have hstop := (Source.take_drop_of_append hcut).2
    rw [Source.width_append, Source.width_cons] at hstop
    refine ⟨⟨?_, ?_, ?_, ?_⟩, Token.kind_ofWord _⟩
    · rwa [String.toList_ofList]
    · rwa [String.toList_ofList]
    · rwa [(Source.take_drop_of_append hpieces).1]
    · rw [← hstop] at hbehind
      exact hbehind
  · obtain ⟨x, rfl⟩ := harrow hk
    refine ⟨⟨x, rfl⟩, fun y k hy hstart hstop => ?_⟩
    obtain ⟨n, hn⟩ := Nat.exists_eq_add_of_le hstart
    have hlength := Source.arrow_of_pieces hpieces hn.symm hy
    simp only [Lexeme.text, String.length_ofList] at hstop hn ⊢
    exact hlength (by omega)

/-- Digits in front of a word, a name that ends in a keyword, and dashes in front of an arrow. -/
def dashesSource : String := "1As--->>2B_of"

/-- The spans of this source: the digits and one dash belong to none. -/
def dashesSpans : List Span :=
  [⟨.as, "As", 1, 3⟩, ⟨.arrow, "-->>", 4, 8⟩, ⟨.identifier, "B_of", 9, 13⟩]

/-- The arrow has both dashes that belong to it, and the keyword is part of a longer word. -/
theorem tokenSpans_longest_sample :
    tokenSpans dashesSource = .ok dashesSpans ∧
      (∀ c ∈ (dashesSource.toList.take 9).getLast?, isWordStart c = false) ∧
      (∀ (y : Arrow) (k : Nat), y.chars <+: dashesSource.toList.drop k → k ≤ 4 →
        8 ≤ k + y.chars.length → y.chars.length ≤ 4) := by
  have hspans : tokenSpans dashesSource = .ok dashesSpans := by decide +kernel
  have hlongest := tokenSpans_longest hspans
  exact ⟨hspans, ((hlongest ⟨.identifier, "B_of", 9, 13⟩ (by decide)).1 (by decide)).1.before,
    ((hlongest ⟨.arrow, "-->>", 4, 8⟩ (by decide)).2 rfl).longest⟩

end Lifeline
