import Lifeline.Proofs.Scan.Cuts
import Lifeline.Proofs.TagRun

/-!
# Tags in the brackets that they are written in

A tag with a value is written in brackets that hold the value together, if there are
such brackets, and is read back from what is written. If there are none, something else
is read in its place: a value that ends too early, or one that goes on too far. A value
that has been found between brackets is held together by them, so it is read back.
-/

namespace Lifeline

open Text

namespace Source

variable {s rest : List Char} {l : Lexeme}

theorem tokens_of_scan (h : Lexeme.scan s = some (l, rest)) :
    tokens s = (do return (← l.token) :: (← tokens rest)) := by
  rw [tokens, lexemes_of_scan h, List.mapM_cons, tokens]

private theorem spans_of_scan (h : Lexeme.scan s = some (l, rest)) :
    spans s = (do return (← spanOf 0 l) :: (← spans rest).map (.moved l.text.length)) := by
  rw [spans, pieces_of_scan h, locate, Nat.zero_add, ← Nat.add_zero l.text.length, locate_add,
    List.mapM_cons, mapM_spanOf_add, Nat.add_zero, spans]
  dsimp only
  cases spanOf 0 l with
  | error e => rfl
  | ok p => cases (locate 0 (pieces rest)).mapM fun p => spanOf p.1 p.2 <;> rfl

private theorem token_of_locate {i k : Nat} {ts : List Token} {t : Token} (hts : tokens s = .ok ts)
    (hl : (locate 0 (pieces s))[i]? = some (k, l)) (ht : ts[i]? = some t) : l.token = .ok t := by
  have hlexeme : (lexemes s)[i]? = some l := by
    rw [lexemes, ← map_snd_locate 0, List.getElem?_map, hl]
    rfl
  obtain ⟨hi, rfl⟩ := List.getElem?_eq_some_iff.mp hlexeme
  obtain ⟨hj, rfl⟩ := List.getElem?_eq_some_iff.mp ht
  exact (List.forall₂_iff_get.mp (forall₂_of_mapM hts)).2 i hi hj

end Source

namespace Lexeme

variable {s rest name content : List Char} {l : Lexeme} {b : Bracket}

/-- Closed brackets hold together the value that is found in them. -/
theorem balanced_of_scanValue (h : (scanValue s).1 = some (b, ⟨content, true⟩)) :
    b.balanced content = true := by
  cases s with
  | nil => cases h
  | cons c r =>
    cases hb : Bracket.ofOpener? c with
    | none =>
      rw [scanValue, hb] at h
      cases h
    | some bracket =>
      rw [Bracket.ofOpener?_eq_some_iff.mp hb, scanValue_opener] at h
      obtain ⟨rfl, hinside⟩ := Prod.mk.inj (Option.some.inj h)
      cases hsplit : bracket.split 0 r with
      | some found =>
        rw [hsplit] at hinside
        cases hinside
        exact Bracket.closes_of_split hsplit
      | none =>
        rw [hsplit] at hinside
        cases hinside

/-- A tag that is scanned has the name of a tag, and its closed brackets hold its value together. -/
theorem balanced_of_scan (h : scan s = some (tag name (some (b, ⟨content, true⟩)), rest)) :
    (∀ c ∈ name, isWordChar c = true) ∧ b.balanced content = true := by
  rcases scan_eq_some_cases h with hp | ⟨u, -, hu⟩ | ⟨u, -, hu⟩ | ⟨quote, u, -, hu⟩
  · cases hp
  · have htag : tag (u.takeWhile isWordChar) (scanValue (u.dropWhile isWordChar)).1 =
        tag name (some (b, ⟨content, true⟩)) := congrArg Prod.fst hu
    obtain ⟨rfl, hvalue⟩ := tag.inj htag
    exact ⟨fun c => List.mem_takeWhile_imp, balanced_of_scanValue hvalue⟩
  · rw [scanDirective] at hu
    split at hu <;> cases hu
  · cases congrArg Prod.fst hu

/-- A lexeme that is a tag by its token has the name and the value of that tag. -/
theorem eq_tag_of_token {name value : String} (h : l.token = .ok (.tag ⟨name, some value⟩)) :
    ∃ b closed, l = tag name.toList (some (b, ⟨value.toList, closed⟩)) := by
  have htag : l.tag? = some ⟨name, some value⟩ := (spec_of_token h).1.symm
  cases l with
  | tag letters inside =>
    cases inside with
    | none => cases htag
    | some inside =>
      obtain ⟨b, content, closed⟩ := inside
      cases htag
      exact ⟨b, closed, by rw [String.toList_ofList, String.toList_ofList]⟩
  | _ => cases htag

/-- The text of such a lexeme tells its brackets, and that they are closed. -/
theorem eq_of_text_tag {value : List Char} {b' : Bracket} {closed : Bool}
    (h : (tag name (some (b, ⟨value, closed⟩))).text = '@' :: name ++ b'.enclose value) :
    b = b' ∧ closed = true := by
  have hvalue : b.opener :: Enclosed.text b.closer ⟨value, closed⟩ = b'.enclose value :=
    List.append_cancel_left (List.cons.inj h).2
  obtain ⟨hopener, hinside⟩ := List.cons.inj hvalue
  refine ⟨?_, ?_⟩
  · cases b <;> cases b' <;> first | rfl | cases hopener
  · cases closed with
    | true => rfl
    | false => simp [Enclosed.text] at hinside

end Lexeme

/-- The text may be the name of a tag. -/
def IsTagName (name : String) : Prop := ∀ c ∈ name.toList, isWordChar c = true

/-- The text may stand behind a tag: it is empty or starts with a space, and it has tokens. -/
structure MayFollow (rest : String) : Prop where
  start : ∀ c ∈ rest.toList.head?, c = ' '
  tokens : ∃ ts, tokenize rest = .ok ts

/-- Before the given text the tag is read back from what is written for it: the first token is the
tag, and its span is what is written. -/
def TagReadBack (name value : String) (preferred : Bracket) (rest : String) : Prop :=
  let written := writeTag name value.toList preferred
  ∃ ts ps, tokenize (String.ofList written ++ rest) = .ok (.tag ⟨name, some value⟩ :: ts) ∧
    tokenSpans (String.ofList written ++ rest) =
      .ok (⟨.tag, String.ofList written, 0, written.length⟩ :: ps)

/-- The `i`-th token of the source is a tag with a value in these brackets, of which the closing one
has been found. -/
structure ClosedTagAt (source : String) (i : Nat) (name value : String) (b : Bracket) : Prop where
  token : ∃ ts, tokenize source = .ok ts ∧ ts[i]? = some (.tag ⟨name, some value⟩)
  span : ∃ ps p, tokenSpans source = .ok ps ∧ ps[i]? = some p ∧
    p.text.toList = '@' :: name.toList ++ b.enclose value.toList

section

variable {name value rest : String} {preferred : Bracket}

private theorem MayFollow.parted (h : MayFollow rest) : Parted rest.toList := by
  cases hrest : rest.toList with
  | nil => exact parted_nil
  | cons c s =>
    have hc : c = ' ' := h.start c (by rw [hrest]; rfl)
    rw [hc, parted_cons]
    rfl

/-- A value that one kind of brackets holds together is read back. -/
theorem TagReadBack.of_balanced (hn : IsTagName name) (hrest : MayFollow rest)
    (hv : Bracket.round.balanced value.toList = true ∨
      Bracket.curly.balanced value.toList = true) : TagReadBack name value preferred rest := by
  have hscan := (Lexeme.alone_tag hn ((Bracket.balanced_choose preferred _).mpr hv)).scan_append
    hrest.parted
  obtain ⟨ts, hts⟩ := hrest.tokens
  obtain ⟨ps, hps, -⟩ := Source.exists_spans_of_tokens hts
  rw [tokenize] at hts
  have htokens := Source.tokens_of_scan hscan
  have hspans := Source.spans_of_scan hscan
  rw [Lexeme.text_tag_choose] at htokens hspans
  rw [hts] at htokens
  rw [hps] at hspans
  refine ⟨ts, ps.map (.moved (writeTag name value.toList preferred).length), ?_, ?_⟩
  · rw [tokenize, String.toList_append, String.toList_ofList, htokens, Lexeme.token,
      Option.map_some, String.ofList_toList, String.ofList_toList]
    rfl
  · rw [tokenSpans, String.toList_append, String.toList_ofList, hspans, Source.spanOf,
      Lexeme.text_tag_choose, Nat.zero_add]
    rfl

/-- A value that neither kind holds together is not. -/
theorem balanced_of_tagReadBack (hn : IsTagName name) (h : TagReadBack name value preferred rest) :
    Bracket.round.balanced value.toList = true ∨ Bracket.curly.balanced value.toList = true := by
  by_contra hv
  rw [← Bracket.balanced_choose preferred, Bool.not_eq_true] at hv
  obtain ⟨inside, behind, hscan, hne⟩ := Lexeme.scan_tag_of_not_balanced hn hv rest.toList
  rw [Lexeme.text_tag_choose] at hscan
  obtain ⟨ts, ps, htokens, -⟩ := h
  rw [tokenize, String.toList_append, String.toList_ofList, Source.tokens_of_scan hscan] at htokens
  cases hts : Source.tokens behind with
  | error e => rw [hts] at htokens; cases htokens
  | ok us =>
    rw [hts] at htokens
    have htag := (List.cons.inj (Except.ok.inj htokens)).1
    have hcontent : String.ofList inside.content = value :=
      Option.some.inj (Tag.mk.inj (Token.tag.inj htag)).2
    rw [← hcontent, String.toList_ofList] at hne
    exact hne rfl

/-- A tag whose closing bracket has been found has the name of a tag, and its brackets hold its
value together. -/
theorem ClosedTagAt.balanced {source : String} {i : Nat} {b : Bracket}
    (h : ClosedTagAt source i name value b) :
    IsTagName name ∧ b.balanced value.toList = true := by
  obtain ⟨ts, hts, ht⟩ := h.token
  obtain ⟨ps, p, hps, hp, htext⟩ := h.span
  obtain ⟨l, hl, -, hpl⟩ := Source.locate_of_spans hps hp
  obtain ⟨b', closed, rfl⟩ := Lexeme.eq_tag_of_token (Source.token_of_locate hts hl ht)
  obtain ⟨rfl, rfl⟩ := Lexeme.eq_of_text_tag (hpl.symm.trans htext)
  obtain ⟨s, behind, hscan⟩ :=
    Source.exists_scan_of_mem (Source.mem_lexemes_of_mem_locate (List.mem_of_getElem? hl))
  exact Lexeme.balanced_of_scan hscan

end

/-- A tag is read back from what is written for it exactly if one kind of brackets holds its value
together. A value whose closing bracket has been found in a source is held together by the brackets
that it was read in, so its tag is always read back. -/
theorem tagReadBack_iff :
    (∀ (name value : String) (preferred : Bracket) (rest : String), IsTagName name →
      MayFollow rest →
        (TagReadBack name value preferred rest ↔
          Bracket.round.balanced value.toList = true ∨
            Bracket.curly.balanced value.toList = true)) ∧
    ∀ (source : String) (i : Nat) (name value : String) (b : Bracket),
      ClosedTagAt source i name value b →
        b.balanced value.toList = true ∧
          ∀ preferred rest, MayFollow rest → TagReadBack name value preferred rest := by
  constructor
  · intro name value preferred rest hn hrest
    exact ⟨balanced_of_tagReadBack hn, .of_balanced hn hrest⟩
  · intro source i name value b hclosed
    obtain ⟨hn, hv⟩ := hclosed.balanced
    have hone : Bracket.round.balanced value.toList = true ∨
        Bracket.curly.balanced value.toList = true := by
      cases b with
      | round => exact .inl hv
      | curly => exact .inr hv
    exact ⟨hv, fun preferred rest hrest => .of_balanced hn hrest hone⟩

/-- A value with a bracket that only round brackets hold together, before a directive; a value with
brackets of both kinds that neither holds together; and a value found in curly brackets. -/
theorem tagReadBack_iff_sample :
    MayFollow " %% )" ∧ TagReadBack "request" "a\x7d" .curly " %% )" ∧
      ¬TagReadBack "request" ")(\x7d" .curly " %% )" ∧
      ClosedTagAt "A->B @queue\x7b(a\x7d" 3 "queue" "(a" .curly ∧
      TagReadBack "queue" "(a" .round " %% )" := by
  have hrest : MayFollow " %% )" := ⟨by simp, [.comment ")"], by decide +kernel⟩
  have hclosed : ClosedTagAt "A->B @queue\x7b(a\x7d" 3 "queue" "(a" .curly :=
    ⟨⟨[.identifier "A", .arrow "->", .identifier "B", .tag ⟨"queue", some "(a"⟩],
      by decide +kernel, rfl⟩,
    ⟨[⟨.identifier, "A", 0, 1⟩, ⟨.arrow, "->", 1, 3⟩, ⟨.identifier, "B", 3, 4⟩,
      ⟨.tag, "@queue\x7b(a\x7d", 5, 15⟩], _, by decide +kernel, rfl, by decide⟩⟩
  have hname : IsTagName "request" := Annotations.isWordChar_name .request
  have hiff := fun value => tagReadBack_iff.1 "request" value .curly " %% )" hname hrest
  exact ⟨hrest, (hiff "a\x7d").mpr (.inl (by decide)),
    fun h => absurd ((hiff ")(\x7d").mp h) (by decide), hclosed,
    (tagReadBack_iff.2 _ _ _ _ _ hclosed).2 .round _ hrest⟩

end Lifeline
