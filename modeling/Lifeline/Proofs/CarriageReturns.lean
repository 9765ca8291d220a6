import Lifeline.Parse
import Lifeline.Proofs.NumeralFaults
import Lifeline.Proofs.OpenFlows
import Lifeline.Proofs.Scan.Returns
import Lifeline.Proofs.Scan.Tiling
import Mathlib.Data.List.Chain

/-!
# Line ends with carriage returns

The line ends of a source may be written CR LF as well. If its tokens keep to their
lines, they are the same then, except that a flow which leaves its name or its color
open at the end of its line takes the carriage return in. So a source whose lines are
closed in this sense has the same diagram or the same error.
-/

namespace Lifeline

open Text

/-- The source with every line end LF written as CR LF. -/
def crlf (source : String) : String := String.ofList (withReturns source.toList)

/-- The second token is the first one, or a flow that has taken in a carriage return. -/
inductive Token.UpToReturn : Token → Token → Prop
  | same (t : Token) : UpToReturn t t
  | flow {f g : Flow} (h : f.TakesReturn g) : UpToReturn (.flow f) (.flow g)

/-- No flow is left open in front of a line end. -/
def ClosesLines (ps : List Span) : Prop :=
  ps.IsChain fun p q => q.kind = .newline → ¬Directive.LeavesOpen p.text.toList

namespace Lexeme

variable {s u rest line : List Char} {l : Lexeme} {t : Token}

private theorem text_of_scanDirective (h : scanDirective u = (lineDirective line, rest)) :
    '\n' ∉ (lineDirective line).text ∧
      ∀ body, (lineDirective line).text ≠ (blockDirective body).text := by
  refine ⟨fun hn => ?_, fun body he => ?_⟩
  · have hline : '\n' ∈ line := by simpa [text] using hn
    rw [scanDirective] at h
    split at h
    · cases h
    · cases h
      exact absurd (List.mem_takeWhile_imp hline) (by decide)
  · obtain rfl : line = '\x7b' :: (body ++ Directive.terminator) := by simpa [text] using he
    exact not_infix_of_scanDirective h (List.suffix_append _ _).isInfix

/-- A directive that runs to the end of its line has the same token with a carriage return behind
it, unless it leaves a flow open. -/
theorem token_withReturn (h : scan s = some (l, rest)) :
    l.withReturn.token = l.token ∨ Directive.LeavesOpen l.text := by
  cases l with
  | lineDirective line =>
    obtain ⟨u, hu⟩ := exists_scanDirective_of_scan h
    obtain ⟨hnewline, hbraces⟩ := text_of_scanDirective hu
    exact (Directive.read_concat_return hnewline hbraces).imp_left
      (congrArg (Except.map Token.ofDirective))
  | _ => exact .inl rfl

/-- Only such a directive leaves a flow open; it takes the carriage return in. -/
theorem exists_flow_of_leavesOpen (h : scan s = some (l, rest))
    (hopen : Directive.LeavesOpen l.text) :
    ∃ f g, l.token = .ok (.flow f) ∧ l.withReturn.token = .ok (.flow g) ∧ f.TakesReturn g := by
  obtain ⟨v, hv⟩ := hopen.exists_text
  have hscan (w : List Char) : scan ('%' :: '%' :: 'f' :: w) = some (scanDirective ('f' :: w)) :=
    rfl
  rw [← scan_append h, hv, List.cons_append, List.cons_append, List.cons_append, hscan] at h
  obtain ⟨f, g, hf, hg, hreturn⟩ := hopen.read
  obtain ⟨rfl, -⟩ := Prod.mk.inj (Option.some.inj h)
  exact ⟨f, g, congrArg (Except.map Token.ofDirective) hf,
    congrArg (Except.map Token.ofDirective) hg, hreturn⟩

private theorem kind_eq_newline_iff (h : l.token = .ok t) : t.kind = .newline ↔ l = .newline := by
  have hdirective {text : List Char}
      (hd : (Directive.read text).map Token.ofDirective = .ok t) : t.kind ≠ .newline := by
    obtain ⟨d, -, rfl⟩ := of_map_eq_ok hd
    cases d <;> simp [Token.ofDirective, Token.kind]
  constructor
  · intro hk
    cases l with
    | newline => rfl
    | word letters =>
      obtain rfl := Except.ok.inj h
      rw [Token.ofWord] at hk
      split at hk
      · cases hk
      · split at hk <;> cases hk
    | lineDirective line => exact absurd hk (hdirective h)
    | blockDirective body => exact absurd hk (hdirective h)
    | _ =>
      cases h
      cases hk
  · rintro rfl
    cases h
    rfl

end Lexeme

namespace Source

variable {s : List Char} {ls : List Lexeme} {ts : List Token} {ps : List Span}

/-- No lexeme in front of a line end leaves a flow open. -/
def LinesClosed (ls : List Lexeme) : Prop :=
  ls.IsChain fun l k => k = .newline → ¬Directive.LeavesOpen l.text

/-- Carriage returns in front of the line ends leave every lexeme a token, which is the same or a
flow that takes its carriage return in. They are all the same exactly if no flow is left open. -/
theorem tokens_returned (hscan : ∀ l ∈ ls, ∃ s rest, Lexeme.scan s = some (l, rest))
    (h : List.Forall₂ (fun l t => l.token = .ok t) ls ts) :
    ∃ us, (returned ls).mapM Lexeme.token = .ok us ∧ List.Forall₂ Token.UpToReturn ts us ∧
      (us = ts ↔ LinesClosed ls) := by
  induction h with
  | nil => exact ⟨[], rfl, .nil, iff_of_true rfl .nil⟩
  | @cons l t ls ts ht _ ih =>
    obtain ⟨⟨s, rest, hl⟩, hls⟩ := List.forall_mem_cons.mp hscan
    obtain ⟨us, hus, hrel, hsame⟩ := ih hls
    have hcons {k : Lexeme} {u : Token} (hk : k.token = .ok u) :
        (k :: returned ls).mapM Lexeme.token = .ok (u :: us) := by
      rw [List.mapM_cons, hk, hus]
      rfl
    -- The tokens behind agree by induction; the first one can differ in front of a line end only.
    rw [returned, LinesClosed, List.isChain_cons, ← LinesClosed, ← hsame]
    by_cases hend : ls.head? = some .newline
    · rw [if_pos hend]
      by_cases hopen : Directive.LeavesOpen l.text
      · obtain ⟨f, g, hf, hg, hreturn⟩ := Lexeme.exists_flow_of_leavesOpen hl hopen
        cases ht.symm.trans hf
        refine ⟨_, hcons hg, .cons (.flow hreturn) hrel, iff_of_false (fun he => ?_) fun hc => ?_⟩
        · exact hreturn.ne (Token.flow.inj (List.cons.inj he).1)
        · exact hc.1 _ hend rfl hopen
      · have hu := (Lexeme.token_withReturn hl).resolve_right hopen
        refine ⟨_, hcons (hu.trans ht), .cons (.same t) hrel, ?_⟩
        rw [List.cons_inj_right, iff_and_self]
        exact fun _ _ _ _ => hopen
    · rw [if_neg hend]
      refine ⟨_, hcons ht, .cons (.same t) hrel, ?_⟩
      rw [List.cons_inj_right, iff_and_self]
      rintro - k hk rfl
      exact absurd hk hend

/-- Every span is that of its lexeme: it has its text, and it is a line end if the lexeme is. -/
theorem forall₂_lexemes_spans (h : spans s = .ok ps) :
    List.Forall₂ (fun l (p : Span) => p.text.toList = l.text ∧ (p.kind = .newline ↔ l = .newline))
      (lexemes s) ps := by
  rw [lexemes, ← map_snd_locate 0, List.forall₂_map_left_iff]
  refine (forall₂_of_mapM h).imp fun q p (hp : spanOf q.1 q.2 = .ok p) => ?_
  refine ⟨(of_spanOf_eq_ok hp).2.2, ?_⟩
  rw [spanOf] at hp
  cases ht : q.2.token with
  | error e => rw [ht] at hp; cases hp
  | ok t =>
    rw [ht] at hp
    cases hp
    exact Lexeme.kind_eq_newline_iff ht

/-- Lexemes keep to their lines if their spans do. -/
theorem forall_lexemes_of_spans (h : spans s = .ok ps)
    (hlines : ∀ p ∈ ps, p.kind = .newline ∨ '\n' ∉ p.text.toList) :
    ∀ l ∈ lexemes s, l = .newline ∨ '\n' ∉ l.text := by
  have hall := forall₂_lexemes_spans h
  clear h
  generalize lexemes s = ls at hall ⊢
  induction hall with
  | nil => exact List.forall_mem_nil _
  | cons hp _ ih =>
    obtain ⟨hfirst, hlines⟩ := List.forall_mem_cons.mp hlines
    rw [hp.1, hp.2] at hfirst
    exact List.forall_mem_cons.mpr ⟨hfirst, ih hlines⟩

/-- So the spans tell whether a flow is left open in front of a line end. -/
theorem linesClosed_iff (h : spans s = .ok ps) : LinesClosed (lexemes s) ↔ ClosesLines ps := by
  have hall := forall₂_lexemes_spans h
  clear h
  rw [LinesClosed, ClosesLines]
  generalize lexemes s = ls at hall ⊢
  induction hall with
  | nil => exact iff_of_true .nil .nil
  | @cons l p ls ps hp hall ih =>
    rw [List.isChain_cons, List.isChain_cons]
    refine and_congr ?_ ih
    cases hall with
    | nil => simp
    | cons hq _ => simp [hp.1, hq.2]

private theorem exists_tokens_of_spans (h : spans s = .ok ps) : ∃ ts, tokens s = .ok ts := by
  cases hlong : tooLong? s with
  | some n => rw [spans_of_tooLong? hlong] at h; cases h
  | none => exact exists_tokens hlong

end Source

/-- A source whose tokens keep to their lines has the same tokens when its line ends are written
CR LF exactly if no flow is left open in front of a line end. Then it has the same diagram or the
same error. In any case it has tokens then, and each of them is the same or a flow that has taken
its carriage return in. -/
theorem tokenize_crlf {source : String} {ps : List Span} (h : tokenSpans source = .ok ps)
    (hlines : ∀ p ∈ ps, p.kind = .newline ∨ '\n' ∉ p.text.toList) :
    (tokenize (crlf source) = tokenize source ↔ ClosesLines ps) ∧
    (ClosesLines ps → parse (crlf source) = parse source) ∧
    ∃ ts us, tokenize source = .ok ts ∧ tokenize (crlf source) = .ok us ∧
      List.Forall₂ Token.UpToReturn ts us := by
  have hlexemes := Source.forall_lexemes_of_spans h hlines
  obtain ⟨ts, hts⟩ := Source.exists_tokens_of_spans h
  obtain ⟨us, hus, hrel, hsame⟩ :=
    Source.tokens_returned (fun l hl => Source.exists_scan_of_mem hl) (Source.forall₂_of_mapM hts)
  have hcrlf : tokenize (crlf source) = .ok us := by
    rw [tokenize, crlf, String.toList_ofList, Source.tokens, Source.lexemes_withReturns hlexemes,
      hus]
  have htokens : tokenize (crlf source) = tokenize source ↔ ClosesLines ps := by
    rw [hcrlf, tokenize, hts, Except.ok.injEq, hsame, Source.linesClosed_iff h]
  refine ⟨htokens, fun hclosed => ?_, ts, us, hts, hcrlf, hrel⟩
  rw [parse, parse, htokens.mpr hclosed]

/-- Every kind of directive at the end of a line, none of them a flow that is left open, and a quote
that is left open on the last line. -/
def closedLines : String := "%% a\n%%flow x \"y\" rgb(1)\n%%\x7b\nA->B: \"hi"

/-- The spans of this source. -/
def closedLinesSpans : List Span :=
  [⟨.comment, "%% a", 0, 4⟩, ⟨.newline, "\n", 4, 5⟩, ⟨.flow, "%%flow x \"y\" rgb(1)", 5, 24⟩,
    ⟨.newline, "\n", 24, 25⟩, ⟨.comment, "%%\x7b", 25, 28⟩, ⟨.newline, "\n", 28, 29⟩,
    ⟨.identifier, "A", 29, 30⟩, ⟨.arrow, "->", 30, 32⟩, ⟨.identifier, "B", 32, 33⟩,
    ⟨.colon, ":", 33, 34⟩, ⟨.string, "\"hi", 35, 38⟩]

/-- It has the same tokens and the same diagram when its line ends are written CR LF. -/
theorem tokenize_crlf_sample :
    tokenSpans closedLines = .ok closedLinesSpans ∧
      tokenize (crlf closedLines) = tokenize closedLines ∧
      parse (crlf closedLines) = parse closedLines := by
  have hspans : tokenSpans closedLines = .ok closedLinesSpans := by decide +kernel
  have hlines : ∀ p ∈ closedLinesSpans, p.kind = .newline ∨ '\n' ∉ p.text.toList := by
    decide +kernel
  have hread : closedLinesSpans.IsChain fun p q => q.kind = .newline →
      Directive.read (p.text.toList ++ ['\r']) = Directive.read p.text.toList := by
    decide +kernel
  have hclosed : ClosesLines closedLinesSpans :=
    hread.imp fun p q hsame hq hopen => hopen.read_ne (hsame hq)
  obtain ⟨htokens, hparse, -⟩ := tokenize_crlf hspans hlines
  exact ⟨hspans, htokens.mpr hclosed, hparse hclosed⟩

/-- A name that is left open at the end of its line. -/
def openName : String := "%%flow x \"Name\n"

/-- The carriage return in front of the line end is taken for a part of the name, in the tokens and
in the diagram. -/
theorem tokenize_crlf_openName :
    '\r' ∉ openName.toList ∧
      tokenSpans openName =
        .ok [⟨.flow, "%%flow x \"Name", 0, 14⟩, ⟨.newline, "\n", 14, 15⟩] ∧
      crlf openName = "%%flow x \"Name\r\n" ∧
      tokenize openName = .ok [.flow ⟨"x", "Name", none⟩, .newline] ∧
      tokenize (crlf openName) = .ok [.flow ⟨"x", "Name\r", none⟩, .newline] ∧
      parse (crlf openName) ≠ parse openName := by
  decide +kernel

end Lifeline
