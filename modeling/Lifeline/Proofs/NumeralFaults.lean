import Lifeline.Parse
import Lifeline.Proofs.DirectiveReading
import Lifeline.Proofs.Json.LongNumeral

/-!
# Sources that cannot be read

A directive that is not what it should be counts as a comment, and tokens and spans
are found whatever a source holds, with one exception: the reading of a metadata
object stops at a numeral that is too long to convert, and the whole source with it.
-/

namespace Lifeline

open Text

namespace Directive

/-- The members of the object in a body, if there is an object that can be read. -/
def members? (body : List Char) : Option (List (String × Json.Value)) :=
  (objectText? body).bind fun object =>
    match Json.read object with
    | .ok (.object members) => some members
    | _ => none

/-- The number of digits of the numeral that stops the reading of the object in a body. -/
def tooLong? (body : List Char) : Option Nat :=
  (objectText? body).bind fun object =>
    match Json.read object with
    | .error (.numeralTooLong n) => some n
    | _ => none

/-- A directive in braces fails at a numeral, gives the members of its object, or is a comment that
has its body for a text. -/
theorem read_blockDirective_eq (body : List Char) :
    ∃ why, read (Lexeme.blockDirective body).text =
      match tooLong? body, members? body with
      | some n, _ => .error (.numeralTooLong n)
      | none, some members => .ok (.metadata (.ofMembers members))
      | none, none => .ok (.comment (String.ofList body) (some why)) := by
  rw [read_blockDirective, tooLong?, members?]
  cases objectText? body with
  | none => exact ⟨.noObject, rfl⟩
  | some object =>
    refine ⟨.malformedObject, ?_⟩
    simp only [Option.bind_some, readObject]
    cases Json.read object with
    | error e => cases e <;> rfl
    | ok v => cases v <;> rfl

/-- The numeral that stops the reading of an object stands in the body. -/
theorem longNumeral_of_tooLong? {body : List Char} {n : Nat} (h : tooLong? body = some n) :
    Json.LongNumeral n body := by
  obtain ⟨object, hobject, h⟩ := Option.bind_eq_some_iff.mp h
  obtain ⟨a, b, c, d, -, hbody, -, -⟩ := objectText?_eq_some_iff.mp hobject
  split at h
  · next hread =>
    cases h
    exact (Json.longNumeral_of_read hread).mono ⟨_, d, hbody.symm⟩
  · cases h

end Directive

namespace Lexeme

/-- The number of digits of the numeral that leaves a lexeme without a token. -/
def tooLong? : Lexeme → Option Nat
  | blockDirective body => Directive.tooLong? body
  | _ => none

variable {s rest : List Char} {l : Lexeme}

/-- A numeral that is too long leaves no token. -/
theorem token_of_tooLong? {n : Nat} (h : l.tooLong? = some n) :
    l.token = .error (.numeralTooLong n) := by
  cases l with
  | blockDirective body =>
    obtain ⟨why, hread⟩ := Directive.read_blockDirective_eq body
    have hn : Directive.tooLong? body = some n := h
    rw [token, hread, hn]
    rfl
  | _ => cases h

/-- Nothing else does: every other scanned lexeme has a token. -/
theorem exists_token_of_scan (hs : scan s = some (l, rest)) (h : l.tooLong? = none) :
    ∃ t, l.token = .ok t := by
  cases l with
  | blockDirective body =>
    obtain ⟨why, hread⟩ := Directive.read_blockDirective_eq body
    have hn : Directive.tooLong? body = none := h
    rw [hn] at hread
    rw [token, hread]
    cases Directive.members? body <;> exact ⟨_, rfl⟩
  | lineDirective line =>
    obtain ⟨u, hu⟩ := exists_scanDirective_of_scan hs
    obtain ⟨d, hd⟩ := Directive.read_lineDirective hu
    exact ⟨.ofDirective d, by rw [token, hd]; rfl⟩
  | _ => exact ⟨_, rfl⟩

end Lexeme

section

variable {α β : Type} {f : α → Except Failure β} {xs : List α}

/-- A list is read if each of its elements is. -/
theorem exists_mapM (h : ∀ x ∈ xs, ∃ y, f x = .ok y) : ∃ ys, xs.mapM f = .ok ys := by
  induction xs with
  | nil => exact ⟨[], rfl⟩
  | cons x xs ih =>
    obtain ⟨⟨y, hy⟩, hxs⟩ := List.forall_mem_cons.mp h
    obtain ⟨ys, hys⟩ := ih hxs
    exact ⟨y :: ys, by rw [List.mapM_cons, hy, hys]; rfl⟩

/-- The reading of a list fails with the first element of it that cannot be read. -/
theorem mapM_of_findSome? {fault : α → Option Nat} {n : Nat}
    (hok : ∀ x ∈ xs, fault x = none → ∃ y, f x = .ok y)
    (herror : ∀ x m, fault x = some m → f x = .error (.numeralTooLong m))
    (h : xs.findSome? fault = some n) : xs.mapM f = .error (.numeralTooLong n) := by
  obtain ⟨before, x, behind, rfl, hx, hbefore⟩ := List.findSome?_eq_some_iff.mp h
  obtain ⟨ys, hys⟩ : ∃ ys, before.mapM f = .ok ys :=
    exists_mapM fun y hy => hok y (List.mem_append_left _ hy) (hbefore y hy)
  rw [List.mapM_append, List.mapM_cons, hys, herror x n hx]
  rfl

end

namespace Source

variable {s : List Char} {l : Lexeme} {n : Nat}

/-- The number of digits of the first numeral that leaves a lexeme of the source without a token. -/
def tooLong? (s : List Char) : Option Nat := (lexemes s).findSome? Lexeme.tooLong?

/-- Every lexeme of a source other than such a one has a token. -/
theorem exists_token (hl : l ∈ lexemes s) (h : l.tooLong? = none) : ∃ t, l.token = .ok t := by
  obtain ⟨t, rest, hscan⟩ := exists_scan_of_mem hl
  exact Lexeme.exists_token_of_scan hscan h

/-- The spans fail where the tokens do. -/
theorem findSome?_locate (s : List Char) :
    (locate 0 (pieces s)).findSome? (fun p => p.2.tooLong?) = tooLong? s := by
  rw [tooLong?, lexemes, ← map_snd_locate 0, List.findSome?_map]
  rfl

/-- Tokens are found if there is no numeral that is too long. -/
theorem exists_tokens (h : tooLong? s = none) : ∃ ts, tokens s = .ok ts :=
  exists_mapM fun _ hl => exists_token hl (List.findSome?_eq_none_iff.mp h _ hl)

/-- The first such numeral leaves no tokens. -/
theorem tokens_of_tooLong? (h : tooLong? s = some n) : tokens s = .error (.numeralTooLong n) :=
  mapM_of_findSome? (fun _ => exists_token) (fun _ _ => Lexeme.token_of_tooLong?) h

/-- A lexeme with a token has a span. -/
theorem exists_spanOf (start : Nat) (h : ∃ t, l.token = .ok t) : ∃ p, spanOf start l = .ok p := by
  obtain ⟨t, ht⟩ := h
  exact ⟨_, by rw [spanOf, ht]; rfl⟩

private theorem spanOf_of_error {start : Nat} {e : Failure} (h : l.token = .error e) :
    spanOf start l = .error e := by
  rw [spanOf, h]
  rfl

/-- Spans are found if there is no numeral that is too long. -/
theorem exists_spans (h : tooLong? s = none) : ∃ ps, spans s = .ok ps := by
  rw [← findSome?_locate] at h
  exact exists_mapM fun p hp => exists_spanOf p.1 <|
    exists_token (mem_lexemes_of_mem_locate hp) (List.findSome?_eq_none_iff.mp h p hp)

/-- The first such numeral leaves no spans. -/
theorem spans_of_tooLong? (h : tooLong? s = some n) : spans s = .error (.numeralTooLong n) := by
  rw [← findSome?_locate] at h
  exact mapM_of_findSome?
    (fun p hp ht => exists_spanOf p.1 (exists_token (mem_lexemes_of_mem_locate hp) ht))
    (fun p m hm => spanOf_of_error (Lexeme.token_of_tooLong? hm)) h

/-- A numeral that leaves no tokens stands in the source. -/
theorem longNumeral_of_tooLong? (h : tooLong? s = some n) : Json.LongNumeral n s := by
  obtain ⟨l, hl, hn⟩ := List.exists_of_findSome?_eq_some h
  cases l with
  | blockDirective body =>
    have hbody : body <:+: (Lexeme.blockDirective body).text :=
      ⟨['%', '%', '\x7b'], Directive.terminator, by simp [Lexeme.text]⟩
    exact (Directive.longNumeral_of_tooLong? hn).mono (hbody.trans (text_infix_of_mem hl))
  | _ => cases hn

end Source

/-- The source has tokens and spans, and it has a diagram unless there is an error in its
statements. A directive in braces that holds no object, or has been left open, is a comment. -/
structure NeverFails (source : String) : Prop where
  tokens : ∃ ts, tokenize source = .ok ts
  spans : ∃ ps, tokenSpans source = .ok ps
  diagram : (∃ d, parse source = .ok d) ∨ ∃ e, parse source = .error (.parse e)
  closed : ∀ body, .blockDirective body ∈ Source.lexemes source.toList →
    Directive.members? body = none →
      (Lexeme.blockDirective body).token = .ok (.comment (String.ofList body))
  left_open : ∀ body, .lineDirective ('\x7b' :: body) ∈ Source.lexemes source.toList →
    (Lexeme.lineDirective ('\x7b' :: body)).token =
      .ok (.comment (Directive.commentText (Lexeme.lineDirective ('\x7b' :: body)).text))

/-- The reading of tokens fails with an error in the statements only. -/
theorem Diagram.ofTokens_cases (ts : List Token) :
    (∃ d, ofTokens ts = .ok d) ∨ ∃ e, ofTokens ts = .error (.parse e) := by
  rw [ofTokens]
  split
  · exact .inr ⟨_, rfl⟩
  · exact .inl ⟨_, rfl⟩

/-- A source without a numeral that is too long never fails. -/
theorem neverFails_of_tooLong? {source : String} (h : Source.tooLong? source.toList = none) :
    NeverFails source := by
  obtain ⟨ts, hts⟩ := Source.exists_tokens h
  have htokenize : tokenize source = .ok ts := hts
  refine ⟨⟨ts, htokenize⟩, Source.exists_spans h, ?_, fun body hmem hbody => ?_,
    fun body hmem => ?_⟩
  · rw [parse, htokenize]
    exact Diagram.ofTokens_cases ts
  · have hnone : Directive.tooLong? body = none := List.findSome?_eq_none_iff.mp h _ hmem
    obtain ⟨why, hread⟩ := Directive.read_blockDirective_eq body
    rw [Lexeme.token, hread, hnone, hbody]
    rfl
  · obtain ⟨t, rest, hscan⟩ := Source.exists_scan_of_mem hmem
    obtain ⟨u, hu⟩ := Lexeme.exists_scanDirective_of_scan hscan
    rw [Lexeme.token, Directive.read_of_open hu]
    rfl

/-- A source fails exactly if a metadata object in it holds an integer that is too long to convert.
The first such integer is then what tokens, spans and diagram all fail with, and its digits stand in
the source. -/
theorem neverFails_iff (source : String) :
    (NeverFails source ↔ Source.tooLong? source.toList = none) ∧
      ∀ n, Source.tooLong? source.toList = some n →
        Json.LongNumeral n source.toList ∧
        tokenize source = .error (.numeralTooLong n) ∧
        tokenSpans source = .error (.numeralTooLong n) ∧
        parse source = .error (.numeralTooLong n) := by
  refine ⟨⟨fun h => ?_, neverFails_of_tooLong?⟩, fun n h => ?_⟩
  · rw [Option.eq_none_iff_forall_ne_some]
    intro n hn
    obtain ⟨ts, hts⟩ := h.tokens
    have herror : tokenize source = .error (.numeralTooLong n) := Source.tokens_of_tooLong? hn
    rw [herror] at hts
    cases hts
  · have htokenize : tokenize source = .error (.numeralTooLong n) := Source.tokens_of_tooLong? h
    refine ⟨Source.longNumeral_of_tooLong? h, htokenize, Source.spans_of_tooLong? h, ?_⟩
    rw [parse, htokenize]
    rfl

/-- A malformed object and a participant without a name. -/
def faultySource : String := "%%\x7binit: \x7b\"a\": \x7d\x7d%%\nparticipant"

/-- The malformed object is a comment, and only the participant is an error. -/
theorem neverFails_iff_sample : NeverFails faultySource :=
  (neverFails_iff faultySource).1.mpr (by decide +kernel)

/-- The body of a directive whose object has a numeral of `n` ones for its only member. -/
def onesBody (n : Nat) : List Char :=
  'i' :: 'n' :: 'i' :: 't' :: ':' :: ' ' :: Json.onesObject n

/-- A source that is this directive. -/
def onesSource (n : Nat) : String := String.ofList (Lexeme.blockDirective (onesBody n)).text

private theorem objectText?_onesBody (n : Nat) :
    Directive.objectText? (onesBody n) = some (Json.onesObject n) := by
  have hlast : (Json.onesObject n).getLast? = some '\x7d' := by
    simp [Json.onesObject, List.getLast?_cons, List.getLast?_append]
  have hobject := Directive.objectText?_init (a := []) (b := []) (by simp) (by simp) rfl hlast
  rwa [List.nil_append, List.append_nil] at hobject

private theorem scan_onesSource (n : Nat) :
    Lexeme.scan (onesSource n).toList = some (.blockDirective (onesBody n), []) := by
  have hpercent : '%' ∉ onesBody n := by simp [onesBody, Json.onesObject]
  have hfree : ¬Directive.terminator <:+: onesBody n := fun h =>
    hpercent (h.subset (List.mem_cons_of_mem _ List.mem_cons_self))
  rw [onesSource, String.toList_ofList, Lexeme.scan_blockDirective hfree]

/-- A source with a run of ones that is too long fails. -/
theorem tooLong?_onesSource {n : Nat} (hn : maxDigits < n) :
    Source.tooLong? (onesSource n).toList = some n := by
  have hfault : Directive.tooLong? (onesBody n) = some n := by
    rw [Directive.tooLong?, objectText?_onesBody, Option.bind_some, Json.read_onesObject hn]
  rw [Source.tooLong?, Source.lexemes_of_scan (scan_onesSource n), List.findSome?_cons,
    Lexeme.tooLong?, hfault]

/-- One digit too many leaves a source without tokens, spans and diagram. -/
theorem not_neverFails_onesSource : ¬NeverFails (onesSource 4301) := by
  intro h
  obtain ⟨ts, hts⟩ := h.tokens
  have herror : tokenize (onesSource 4301) = .error (.numeralTooLong 4301) :=
    Source.tokens_of_tooLong? (tooLong?_onesSource (by decide))
  rw [herror] at hts
  cases hts

end Lifeline
