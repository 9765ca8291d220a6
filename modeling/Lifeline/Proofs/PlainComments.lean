import Lifeline.Proofs.LineComposition
import Lifeline.Proofs.Scan.Cuts

/-!
# Comments at the end of a line

Whatever is being read when a line ends, a comment in front of the line end makes no
difference to it: it is taken with the rest of a line and with the text of a message,
where it says nothing, and it is skipped everywhere else. So a plain comment leaves the
diagram of a source as it is, and it only moves an error that stands behind it.
-/

namespace Lifeline

open Text

namespace Statement

/-- The second reading is the first one where a token more stands at the end: the token is left
behind the reading, or it is taken by a statement that takes all tokens. -/
inductive Reading.Absorbs (x : Token) : Reading → Reading → Prop
  | left (r : Reading) : Absorbs x r (r.followedBy [x])
  | taken (s : Statement) : Absorbs x (statement s []) (statement s [])

variable {p : Token → Bool} (ts : List Token) (note : String)

/-- A token at the end goes on with a run that reaches the end, and it is left behind any other. -/
theorem run_concat {x : Token} (hx : p x = true) :
    ((ts ++ [x]).takeWhile p = ts.takeWhile p ++ [x] ∧ (ts ++ [x]).dropWhile p = [] ∧
        ts.dropWhile p = []) ∨
      ((ts ++ [x]).takeWhile p = ts.takeWhile p ∧
        (ts ++ [x]).dropWhile p = ts.dropWhile p ++ [x]) := by
  induction ts with
  | nil => exact .inl (by simp [hx])
  | cons t ts ih =>
    rw [List.cons_append]
    cases ht : p t with
    | false => exact .inr (by simp [ht])
    | true => simpa [List.takeWhile_cons, List.dropWhile_cons, ht] using ih

/-- A comment adds nothing to a text. -/
theorem textOf_concat_comment (run : List Token) :
    textOf (run ++ [.comment note]) = textOf run := by
  rw [textOf, List.filterMap_append, List.filterMap_cons_none rfl, List.filterMap_nil,
    List.append_nil, textOf]

private theorem displayName_concat_comment (id : String) :
    displayName id (ts ++ [.comment note]) = displayName id ts := by
  rcases ts with _ | ⟨t, _ | ⟨t', ts⟩⟩
  · rfl
  · cases t <;> rfl
  · cases t <;> cases t' <;> rfl

private theorem afterColon_concat_comment :
    afterColon (ts ++ [.comment note]) = afterColon ts ++ [.comment note] := by
  cases ts with
  | nil => rfl
  | cons t ts => cases t <;> rfl

/-- A declaration takes a comment with the rest of its line. -/
theorem readParticipant_concat_comment (keyword : String) :
    (readParticipant keyword ts).Absorbs (.comment note)
      (readParticipant keyword (ts ++ [.comment note])) := by
  cases ts with
  | nil => exact .left (.missingName keyword)
  | cons t ts =>
    cases t with
    | identifier id =>
      rw [List.cons_append, readParticipant, readParticipant, displayName_concat_comment, afterLine,
        afterLine]
      rcases run_concat (p := (!·.isNewline)) ts (x := .comment note) rfl with
        ⟨-, hdrop, hnone⟩ | ⟨-, hdrop⟩
      · rw [hdrop, hnone]
        exact .taken _
      · rw [hdrop]
        exact .left (.statement _ _)
    | _ => exact .left (.missingName keyword)

/-- A heading takes a comment with the rest of its line, and its text stays the same. -/
theorem heading_concat_comment (heading : String → Statement) :
    (Reading.statement (heading (textOf (thisLine ts))) (afterLine ts)).Absorbs (.comment note)
      (.statement (heading (textOf (thisLine (ts ++ [.comment note]))))
        (afterLine (ts ++ [.comment note]))) := by
  rw [thisLine, thisLine, afterLine, afterLine]
  rcases run_concat (p := (!·.isNewline)) ts (x := .comment note) rfl with
    ⟨htake, hdrop, hnone⟩ | ⟨htake, hdrop⟩
  · rw [htake, hdrop, hnone, textOf_concat_comment]
    exact .taken _
  · rw [htake, hdrop]
    exact .left (.statement _ _)

/-- A message takes a comment with its text; behind its annotations the comment is left. -/
theorem readMessage_concat_comment (source arrow target : String) :
    (readMessage source arrow target ts).Absorbs (.comment note)
      (readMessage source arrow target (ts ++ [.comment note])) := by
  simp only [readMessage, afterColon_concat_comment]
  rcases run_concat (p := isMessageText) (afterColon ts) (x := .comment note) rfl with
    ⟨htake, hdrop, hnone⟩ | ⟨htake, hdrop⟩
  · rw [htake, hdrop, hnone, textOf_concat_comment]
    exact .taken _
  · have hstop : ∀ t ∈ [Token.comment note].head?, t.tag?.isSome = false := by
      rintro t ⟨⟩
      rfl
    rw [htake, hdrop, takeWhile_append_of_head hstop, dropWhile_append_of_head hstop]
    exact .left (.statement _ _)

/-- A comment is neither an arrow nor a target. -/
theorem readIdentifier_concat_comment (source : String) :
    (readIdentifier source ts).Absorbs (.comment note)
      (readIdentifier source (ts ++ [.comment note])) := by
  rcases ts with _ | ⟨t, ts⟩
  · exact .left (.skip [])
  cases t with
  | arrow literal =>
    rcases ts with _ | ⟨t, ts⟩
    · exact .left (.statement (.dangling source) [])
    cases t with
    | identifier target => exact readMessage_concat_comment ts note source literal target
    | _ => exact .left (.statement (.dangling source) _)
  | _ => exact .left (.skip _)

/-- Behind a reserved word a comment is taken or left. -/
theorem readKeyword_concat_comment (word : String) :
    (readKeyword word ts).Absorbs (.comment note) (readKeyword word (ts ++ [.comment note])) := by
  rw [readKeyword, readKeyword]
  split
  · exact readParticipant_concat_comment ts note word
  split
  · exact heading_concat_comment ts note .title
  split
  · exact heading_concat_comment ts note .description
  · exact .left (.skip ts)

/-- Whatever is read at a token, a comment at the end changes nothing about it. -/
theorem next_concat_comment (t : Token) :
    (next t ts).Absorbs (.comment note) (next t (ts ++ [.comment note])) := by
  cases t with
  | keyword word => exact readKeyword_concat_comment ts note word
  | identifier source => exact readIdentifier_concat_comment ts note source
  | metadata data => exact .left (.statement (.metadata data) ts)
  | flow entry => exact .left (.statement (.flow entry) ts)
  | _ => exact .left (.skip ts)

end Statement

/-- The same fault with more tokens behind it. -/
def MissingName.followedBy (more : List Token) (f : MissingName) : MissingName :=
  { f with behind := f.behind ++ more }

namespace Script

variable {ts rest : List Token} (note : String)

/-- A comment at the end adds no statement and no fault. -/
theorem ofTokens_concat_comment (ts : List Token) :
    ofTokens (ts ++ [.comment note]) =
      ⟨(ofTokens ts).statements, (ofTokens ts).fault.map (.followedBy [.comment note])⟩ := by
  induction ts using ofTokens.induct with
  | case1 =>
    rw [List.nil_append, ofTokens_cons, ofTokens_nil]
    exact ofTokens_nil
  | case2 t ts s rest hn ih =>
    have hnext := Statement.next_concat_comment ts note t
    rw [List.cons_append, ofTokens_cons, ofTokens_cons]
    rw [hn] at hnext ⊢
    generalize Statement.next t (ts ++ [.comment note]) = r at hnext
    cases hnext with
    | left => simp only [Statement.Reading.followedBy, ih, prepend]
    | taken => simp only [ofTokens_nil, prepend, Option.map_none]
  | case3 t ts rest hn ih =>
    have hnext := Statement.next_concat_comment ts note t
    rw [List.cons_append, ofTokens_cons, ofTokens_cons]
    rw [hn] at hnext ⊢
    generalize Statement.next t (ts ++ [.comment note]) = r at hnext
    cases hnext with
    | left => exact ih
  | case4 t ts keyword hn =>
    have hnext := Statement.next_concat_comment ts note t
    rw [List.cons_append, ofTokens_cons, ofTokens_cons]
    rw [hn] at hnext ⊢
    generalize Statement.next t (ts ++ [.comment note]) = r at hnext
    cases hnext with
    | left => rfl

/-- Tokens in front of a line end are read first, up to a fault; the others are read behind them. -/
theorem ofTokens_append_of_lineEnd (ts : List Token) (h : ∀ t ∈ rest.head?, t = .newline) :
    ofTokens (ts ++ rest) =
      match (ofTokens ts).fault with
      | some f => ⟨(ofTokens ts).statements, some (f.followedBy rest)⟩
      | none =>
        ⟨(ofTokens ts).statements ++ (ofTokens rest).statements, (ofTokens rest).fault⟩ := by
  cases hts : (ofTokens ts).fault with
  | some f =>
    cases rest with
    | nil =>
      simp only [List.append_nil, MissingName.followedBy]
      rw [← hts]
    | cons t us =>
      obtain rfl := h t rfl
      exact ofTokens_append_newline_of_fault us hts
  | none =>
    cases rest with
    | nil =>
      simp only [ofTokens_nil, List.append_nil]
      rw [← hts]
    | cons t us =>
      obtain rfl := h t rfl
      rw [ofTokens_newline]
      exact ofTokens_append_newline us hts

/-- If a fault stands in front of a comment at the end of a line, the comment is only a token more
behind it. -/
theorem ofTokens_comment_of_fault (h : ∀ t ∈ rest.head?, t = .newline) {f : MissingName}
    (hf : (ofTokens ts).fault = some f) :
    (ofTokens (ts ++ rest)).fault = some (f.followedBy rest) ∧
      (ofTokens (ts ++ .comment note :: rest)).fault =
        some (f.followedBy (.comment note :: rest)) := by
  have hnote : (ofTokens (ts ++ [.comment note])).fault = some (f.followedBy [.comment note]) := by
    rw [ofTokens_concat_comment, hf]
    rfl
  refine ⟨?_, ?_⟩
  · rw [ofTokens_append_of_lineEnd ts h, hf]
  · rw [List.append_cons, ofTokens_append_of_lineEnd _ h, hnote]
    simp only [MissingName.followedBy, List.append_assoc, List.singleton_append]

/-- Otherwise the comment makes no difference at all. -/
theorem ofTokens_comment (h : ∀ t ∈ rest.head?, t = .newline) (hf : (ofTokens ts).fault = none) :
    ofTokens (ts ++ .comment note :: rest) = ofTokens (ts ++ rest) := by
  rw [List.append_cons, ofTokens_append_of_lineEnd _ h, ofTokens_append_of_lineEnd _ h,
    ofTokens_concat_comment, hf]
  rfl

private theorem length_behind_lt_of_append (h : ∀ t ∈ rest.head?, t = .newline)
    (hts : (ofTokens ts).fault = none) {f : MissingName}
    (hf : (ofTokens (ts ++ rest)).fault = some f) : f.behind.length < rest.length := by
  rw [ofTokens_append_of_lineEnd ts h, hts] at hf
  exact length_behind_lt hf

end Script

/-- The same result of reading tokens, but for the place of an error: it counts a token that stands
behind the first `n` ones. -/
inductive Diagram.SameButFor (n : Nat) : Except Failure Diagram → Except Failure Diagram → Prop
  | diagram (d : Diagram) : SameButFor n (.ok d) (.ok d)
  | before (message : String) {k : Nat} (h : k ≤ n) :
    SameButFor n (.error (.parse ⟨message, some k⟩)) (.error (.parse ⟨message, some k⟩))
  | behind (message : String) {k : Nat} (h : n < k) :
    SameButFor n (.error (.parse ⟨message, some k⟩))
      (.error (.parse ⟨message, some (k + 1 : Nat)⟩))

namespace Diagram

variable {ts rest : List Token}

private theorem failureOf_followedBy (ts more : List Token) (f : MissingName) :
    failureOf (ts ++ more) (f.followedBy more) = failureOf ts f := by
  rw [failureOf, failureOf, MissingName.followedBy, List.length_append, List.length_append,
    Nat.add_sub_add_right]

/-- A comment at the end of a line moves an error behind it, and it makes no other difference. -/
theorem ofTokens_comment (note : String) (h : ∀ t ∈ rest.head?, t = .newline) :
    SameButFor ts.length (ofTokens (ts ++ rest)) (ofTokens (ts ++ .comment note :: rest)) := by
  cases hts : (Script.ofTokens ts).fault with
  | some f =>
    obtain ⟨hplain, hnote⟩ := Script.ofTokens_comment_of_fault note h hts
    rw [ofTokens_of_fault hplain, ofTokens_of_fault hnote, failureOf_followedBy,
      failureOf_followedBy]
    exact .before _ (Nat.sub_le _ _)
  | none =>
    have hsame := Script.ofTokens_comment note h hts
    cases hf : (Script.ofTokens (ts ++ rest)).fault with
    | none =>
      rw [ofTokens_of_no_fault hf, ofTokens_of_no_fault (hsame ▸ hf), hsame]
      exact .diagram _
    | some f =>
      have hlt := Script.length_behind_lt_of_append h hts hf
      have hplace : (ts ++ .comment note :: rest).length - f.behind.length =
          (ts ++ rest).length - f.behind.length + 1 := by
        simp only [List.length_append, List.length_cons]
        omega
      have hbehind : ts.length < (ts ++ rest).length - f.behind.length := by
        rw [List.length_append]
        omega
      rw [ofTokens_of_fault hf, ofTokens_of_fault (hsame ▸ hf), failureOf, failureOf, hplace]
      exact .behind _ hbehind

end Diagram

/-- The text is a comment if it stands behind `%%`: it keeps to one line, and neither a brace nor
the mark of a flow makes it another directive. -/
structure IsPlainComment (note : List Char) : Prop where
  oneLine : '\n' ∉ note
  noBrace : ¬['\x7b'] <+: note
  noFlow : ¬['f', 'l', 'o', 'w', ' '] <+: note ∧ ¬['f', 'l', 'o', 'w', '\t'] <+: note

instance (note : List Char) : Decidable (IsPlainComment note) :=
  decidable_of_iff
    ('\n' ∉ note ∧ ¬['\x7b'] <+: note ∧
      ¬['f', 'l', 'o', 'w', ' '] <+: note ∧ ¬['f', 'l', 'o', 'w', '\t'] <+: note)
    ⟨fun ⟨hl, hb, hf⟩ => ⟨hl, hb, hf⟩, fun ⟨hl, hb, hf⟩ => ⟨hl, hb, hf⟩⟩

namespace IsPlainComment

variable {note : List Char}

/-- Such a text declares no flow. -/
theorem isFlow_eq_false (h : IsPlainComment note) :
    Directive.isFlow ('%' :: '%' :: note) = false := by
  rw [Directive.isFlow]
  split
  · next c rest hmark =>
    have hnote : note = ['f', 'l', 'o', 'w'] ++ c :: rest :=
      (List.cons.inj (List.cons.inj (after?_eq_some_iff.mp hmark)).2).2
    have hspace : c ≠ ' ' := by
      rintro rfl
      exact h.noFlow.1 ⟨rest, hnote.symm⟩
    have htab : c ≠ '\t' := by
      rintro rfl
      exact h.noFlow.2 ⟨rest, hnote.symm⟩
    simp [hspace, htab]
  · rfl

/-- Such a text is read as a comment. -/
theorem read_eq (h : IsPlainComment note) : Directive.read ('%' :: '%' :: note) =
    .ok (.comment (Directive.commentText ('%' :: '%' :: note)) none) := by
  have hbrace : ¬['%', '%', '\x7b'].isPrefixOf ('%' :: '%' :: note) = true := by
    rw [List.isPrefixOf_iff_prefix]
    rintro ⟨rest, hrest⟩
    exact h.noBrace ⟨rest, (List.cons.inj (List.cons.inj hrest).2).2⟩
  rw [Directive.read, if_neg hbrace, h.isFlow_eq_false]
  rfl

end IsPlainComment

namespace Source

variable {a b note : List Char} {all : List Token}

private theorem parted_of_lineEnd (hb : ∀ c ∈ b.head?, c = '\n') : Parted b := fun c hc => by
  rw [hb c hc]
  rfl

/-- The tokens in front of a line end are found by themselves, and the first token behind it ends
the line. -/
theorem exists_tokens_of_lineEnd (ha : Closed a) (hb : ∀ c ∈ b.head?, c = '\n')
    (hall : tokens (a ++ b) = .ok all) :
    ∃ ts us, tokens a = .ok ts ∧ tokens b = .ok us ∧ all = ts ++ us ∧
      ∀ t ∈ us.head?, t = .newline := by
  rw [tokens_of_lexemes (lexemes_append ha (parted_of_lineEnd hb) fun _ => hb)] at hall
  cases hts : tokens a with
  | error e => rw [hts] at hall; cases hall
  | ok ts =>
    cases hus : tokens b with
    | error e => rw [hts, hus] at hall; cases hall
    | ok us =>
      rw [hts, hus] at hall
      cases hall
      refine ⟨ts, us, rfl, rfl, rfl, ?_⟩
      cases b with
      | nil =>
        rw [tokens, lexemes_nil] at hus
        cases hus
        rintro t ⟨⟩
      | cons c b =>
        obtain rfl := hb c rfl
        rw [tokens_newline] at hus
        cases htokens : tokens b with
        | error e => rw [htokens] at hus; cases hus
        | ok us' =>
          rw [htokens] at hus
          cases hus
          rintro t ⟨⟩
          rfl

/-- A plain comment at a line end is one token more, where nothing takes it. -/
theorem tokens_comment (ha : Closed a) (hline : ¬FillsLastLine a) (hnote : IsPlainComment note)
    (hb : ∀ c ∈ b.head?, c = '\n') :
    tokens (a ++ ' ' :: '%' :: '%' :: (note ++ b)) =
      (do return (← tokens a) ++
        .comment (Directive.commentText ('%' :: '%' :: note)) :: (← tokens b)) := by
  have hfront : lexemes (a ++ ' ' :: '%' :: '%' :: (note ++ b)) =
      lexemes a ++ lexemes ('%' :: '%' :: (note ++ b)) := by
    rw [lexemes_append ha (parted_cons.mpr rfl) fun h => absurd h hline, lexemes_space]
  have hbehind : tokens ('%' :: '%' :: (note ++ b)) =
      (tokens b).map (.comment (Directive.commentText ('%' :: '%' :: note)) :: ·) :=
    tokens_lineDirective hnote.oneLine hnote.noBrace hb hnote.read_eq
  rw [tokens_of_lexemes hfront, hbehind]
  cases tokens a <;> cases tokens b <;> rfl

/-- A source with a comment put in at a place. -/
def commented (source : String) (p : Nat) (note : String) : String :=
  upTo source p ++ " %%" ++ note ++ behind source p

private theorem toList_commented (source : String) (p : Nat) (note : String) :
    (commented source p note).toList =
      source.toList.take p ++ ' ' :: '%' :: '%' :: (note.toList ++ source.toList.drop p) := by
  simp [commented, upTo, behind]

end Source

/-- A plain comment at the end of a line leaves the diagram of a source as it is, if nothing stands
open there and no directive runs up to it. A source without a diagram has the same error with the
comment, behind it one token later. -/
theorem parse_commented {source note : String} {all : List Token} {p : Nat}
    (h : tokenize source = .ok all) (hp : p = source.length ∨ source.toList[p]? = some '\n')
    (hclosed : Source.Closed (source.toList.take p))
    (hline : ¬Source.FillsLastLine (source.toList.take p)) (hnote : IsPlainComment note.toList) :
    ∃ ts, tokenize (Source.upTo source p) = .ok ts ∧
      Diagram.SameButFor ts.length (parse source) (parse (Source.commented source p note)) := by
  have hend : ∀ c ∈ (source.toList.drop p).head?, c = '\n' := by
    rw [List.head?_drop]
    rcases hp with rfl | hp
    · rw [← String.length_toList, List.getElem?_length]
      rintro c ⟨⟩
    · rw [hp]
      rintro c ⟨⟩
      rfl
  have hsource :
      tokenize source = Source.tokens (source.toList.take p ++ source.toList.drop p) := by
    rw [List.take_append_drop, tokenize]
  obtain ⟨ts, us, hts, hus, rfl, hstop⟩ :=
    Source.exists_tokens_of_lineEnd hclosed hend (hsource.symm.trans h)
  have hcommented : tokenize (Source.commented source p note) =
      .ok (ts ++ .comment (Directive.commentText ('%' :: '%' :: note.toList)) :: us) := by
    rw [tokenize, Source.toList_commented, Source.tokens_comment hclosed hline hnote hend, hts, hus]
    rfl
  refine ⟨ts, ?_, ?_⟩
  · rw [tokenize, Source.upTo, String.toList_ofList, hts]
  · rw [parse, parse, h, hcommented]
    exact Diagram.ofTokens_comment _ hstop

/-- A source with an arrow that leads nowhere, and a participant without a name behind it. -/
def unfinishedSource : String := "A->B: hi\nA->\nparticipant"

/-- A comment behind the arrow that would leave a quote and a value open. -/
def unfinishedNote : String := "flows \"and @notes\x7b"

/-- The error behind the comment is found one token later. -/
theorem parse_commented_sample :
    parse unfinishedSource =
        .error (.parse ⟨"Expected participant identifier after 'participant'", some 10⟩) ∧
      Source.commented unfinishedSource 12 unfinishedNote =
        "A->B: hi\nA-> %%flows \"and @notes\x7b\nparticipant" ∧
      parse (Source.commented unfinishedSource 12 unfinishedNote) =
        .error (.parse ⟨"Expected participant identifier after 'participant'", some 11⟩) := by
  have htokens : tokenize (Source.upTo unfinishedSource 12) = .ok
      [.identifier "A", .arrow "->", .identifier "B", .colon, .identifier "hi", .newline,
        .identifier "A", .arrow "->"] := by decide +kernel
  have hall : tokenize unfinishedSource = .ok
      [.identifier "A", .arrow "->", .identifier "B", .colon, .identifier "hi", .newline,
        .identifier "A", .arrow "->", .newline, .keyword "participant"] := by decide +kernel
  have hparse : parse unfinishedSource =
      .error (.parse ⟨"Expected participant identifier after 'participant'", some (10 : Nat)⟩) := by
    decide +kernel
  have hline : ¬Source.FillsLastLine (unfinishedSource.toList.take 12) := by
    rintro ⟨l, hl, hf⟩
    have hlast : (Source.lexemes (unfinishedSource.toList.take 12)).getLast? =
        some (.arrow ⟨.solid, .stroked⟩) := by decide +kernel
    rw [hlast] at hl
    cases hl
    cases hf
  have hnote : IsPlainComment unfinishedNote.toList := by decide +kernel
  obtain ⟨ts, hts, hsame⟩ :=
    parse_commented hall (.inr (by decide)) (by decide +kernel) hline hnote
  rw [htokens] at hts
  cases hts
  rw [hparse] at hsame
  refine ⟨hparse, by decide +kernel, ?_⟩
  generalize parse (Source.commented unfinishedSource 12 unfinishedNote) = r at hsame
  cases hsame with
  | before _ h => exact absurd h (by decide)
  | behind => rfl

end Lifeline
