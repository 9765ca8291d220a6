import Lifeline.Parse
import Lifeline.Proofs.MessageLine
import Lifeline.Proofs.Script.Placed

/-!
# The tokens of the messages

Each message is read from a run of tokens of its own: the two ends with the arrow
between them, perhaps a colon, the text and the annotations. The runs follow each
other without overlap. Conversely, two identifiers with an arrow between them are
missed only where they stand inside a run, or on the line of a declaration or a
heading.
-/

namespace Lifeline

open Statement

/-- The tokens of one message. -/
structure MessageRun where
  /-- The number of tokens before the source. -/
  start : Nat
  source : String
  arrow : String
  target : String
  /-- A colon stands behind the target. -/
  colon : Bool
  /-- The tokens of the text. -/
  body : List Token
  tags : List Tag
  isText_of_mem : ∀ t ∈ body, isMessageText t = true
  colon_of_head : body.head? = some .colon → colon = true

namespace MessageRun

/-- The tokens before the text. -/
def front (r : MessageRun) : List Token :=
  .identifier r.source :: .arrow r.arrow :: .identifier r.target ::
    if r.colon then [.colon] else []

/-- The tokens of a run. -/
def tokens (r : MessageRun) : List Token := r.front ++ r.body ++ r.tags.map .tag

/-- The place of the target. -/
def targetPlace (r : MessageRun) : Nat := r.start + 2

/-- The number of tokens before the text. -/
def bodyStart (r : MessageRun) : Nat := r.start + r.front.length

/-- The number of tokens up to the end of the text. -/
def bodyStop (r : MessageRun) : Nat := r.bodyStart + r.body.length

/-- The number of tokens up to the end of the run. -/
def stop (r : MessageRun) : Nat := r.bodyStop + r.tags.length

/-- The message of a run. -/
def message (r : MessageRun) : Message where
  source := r.source
  target := r.target
  arrow := .ofLiteral r.arrow
  text := textOf r.body
  annotations := .ofList r.tags

/-- The run stands among the tokens, and neither its text nor its annotations go on behind it. -/
structure StandsIn (r : MessageRun) (ts : List Token) : Prop where
  tokens : r.tokens <+: ts.drop r.start
  text_ends : ∀ t ∈ ts[r.bodyStop]?, isMessageText t = false
  tags_end : ∀ t ∈ ts[r.stop]?, t.tag? = none

end MessageRun

namespace Statement

private theorem eq_tag_of_tag? {t : Token} {item : Tag} (h : t.tag? = some item) :
    t = .tag item := by
  cases t <;> cases h
  rfl

/-- A run of tags is made of its annotations. -/
theorem map_tag_filterMap (ts : List Token) :
    ((ts.takeWhile (·.tag?.isSome)).filterMap Token.tag?).map .tag =
      ts.takeWhile (·.tag?.isSome) := by
  induction ts with
  | nil => rfl
  | cons t ts ih =>
    rw [List.takeWhile_cons]
    split
    · next ht =>
      obtain ⟨item, hitem⟩ := Option.isSome_iff_exists.mp ht
      rw [List.filterMap_cons_some hitem, List.map_cons, ih, ← eq_tag_of_tag? hitem]
    · rfl

/-- Text, annotations and what stands behind them are all the tokens. -/
theorem text_append_tagRun (ts : List Token) :
    ts.takeWhile isMessageText ++ ((tagRun ts).map .tag ++ behindTags ts) = ts := by
  rw [tagRun, map_tag_filterMap, behindTags, List.takeWhile_append_dropWhile,
    List.takeWhile_append_dropWhile]

end Statement

namespace MessageRun

/-- The run of a message, from the tokens behind its target. -/
def ofBehind (start : Nat) (source arrow target : String) (ts : List Token) : MessageRun where
  start := start
  source := source
  arrow := arrow
  target := target
  colon := ts.head? == some .colon
  body := (afterColon ts).takeWhile isMessageText
  tags := tagRun (afterColon ts)
  isText_of_mem _ ht := List.mem_takeWhile_imp ht
  colon_of_head h := by
    cases ts with
    | nil => cases h
    | cons t ts =>
      cases t with
      | colon => rfl
      | newline => cases h
      | tag item => cases h
      | _ => simp [afterColon, isMessageText, Token.isNewline, Token.tag?] at h

variable (start : Nat) (source arrow target : String) (ts : List Token)

/-- Behind what stands before the text come the tokens behind an optional colon. -/
theorem front_ofBehind :
    (ofBehind start source arrow target ts).front ++ afterColon ts =
      .identifier source :: .arrow arrow :: .identifier target :: ts := by
  cases ts with
  | nil => rfl
  | cons t ts => cases t <;> rfl

/-- A run takes the tokens in front of those that are read after its message. -/
theorem tokens_ofBehind :
    (ofBehind start source arrow target ts).tokens ++ behindTags (afterColon ts) =
      .identifier source :: .arrow arrow :: .identifier target :: ts := by
  rw [tokens, List.append_assoc, List.append_assoc, ← front_ofBehind start]
  exact congrArg _ (text_append_tagRun (afterColon ts))

theorem length_tokens (r : MessageRun) : r.stop = r.start + r.tokens.length := by
  simp only [stop, bodyStop, bodyStart, tokens, List.length_append, List.length_map, Nat.add_assoc]

/-- The run of a message stands where the message is read. -/
theorem standsIn_ofBehind (before : List Token) :
    (ofBehind before.length source arrow target ts).StandsIn
      (before ++ .identifier source :: .arrow arrow :: .identifier target :: ts) := by
  have hall := tokens_ofBehind before.length source arrow target ts
  have hget {xs ys : List Token} {n : Nat} (hn : n = xs.length) : (xs ++ ys)[n]? = ys.head? := by
    subst hn
    rw [List.getElem?_append_right (Nat.le_refl _), Nat.sub_self, List.head?_eq_getElem?]
  refine ⟨?_, fun t ht => ?_, fun t ht => ?_⟩
  · have hdrop : (before ++ .identifier source :: .arrow arrow :: .identifier target :: ts).drop
        (ofBehind before.length source arrow target ts).start =
          .identifier source :: .arrow arrow :: .identifier target :: ts := List.drop_left
    rw [hdrop, ← hall]
    exact List.prefix_append _ _
  · rw [← front_ofBehind before.length, ← List.takeWhile_append_dropWhile (p := isMessageText)
      (l := afterColon ts), ← List.append_assoc, ← List.append_assoc, hget] at ht
    · exact Text.head?_dropWhile_eq_false ht
    · simp only [bodyStop, bodyStart, List.length_append]
      rfl
  · rw [← hall, ← List.append_assoc, hget] at ht
    · simpa using Text.head?_dropWhile_eq_false ht
    · rw [length_tokens, List.length_append]
      rfl

/-- The identifiers of a run are its source, its target and those of its text. -/
theorem place_of_identifier {r : MessageRun} {j : Nat} {name : String}
    (h : r.tokens[j]? = some (.identifier name)) :
    j = 0 ∨ j = 2 ∨ (r.front.length ≤ j ∧ j < r.front.length + r.body.length) := by
  rw [tokens, List.append_assoc] at h
  rcases Nat.lt_or_ge j r.front.length with hlt | hge
  · rw [List.getElem?_append_left hlt, front] at h
    match j with
    | 0 => exact .inl rfl
    | 1 => cases h
    | 2 => exact .inr (.inl rfl)
    | j + 3 =>
      rw [List.getElem?_cons_succ, List.getElem?_cons_succ, List.getElem?_cons_succ] at h
      have hmem := List.mem_of_getElem? h
      split at hmem <;> simp at hmem
  · rw [List.getElem?_append_right hge] at h
    rcases Nat.lt_or_ge (j - r.front.length) r.body.length with hlt | hge'
    · exact .inr (.inr ⟨hge, by omega⟩)
    · rw [List.getElem?_append_right hge'] at h
      have hmem := List.mem_of_getElem? h
      simp at hmem

end MessageRun

/-- Two identifiers with an arrow between them stand at a place. -/
def ArrowAt (ts : List Token) (i : Nat) : Prop :=
  ∃ source arrow target behind,
    ts.drop i = .identifier source :: .arrow arrow :: .identifier target :: behind

/-- An identifier stands at the place of its arrow. -/
theorem ArrowAt.exists_identifier {ts : List Token} {i : Nat} (h : ArrowAt ts i) :
    ∃ name, ts[i]? = some (.identifier name) := by
  obtain ⟨source, _, _, _, hd⟩ := h
  exact ⟨source, by rw [← List.head?_drop, hd, List.head?_cons]⟩

private theorem arrowAt_append {before ts : List Token} {j : Nat} :
    ArrowAt (before ++ ts) (before.length + j) ↔ ArrowAt ts j := by
  rw [ArrowAt, ArrowAt, List.drop_length_add_append]

namespace Statement

/-- The statement takes all that is left of its line: it is a declaration or a heading. -/
def fillsLine : Statement → Bool
  | participant _ _ | title _ | description _ => true
  | _ => false

/-- What the reading of a statement takes: the tokens of a message, or the line of a declaration or
a heading, or an identifier with an arrow that leads nowhere, or a directive. -/
theorem next_statement_cases {t : Token} {ts rest : List Token} {s : Statement}
    (h : next t ts = .statement s rest) :
    (∃ source arrow target behind, t = .identifier source ∧
      ts = .arrow arrow :: .identifier target :: behind ∧ rest = behindTags (afterColon behind) ∧
        s = .message source arrow target (textOf ((afterColon behind).takeWhile isMessageText))
          (tagRun (afterColon behind))) ∨
    (s.fillsLine = true ∧ (∀ name, t ≠ .identifier name) ∧
      ∃ line, ts = line ++ rest ∧ ∀ u ∈ line, u.isNewline = false) ∨
    (∃ source arrow, t = .identifier source ∧ ts = .arrow arrow :: rest ∧
      s = .dangling source ∧ ∀ target behind, rest ≠ .identifier target :: behind) ∨
    (rest = ts ∧ (∀ name, t ≠ .identifier name) ∧ s.message? = none) := by
  have hline (us : List Token) : ∃ line, us = line ++ afterLine us ∧
      ∀ u ∈ line, u.isNewline = false :=
    ⟨thisLine us, (List.takeWhile_append_dropWhile).symm, fun u hu => by
      simpa using List.mem_takeWhile_imp hu⟩
  cases t with
  | identifier source =>
    rw [next, readIdentifier.eq_def] at h
    split at h
    · cases h
      exact .inl ⟨_, _, _, _, rfl, rfl, rfl, rfl⟩
    · next arrow us hne =>
      cases h
      exact .inr (.inr (.inl ⟨_, _, rfl, rfl, rfl, fun target behind he => hne target behind he⟩))
    · cases h
  | keyword word =>
    have hname (name : String) : Token.keyword word ≠ .identifier name := by simp
    rw [next, readKeyword] at h
    refine .inr (.inl ?_)
    split at h
    · rw [readParticipant.eq_def] at h
      split at h
      · next id us =>
        cases h
        obtain ⟨line, hus, hl⟩ := hline us
        refine ⟨rfl, hname, .identifier id :: line, ?_, ?_⟩
        · rw [List.cons_append, ← hus]
        · rintro u (_ | ⟨_, hu⟩)
          · rfl
          · exact hl u hu
      · cases h
    split at h
    · cases h
      exact ⟨rfl, hname, hline ts⟩
    split at h
    · cases h
      exact ⟨rfl, hname, hline ts⟩
    · cases h
  | metadata data =>
    cases h
    exact .inr (.inr (.inr ⟨rfl, by simp, rfl⟩))
  | flow entry =>
    cases h
    exact .inr (.inr (.inr ⟨rfl, by simp, rfl⟩))
  | _ => cases h

/-- The reading of a message takes its ends, its text and its annotations. -/
theorem eq_message_of_next {t : Token} {ts rest : List Token} {s : Statement} {m : Message}
    (h : next t ts = .statement s rest) (hs : s.message? = some m) :
    ∃ source arrow target behind, t = .identifier source ∧
      ts = .arrow arrow :: .identifier target :: behind ∧ rest = behindTags (afterColon behind) ∧
        s = .message source arrow target (textOf ((afterColon behind).takeWhile isMessageText))
          (tagRun (afterColon behind)) := by
  rcases next_statement_cases h with hmessage | ⟨hfills, -⟩ | ⟨_, _, _, _, rfl, _⟩ | ⟨_, _, hnone⟩
  · exact hmessage
  · cases s with
    | message => cases hfills
    | _ => cases hs
  · cases hs
  · rw [hs] at hnone
    cases hnone

/-- An arrow among the tokens of a statement that is no message stands on the line of a declaration
or a heading. -/
theorem fillsLine_of_arrowAt {t : Token} {ts rest : List Token} {s : Statement}
    (h : next t ts = .statement s rest) (hs : s.message? = none) {j : Nat}
    (hj : j + rest.length < ts.length + 1) (harrow : ArrowAt (t :: ts) j) :
    s.fillsLine = true ∧ 0 < j ∧ ∀ k, 0 < k → k < j → (t :: ts)[k]? ≠ some .newline := by
  obtain ⟨name, hname⟩ := harrow.exists_identifier
  rcases next_statement_cases h with ⟨_, _, _, _, rfl, rfl, rfl, rfl⟩ |
    ⟨hfills, ht, line, rfl, hline⟩ | ⟨source, arrow, rfl, rfl, rfl, hdangling⟩ | ⟨rfl, ht, -⟩
  · cases hs
  · cases j with
    | zero => exact absurd (Option.some.inj hname) (ht name)
    | succ j =>
      refine ⟨hfills, Nat.succ_pos j, fun k hk hkj hnewline => ?_⟩
      rw [List.length_append] at hj
      obtain ⟨k, rfl⟩ := Nat.exists_eq_succ_of_ne_zero (Nat.ne_of_gt hk)
      rw [List.getElem?_cons_succ, List.getElem?_append_left (by omega)] at hnewline
      exact absurd (hline _ (List.mem_of_getElem? hnewline)) (by simp [Token.isNewline])
  · rw [List.length_cons] at hj
    match j, hj with
    | 0, _ =>
      obtain ⟨_, _, target, behind, hd⟩ := harrow
      cases hd
      exact absurd rfl (hdangling target behind)
    | 1, _ => cases hname
    | j + 2, hj => omega
  · cases j with
    | zero => exact absurd (Option.some.inj hname) (ht name)
    | succ j => omega

/-- A token without effect is one token, and no message starts there. -/
theorem next_skip_cases {t : Token} {ts rest : List Token} (h : next t ts = .skip rest) :
    rest = ts ∧ ¬ArrowAt (t :: ts) 0 := by
  cases t with
  | identifier source =>
    rw [next, readIdentifier.eq_def] at h
    split at h
    · cases h
    · cases h
    · next hmessage _ =>
      cases h
      refine ⟨rfl, ?_⟩
      rintro ⟨_, _, _, _, he⟩
      cases he
      exact hmessage _ _ _ rfl
  | keyword word =>
    rw [next, readKeyword] at h
    split at h
    · rw [readParticipant.eq_def] at h
      split at h <;> cases h
    split at h
    · cases h
    split at h
    · cases h
    · cases h
      exact ⟨rfl, by rintro ⟨_, _, _, _, he⟩; cases he⟩
  | _ =>
    cases h
    all_goals exact ⟨rfl, by rintro ⟨_, _, _, _, he⟩; cases he⟩

end Statement

/-- Why two identifiers with an arrow between them at a place are, or are not, a message of their
own: a run starts there, or they stand at the target or in the text of a run, or on the line of a
declaration or a heading. -/
def Accounted (runs : List MessageRun) (placed : List (Nat × Statement)) (ts : List Token)
    (i : Nat) : Prop :=
  (∃ r ∈ runs, i = r.start ∨ i = r.targetPlace ∨ (r.bodyStart ≤ i ∧ i < r.bodyStop)) ∨
    ∃ p s, (p, s) ∈ placed ∧ s.fillsLine = true ∧ p < i ∧
      ∀ k, p < k → k < i → ts[k]? ≠ some .newline

/-- The runs stand among the tokens from a place on, one after the other, and account for every
arrow behind that place. -/
structure Accounts (ts : List Token) (place : Nat) (placed : List (Nat × Statement))
    (runs : List MessageRun) : Prop where
  standsIn : ∀ r ∈ runs, r.StandsIn ts
  le_start : ∀ r ∈ runs, place ≤ r.start
  pairwise : runs.Pairwise fun r q => r.stop ≤ q.start
  accounted : ∀ i, place ≤ i → ArrowAt ts i → Accounted runs placed ts i

section

variable {ts : List Token} {place : Nat} {ps : List (Nat × Statement)} {runs : List MessageRun}

/-- Further runs and statements still account for an arrow. -/
theorem Accounted.mono {qs : List (Nat × Statement)} {more : List MessageRun} {i : Nat}
    (h : Accounted runs ps ts i) (hr : runs ⊆ more) (hp : ps ⊆ qs) : Accounted more qs ts i := by
  rcases h with ⟨r, hmem, hi⟩ | ⟨p, s, hmem, hs⟩
  · exact .inl ⟨r, hr hmem, hi⟩
  · exact .inr ⟨p, s, hp hmem, hs⟩

/-- Tokens in front without a run have to be accounted for by themselves. -/
theorem Accounts.skip {qs : List (Nat × Statement)} {n : Nat} (h : Accounts ts n ps runs)
    (hn : place ≤ n) (hp : ps ⊆ qs)
    (hi : ∀ i, place ≤ i → i < n → ArrowAt ts i → Accounted runs qs ts i) :
    Accounts ts place qs runs where
  standsIn := h.standsIn
  le_start r hr := Nat.le_trans hn (h.le_start r hr)
  pairwise := h.pairwise
  accounted i hle harrow := by
    rcases Nat.lt_or_ge i n with hlt | hge
    · exact hi i hle hlt harrow
    · exact (h.accounted i hge harrow).mono (List.Subset.refl _) hp

/-- A run in front accounts for the arrows among its own tokens. -/
theorem Accounts.cons {qs : List (Nat × Statement)} {r : MessageRun}
    (h : Accounts ts r.stop ps runs) (hr : r.StandsIn ts) (hp : ps ⊆ qs) :
    Accounts ts r.start qs (r :: runs) where
  standsIn := List.forall_mem_cons.mpr ⟨hr, h.standsIn⟩
  le_start := List.forall_mem_cons.mpr ⟨Nat.le_refl _, fun q hq => by
    have := h.le_start q hq
    have := r.length_tokens
    omega⟩
  pairwise := List.pairwise_cons.mpr ⟨h.le_start, h.pairwise⟩
  accounted i hle harrow := by
    rcases Nat.lt_or_ge i r.stop with hlt | hge
    · obtain ⟨name, hname⟩ := harrow.exists_identifier
      obtain ⟨behind, hbehind⟩ := hr.tokens
      have hj : i - r.start < r.tokens.length := by
        have := r.length_tokens
        omega
      have htoken : r.tokens[i - r.start]? = some (.identifier name) := by
        have hfront : (r.tokens ++ behind)[i - r.start]? = r.tokens[i - r.start]? :=
          List.getElem?_append_left hj
        rw [← hfront, hbehind, List.getElem?_drop, Nat.add_sub_cancel' hle, hname]
      have hplace := MessageRun.place_of_identifier htoken
      refine .inl ⟨r, List.mem_cons_self, ?_⟩
      simp only [MessageRun.targetPlace, MessageRun.bodyStart, MessageRun.bodyStop]
      omega
    · exact (h.accounted i hge harrow).mono (List.subset_cons_self _ _) hp

end

namespace Script

/-- Tokens that are read without a fault have a run for every message, and the runs account for
every arrow. -/
theorem exists_runs {us ts : List Token} (before : List Token) (hus : us = before ++ ts)
    (h : (ofTokens ts).fault = none) :
    ∃ runs : List MessageRun, runs.map MessageRun.message = (ofTokens ts).messages ∧
      Accounts us before.length (placed us.length ts) runs := by
  -- `before` has been read already, so that all places are counted from the first token of `us`.
  induction ts using ofTokens.induct generalizing before with
  | case1 =>
    refine ⟨[], by rw [ofTokens_nil]; rfl, by simp, by simp, List.Pairwise.nil,
      fun i hi harrow => ?_⟩
    obtain ⟨name, hname⟩ := harrow.exists_identifier
    rw [hus, List.append_nil, List.getElem?_eq_none hi] at hname
    cases hname
  | case2 t ts s rest hn ih =>
    have hscript : ofTokens (t :: ts) = (ofTokens rest).prepend s := by
      rw [ofTokens_cons, hn]
    have hplaced : placed us.length (t :: ts) = (before.length, s) :: placed us.length rest := by
      rw [placed_cons, hn, hus, List.length_append, List.length_cons, Nat.add_sub_cancel]
    have hsub : placed us.length rest ⊆ (before.length, s) :: placed us.length rest :=
      List.subset_cons_self _ _
    rw [hscript] at h
    rw [hplaced, hscript]
    cases hs : s.message? with
    | some m =>
      obtain ⟨source, arrow, target, behind, rfl, rfl, rfl, rfl⟩ :=
        Statement.eq_message_of_next hn hs
      have htokens := MessageRun.tokens_ofBehind before.length source arrow target behind
      have hstands := MessageRun.standsIn_ofBehind source arrow target behind before
      rw [← hus] at hstands
      obtain ⟨runs, hmessages, hruns⟩ :=
        ih (before ++ (MessageRun.ofBehind before.length source arrow target behind).tokens)
          (by rw [hus, ← htokens, List.append_assoc]) h
      have hstop := (MessageRun.ofBehind before.length source arrow target behind).length_tokens
      rw [List.length_append] at hruns
      refine ⟨MessageRun.ofBehind before.length source arrow target behind :: runs, ?_, ?_⟩
      · rw [List.map_cons, hmessages]
        rfl
      · exact Accounts.cons (hstop ▸ hruns) hstands hsub
    | none =>
      obtain ⟨seg, rfl⟩ := Statement.suffix_of_next_statement hn
      obtain ⟨runs, hmessages, hruns⟩ :=
        ih (before ++ t :: seg) (by rw [hus, List.append_assoc, List.cons_append]) h
      rw [List.length_append] at hruns
      refine ⟨runs, ?_, hruns.skip (Nat.le_add_right _ _) hsub fun i hle hlt harrow => ?_⟩
      · rw [hmessages, messages, messages, prepend, List.filterMap_cons_none hs]
      · obtain ⟨j, rfl⟩ := Nat.exists_eq_add_of_le hle
        rw [hus, arrowAt_append] at harrow
        rw [List.length_cons] at hlt
        obtain ⟨hfills, hj, hline⟩ := Statement.fillsLine_of_arrowAt hn hs
          (by rw [List.length_append]; omega) harrow
        refine .inr ⟨before.length, s, List.mem_cons_self, hfills, by omega, fun k hk hkj => ?_⟩
        obtain ⟨k, rfl⟩ := Nat.exists_eq_add_of_le (Nat.le_of_lt hk)
        rw [hus, List.getElem?_append_right (Nat.le_add_right _ _), Nat.add_sub_cancel_left]
        exact hline k (by omega) (by omega)
  | case3 t ts rest hn ih =>
    obtain ⟨rfl, hnone⟩ := Statement.next_skip_cases hn
    have hscript : ofTokens (t :: rest) = ofTokens rest := by
      rw [ofTokens_cons, hn]
    have hplaced : placed us.length (t :: rest) = placed us.length rest := by
      rw [placed_cons, hn]
    rw [hscript] at h
    obtain ⟨runs, hmessages, hruns⟩ := ih (before ++ [t]) (by rw [hus, List.append_assoc]; rfl) h
    rw [List.length_append, List.length_singleton] at hruns
    rw [hscript, hplaced]
    refine ⟨runs, hmessages,
      hruns.skip (Nat.le_succ _) (List.Subset.refl _) fun i hle hlt harrow => ?_⟩
    obtain rfl : i = before.length + 0 := by omega
    rw [hus, arrowAt_append] at harrow
    exact absurd harrow hnone
  | case4 t ts keyword hn =>
    rw [ofTokens_cons, hn] at h
    cases h

end Script

/-- Every message of a diagram has a run of tokens of its own, from which all of it comes; the runs
stand one after the other, in the order of the messages. Wherever else an arrow stands between two
identifiers, it stands at the target or in the text of such a run, or on the line of a participant
or a heading. -/
theorem Diagram.messages_have_runs {ts : List Token} {d : Diagram}
    (h : Diagram.ofTokens ts = .ok d) :
    ∃ runs : List MessageRun,
      runs.map MessageRun.message = d.messages ∧
      (∀ r ∈ runs, r.StandsIn ts) ∧
      runs.Pairwise (fun r q => r.stop ≤ q.start) ∧
      ∀ i, ArrowAt ts i → Accounted runs (Script.placed ts.length ts) ts i := by
  rw [ofTokens] at h
  split at h
  · cases h
  · next hfault =>
    cases h
    obtain ⟨runs, hmessages, hruns⟩ := Script.exists_runs [] rfl hfault
    exact ⟨runs, hmessages, hruns.standsIn, hruns.pairwise,
      fun i => hruns.accounted i (Nat.zero_le i)⟩

/-- A heading, and a line with two messages and an arrow that leads nowhere. -/
def chainedTokens : List Token :=
  [.keyword "title", .identifier "A", .arrow "->", .identifier "B", .newline,
    .identifier "A", .arrow "->", .identifier "B", .arrow "->", .identifier "C",
    .tag ⟨"async", none⟩, .identifier "D", .arrow "-->", .identifier "E", .arrow "->>"]

/-- Two of the four arrows are messages; the others stand in the heading and in a text. -/
theorem Diagram.messages_have_runs_sample :
    ∃ d, Diagram.ofTokens chainedTokens = .ok d ∧ d.messages.length = 2 ∧
      ∃ runs : List MessageRun, runs.map MessageRun.message = d.messages ∧
        (∀ r ∈ runs, r.StandsIn chainedTokens) ∧
        ∀ i, ArrowAt chainedTokens i →
          Accounted runs (Script.placed chainedTokens.length chainedTokens) chainedTokens i := by
  have hfault : (Script.ofTokens chainedTokens).fault = none := by decide +kernel
  have hd : Diagram.ofTokens chainedTokens =
      .ok (ofStatements (Script.ofTokens chainedTokens).statements).inferParticipants := by
    rw [Diagram.ofTokens, hfault]
  obtain ⟨runs, hmessages, hstand, -, harrows⟩ := Diagram.messages_have_runs hd
  exact ⟨_, hd, by decide +kernel, runs, hmessages, hstand, harrows⟩

end Lifeline
