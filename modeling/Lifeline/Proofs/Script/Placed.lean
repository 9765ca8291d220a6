import Lifeline.Proofs.Script.LineBreak
import Mathlib.Data.List.Infix

/-!
# Where statements stand

Each statement stands at one token of the source: the one at which it starts. The
place of a message is the token of its source, and its arrow and its target are
the two tokens behind it.
-/

namespace Lifeline

namespace Statement

/-- A message leaves the tokens at the end. -/
theorem rest_readMessage_suffix (source arrow target : String) (ts : List Token) :
    (readMessage source arrow target ts).rest <:+ ts := by
  have hcolon : afterColon ts <:+ ts := by
    unfold afterColon
    split
    · exact List.suffix_cons _ _
    · exact List.suffix_refl _
  exact ((List.dropWhile_suffix _).trans (List.dropWhile_suffix _)).trans hcolon

/-- A reading leaves the tokens at the end. -/
theorem rest_next_suffix (t : Token) (ts : List Token) : (next t ts).rest <:+ ts := by
  cases t with
  | keyword word =>
    rw [next, readKeyword]
    split
    · cases ts with
      | nil => exact List.nil_suffix
      | cons u us =>
        cases u with
        | identifier id => exact (List.dropWhile_suffix _).trans (List.suffix_cons _ _)
        | _ => exact List.nil_suffix
    split
    · exact List.dropWhile_suffix _
    split
    · exact List.dropWhile_suffix _
    · exact List.suffix_refl _
  | identifier source =>
    rw [next, readIdentifier.eq_def]
    split
    · exact (rest_readMessage_suffix _ _ _ _).trans
        ((List.suffix_cons _ _).trans (List.suffix_cons _ _))
    · exact List.suffix_cons _ _
    · exact List.suffix_refl _
  | _ => exact List.suffix_refl _

/-- A statement leaves the tokens at the end. -/
theorem suffix_of_next_statement {t : Token} {ts rest : List Token} {s : Statement}
    (h : next t ts = .statement s rest) : rest <:+ ts := by
  have hrest := rest_next_suffix t ts
  rwa [h] at hrest

/-- So does a token that is skipped. -/
theorem suffix_of_next_skip {t : Token} {ts rest : List Token} (h : next t ts = .skip rest) :
    rest <:+ ts := by
  have hrest := rest_next_suffix t ts
  rwa [h] at hrest

/-- How a statement starts: the token at which it is read, and what it is read from behind it. -/
def StartsAt (s : Statement) (t : Token) (us : List Token) : Prop :=
  match s with
  | participant id name =>
    (t = .keyword "participant" ∨ t = .keyword "actor") ∧ us.head? = some (.identifier id) ∧
      name = displayName id us.tail
  | title text => t = .keyword "title" ∧ text = textOf (thisLine us)
  | description text => t = .keyword "description" ∧ text = textOf (thisLine us)
  | message source arrow target _ _ =>
    t = .identifier source ∧ ∃ behind, us = .arrow arrow :: .identifier target :: behind
  | dangling source => t = .identifier source
  | metadata data => t = .metadata data
  | flow entry => t = .flow entry

/-- Every statement is read where it starts. -/
theorem startsAt_of_next {s : Statement} {t : Token} {us rest : List Token}
    (h : next t us = .statement s rest) : s.StartsAt t us := by
  cases t with
  | keyword word =>
    rw [next, readKeyword] at h
    split at h
    · next hword =>
      rw [readParticipant.eq_def] at h
      split at h
      · cases h
        exact ⟨hword.imp (congrArg _) (congrArg _), rfl, rfl⟩
      · cases h
    split at h
    · next hword =>
      cases h
      exact ⟨congrArg _ hword, rfl⟩
    split at h
    · next hword =>
      cases h
      exact ⟨congrArg _ hword, rfl⟩
    · cases h
  | identifier source =>
    rw [next, readIdentifier.eq_def] at h
    split at h
    · cases h
      exact ⟨rfl, _, rfl⟩
    · cases h
      rfl
    · cases h
  | metadata data =>
    cases h
    rfl
  | flow entry =>
    cases h
    rfl
  | _ => cases h

/-- A message is read only where its source, its arrow and its target follow each other. -/
theorem of_next_eq_message {t : Token} {ts rest : List Token} {source arrow target text : String}
    {tags : List Tag} (h : next t ts = .statement (.message source arrow target text tags) rest) :
    ∃ behind, t :: ts = .identifier source :: .arrow arrow :: .identifier target :: behind := by
  obtain ⟨rfl, behind, rfl⟩ := startsAt_of_next h
  exact ⟨behind, rfl⟩

end Statement

namespace Script

/-- Reads tokens as statements, each with its place; `total` is the number of all tokens, of which
these are the last. -/
def placed (total : Nat) : List Token → List (Nat × Statement)
  | [] => []
  | t :: ts =>
    match _h : Statement.next t ts with
    | .statement s rest => (total - (ts.length + 1), s) :: placed total rest
    | .skip rest => placed total rest
    | .missingName _ => []
termination_by ts => ts.length
decreasing_by
  · have := Statement.length_rest_next_le t ts
    rw [_h] at this
    exact Nat.lt_succ_of_le this
  · have := Statement.length_rest_next_le t ts
    rw [_h] at this
    exact Nat.lt_succ_of_le this

@[simp] theorem placed_nil (total : Nat) : placed total [] = [] := by
  rw [placed]

/-- One reading at the front of the tokens. -/
theorem placed_cons (total : Nat) (t : Token) (ts : List Token) :
    placed total (t :: ts) =
      match Statement.next t ts with
      | .statement s rest => (total - (ts.length + 1), s) :: placed total rest
      | .skip rest => placed total rest
      | .missingName _ => [] := by
  rw [placed]
  split <;> simp_all

/-- The statements that have places are those of the script. -/
theorem map_snd_placed (total : Nat) (ts : List Token) :
    (placed total ts).map Prod.snd = (ofTokens ts).statements := by
  induction ts using ofTokens.induct with
  | case1 => simp
  | case2 t ts s rest hn ih =>
    rw [placed_cons, ofTokens_cons, hn]
    exact congrArg (s :: ·) ih
  | case3 t ts rest hn ih =>
    rw [placed_cons, ofTokens_cons, hn]
    exact ih
  | case4 t ts keyword hn => rw [placed_cons, ofTokens_cons, hn]; rfl

/-- The place of a message is the token of its source; arrow and target follow it. -/
theorem drop_of_mem_placed {us ts : List Token} (hs : ts <:+ us) {i : Nat}
    {source arrow target text : String} {tags : List Tag}
    (h : (i, .message source arrow target text tags) ∈ placed us.length ts) :
    ∃ behind, us.drop i = .identifier source :: .arrow arrow :: .identifier target :: behind := by
  induction ts using ofTokens.induct with
  | case1 => simp at h
  | case2 t ts s rest hn ih =>
    have hrest := Statement.suffix_of_next_statement hn
    rw [placed_cons, hn] at h
    rcases List.mem_cons.mp h with he | h
    · cases he
      obtain ⟨front, rfl⟩ := hs
      have hdrop : (front ++ t :: ts).drop ((front ++ t :: ts).length - (ts.length + 1)) =
          t :: ts := by
        simp
      rw [hdrop]
      exact Statement.of_next_eq_message hn
    · exact ih ((hrest.trans (List.suffix_cons t ts)).trans hs) h
  | case3 t ts rest hn ih =>
    have hrest := Statement.suffix_of_next_skip hn
    rw [placed_cons, hn] at h
    exact ih ((hrest.trans (List.suffix_cons t ts)).trans hs) h
  | case4 t ts keyword hn =>
    rw [placed_cons, hn] at h
    cases h

/-- A message that is read stands among the tokens: its source, its arrow and its target follow each
other, and its annotations are made of tags. -/
theorem exists_ends_of_mem_messages {ts : List Token} {m : Message}
    (hm : m ∈ (ofTokens ts).messages) :
    (∃ i arrow behind, ts.drop i =
      .identifier m.source :: .arrow arrow :: .identifier m.target :: behind) ∧
    ∃ tags, m.annotations = .ofList tags := by
  rw [messages, ← map_snd_placed ts.length] at hm
  obtain ⟨s, hs, hsm⟩ := List.mem_filterMap.mp hm
  obtain ⟨⟨i, s⟩, hp, rfl⟩ := List.mem_map.mp hs
  cases s with
  | message source arrow target text tags =>
    cases hsm
    obtain ⟨behind, hd⟩ := drop_of_mem_placed (List.suffix_refl ts) hp
    exact ⟨⟨i, arrow, behind, hd⟩, tags, rfl⟩
  | _ => cases hsm

/-- No statement stands before the first token that is read. -/
theorem le_of_mem_placed {total : Nat} {ts : List Token} {p : Nat × Statement}
    (h : p ∈ placed total ts) : total - ts.length ≤ p.1 := by
  induction ts using ofTokens.induct with
  | case1 => simp at h
  | case2 t ts s rest hn ih =>
    have hrest := (Statement.suffix_of_next_statement hn).length_le
    rw [placed_cons, hn] at h
    rw [List.length_cons]
    rcases List.mem_cons.mp h with rfl | h
    · exact Nat.le_refl _
    · have := ih h
      omega
  | case3 t ts rest hn ih =>
    have hrest := (Statement.suffix_of_next_skip hn).length_le
    rw [placed_cons, hn] at h
    have := ih h
    rw [List.length_cons]
    omega
  | case4 t ts keyword hn =>
    rw [placed_cons, hn] at h
    cases h

/-- Statements stand one after the other. -/
theorem pairwise_placed {total : Nat} {ts : List Token} (hl : ts.length ≤ total) :
    (placed total ts).Pairwise fun p q => p.1 < q.1 := by
  induction ts using ofTokens.induct with
  | case1 => simp
  | case2 t ts s rest hn ih =>
    have hrest := (Statement.suffix_of_next_statement hn).length_le
    rw [List.length_cons] at hl
    rw [placed_cons, hn]
    refine List.pairwise_cons.mpr ⟨fun q hq => ?_, ih (by omega)⟩
    have := le_of_mem_placed hq
    simp only
    omega
  | case3 t ts rest hn ih =>
    have hrest := (Statement.suffix_of_next_skip hn).length_le
    rw [List.length_cons] at hl
    rw [placed_cons, hn]
    exact ih (by omega)
  | case4 t ts keyword hn =>
    rw [placed_cons, hn]
    exact List.Pairwise.nil

/-- The statements of the lines behind a line end stand behind those of the first lines. -/
theorem placed_append_newline {total : Nat} {ts : List Token} (us : List Token)
    (h : (ofTokens ts).fault = none) :
    placed total (ts ++ .newline :: us) =
      placed (total - (us.length + 1)) ts ++ placed total us := by
  induction ts using ofTokens.induct with
  | case1 =>
    rw [List.nil_append, placed_cons, placed_nil]
    rfl
  | case2 t ts s rest hn ih =>
    rw [ofTokens_cons, hn] at h
    have hplace : total - ((ts ++ .newline :: us).length + 1) =
        total - (us.length + 1) - (ts.length + 1) := by
      rw [List.length_append, List.length_cons]
      omega
    rw [List.cons_append, placed_cons, Statement.next_append_newline, placed_cons, hn]
    simp only [Statement.Reading.followedBy, ih h, hplace, List.cons_append]
  | case3 t ts rest hn ih =>
    rw [ofTokens_cons, hn] at h
    rw [List.cons_append, placed_cons, Statement.next_append_newline, placed_cons, hn]
    exact ih h
  | case4 t ts keyword hn =>
    rw [ofTokens_cons, hn] at h
    cases h

/-- More tokens in front move every statement by their number. -/
theorem placed_add (k : Nat) {total : Nat} {ts : List Token} (hl : ts.length ≤ total) :
    placed (k + total) ts = (placed total ts).map fun p => (k + p.1, p.2) := by
  induction ts using ofTokens.induct with
  | case1 => simp
  | case2 t ts s rest hn ih =>
    have hrest := (Statement.suffix_of_next_statement hn).length_le
    rw [List.length_cons] at hl
    have hplace : k + total - (ts.length + 1) = k + (total - (ts.length + 1)) := by omega
    rw [placed_cons, placed_cons, hn]
    simp only [ih (Nat.le_trans hrest (by omega)), hplace, List.map_cons]
  | case3 t ts rest hn ih =>
    have hrest := (Statement.suffix_of_next_skip hn).length_le
    rw [List.length_cons] at hl
    rw [placed_cons, placed_cons, hn]
    exact ih (by omega)
  | case4 t ts keyword hn => rw [placed_cons, placed_cons, hn]; rfl

/-- The places of the messages, in order. -/
def messagePlaces (ts : List Token) : List Nat :=
  ((placed ts.length ts).filter (·.2.message?.isSome)).map Prod.fst

/-- Every message has a place. -/
theorem length_messagePlaces (ts : List Token) :
    (messagePlaces ts).length = (ofTokens ts).messages.length := by
  rw [messagePlaces, List.length_map, messages, List.length_filterMap_eq_countP,
    ← map_snd_placed ts.length, List.countP_map, List.countP_eq_length_filter]
  rfl

/-- The place of a message is one of a token. -/
theorem lt_of_mem_messagePlaces {ts : List Token} {i : Nat} (h : i ∈ messagePlaces ts) :
    i < ts.length := by
  obtain ⟨p, hp, rfl⟩ := List.mem_map.mp h
  obtain ⟨hp, hm⟩ := List.mem_filter.mp hp
  obtain ⟨i, s⟩ := p
  cases s with
  | message source arrow target text tags =>
    obtain ⟨behind, hd⟩ := drop_of_mem_placed (List.suffix_refl ts) hp
    by_contra hi
    rw [List.drop_eq_nil_of_le (Nat.not_lt.mp hi)] at hd
    cases hd
  | _ => cases hm

/-- The places of messages come in the order of the tokens. -/
theorem pairwise_messagePlaces (ts : List Token) : (messagePlaces ts).Pairwise (· < ·) :=
  List.pairwise_map.mpr ((pairwise_placed (Nat.le_refl _)).filter _)

/-- The messages of the lines behind a line end stand behind those of the first lines. -/
theorem messagePlaces_append_newline {ts : List Token} (us : List Token)
    (h : (ofTokens ts).fault = none) :
    messagePlaces (ts ++ .newline :: us) =
      messagePlaces ts ++ (messagePlaces us).map (ts.length + 1 + ·) := by
  have htotal : (ts ++ .newline :: us).length = ts.length + 1 + us.length := by
    rw [List.length_append, List.length_cons]
    omega
  have hfront : ts.length + 1 + us.length - (us.length + 1) = ts.length := by omega
  rw [messagePlaces, htotal, placed_append_newline us h, hfront, placed_add _ (Nat.le_refl _),
    List.filter_append, List.map_append, List.filter_map, List.map_map, messagePlaces,
    messagePlaces, List.map_map]
  rfl

end Script

end Lifeline
