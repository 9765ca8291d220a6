import Lifeline.Proofs.LineComposition
import Lifeline.Proofs.Script.MessageRuns

/-!
# What is read at a token

What is read at a token takes a number of the tokens behind it: a declaration or a
heading the rest of its line, a message its arrow, its target, its text and its
annotations. It is read from these tokens alone, whatever follows them, as long as
the first token that follows is the same or nothing follows at all.
-/

namespace Lifeline

open Text Statement

/-- The number of tokens behind `t` that are taken by what starts at `t`: the rest of the line of a
declaration or a heading, all but the source of a message, or an arrow that leads nowhere. -/
def Token.reach (t : Token) (behind : List Token) : Nat :=
  match t, behind with
  | .keyword word, ts =>
    if word ∈ ["participant", "actor", "title", "description"] then (thisLine ts).length else 0
  | .identifier _, .arrow _ :: .identifier _ :: ts =>
    2 + (if ts.head? = some .colon then 1 else 0) +
      ((afterColon ts).takeWhile isMessageText).length + (tagRun (afterColon ts)).length
  | .identifier _, .arrow _ :: _ => 1
  | _, _ => 0

/-- The list is empty or starts as the other one. -/
def StartsAs (more rest : List Token) : Prop := ∀ u ∈ more.head?, rest.head? = some u

namespace StartsAs

variable {more rest : List Token}

theorem refl (ts : List Token) : StartsAs ts ts := fun _ hu => hu

theorem of_cons (u : Token) (us vs : List Token) : StartsAs (u :: us) (u :: vs) := by
  rintro _ ⟨⟩
  rfl

/-- Behind a common front it does not matter what follows. -/
theorem append (h : StartsAs more rest) (front : List Token) :
    StartsAs (front ++ more) (front ++ rest) := by
  cases front with
  | nil => exact h
  | cons u front => exact of_cons u _ _

/-- The front of a list starts as the list. -/
theorem of_append (front rest : List Token) : StartsAs front (front ++ rest) := by
  cases front with
  | nil => simp [StartsAs]
  | cons u front => exact of_cons u _ _

/-- A run of tokens ends before everything that starts as what it ended before. -/
theorem run_append {p : Token → Bool} {ts : List Token} (h : StartsAs more (ts.dropWhile p)) :
    (ts.takeWhile p ++ more).takeWhile p = ts.takeWhile p ∧
      (ts.takeWhile p ++ more).dropWhile p = more := by
  have hrun : ∀ u ∈ ts.takeWhile p, p u = true := fun _ hu => List.mem_takeWhile_imp hu
  have hmore : ∀ u ∈ more.head?, p u = false := fun u hu => head?_dropWhile_eq_false (h u hu)
  exact ⟨takeWhile_append_eq hrun hmore, dropWhile_append_eq hrun hmore⟩

end StartsAs

namespace Statement

/-- The same reading with other tokens behind it. -/
def Reading.before (more : List Token) : Reading → Reading
  | statement s _ => statement s more
  | skip _ => skip more
  | missingName keyword => missingName keyword

/-- A name is missing exactly behind a participant keyword that no identifier follows. -/
theorem next_eq_missingName_iff {t : Token} {ts : List Token} {word : String} :
    next t ts = .missingName word ↔ t = .keyword word ∧ (word = "participant" ∨ word = "actor") ∧
      ∀ name, ts.head? ≠ some (.identifier name) := by
  constructor
  · intro h
    cases t with
    | keyword w =>
      rw [next, readKeyword] at h
      split at h
      · next hw =>
        rw [readParticipant.eq_def] at h
        split at h
        · cases h
        · next hts =>
          cases h
          refine ⟨rfl, hw, fun name hname => ?_⟩
          obtain ⟨us, rfl⟩ := List.head?_eq_some_iff.mp hname
          exact hts name us rfl
      split at h
      · cases h
      split at h <;> cases h
    | identifier source =>
      rw [next, readIdentifier.eq_def] at h
      split at h <;> cases h
    | _ => cases h
  · rintro ⟨rfl, hw, hts⟩
    rw [next, readKeyword, if_pos hw, readParticipant.eq_def]
    split
    · next id us => exact absurd rfl (hts id)
    · rfl

/-- The reading takes the first `n` tokens, and it is the same before everything that starts as
the tokens behind them. -/
def TakesFront (read : List Token → Reading) (ts : List Token) (n : Nat) : Prop :=
  ∃ front, front.length = n ∧ ts = front ++ (read ts).rest ∧
    ∀ more, StartsAs more (read ts).rest → read (front ++ more) = (read ts).before more

variable {ts : List Token}

private theorem displayName_line (id : String) {more : List Token}
    (h : StartsAs more (afterLine ts)) :
    displayName id (thisLine ts ++ more) = displayName id ts := by
  have hline {vs : List Token} (hv : StartsAs vs (afterLine ts)) :
      displayName id (thisLine ts ++ vs) = displayName id (thisLine ts) := by
    cases vs with
    | nil => rw [List.append_nil]
    | cons v vs =>
      have hnewline : (!v.isNewline) = false :=
        head?_dropWhile_eq_false (p := fun u : Token => !u.isNewline) (hv v rfl)
      cases v with
      | newline => exact displayName_append_newline (thisLine ts) vs id
      | _ => cases hnewline
  have hall : displayName id ts = displayName id (thisLine ts) := by
    rw [← hline (.refl _), thisLine, afterLine, List.takeWhile_append_dropWhile]
  rw [hline h, hall]

/-- A declaration takes the rest of its line. -/
theorem takesFront_readParticipant (word id : String) (ts : List Token) :
    TakesFront (readParticipant word) (.identifier id :: ts)
      (thisLine (.identifier id :: ts)).length := by
  refine ⟨.identifier id :: thisLine ts, rfl, ?_, fun more h => ?_⟩
  · exact congrArg (_ :: ·) List.takeWhile_append_dropWhile.symm
  · rw [List.cons_append, readParticipant, displayName_line id h]
    exact congrArg _ h.run_append.2

/-- A heading takes the rest of its line. -/
theorem takesFront_heading (heading : String → Statement) (ts : List Token) :
    TakesFront (fun us => .statement (heading (textOf (thisLine us))) (afterLine us)) ts
      (thisLine ts).length := by
  refine ⟨thisLine ts, rfl, List.takeWhile_append_dropWhile.symm, fun more h => ?_⟩
  obtain ⟨hline, hafter⟩ : thisLine (thisLine ts ++ more) = thisLine ts ∧
      afterLine (thisLine ts ++ more) = more := h.run_append
  simp only [hline, hafter, Reading.before]

private theorem afterColon_eq_self {more : List Token} (h : more.head? ≠ some .colon) :
    afterColon more = more := by
  cases more with
  | nil => rfl
  | cons u more =>
    cases u with
    | colon => exact absurd rfl h
    | _ => rfl

/-- Text and annotations are taken up to where neither goes on. -/
theorem text_tags_append {more : List Token} (h : StartsAs more (behindTags ts)) :
    (ts.takeWhile isMessageText ++ ((tagRun ts).map Token.tag ++ more)).takeWhile isMessageText =
        ts.takeWhile isMessageText ∧
      tagRun (ts.takeWhile isMessageText ++ ((tagRun ts).map Token.tag ++ more)) = tagRun ts ∧
      behindTags (ts.takeWhile isMessageText ++ ((tagRun ts).map Token.tag ++ more)) = more := by
  have htags : (tagRun ts).map Token.tag =
      (ts.dropWhile isMessageText).takeWhile fun t => t.tag?.isSome := map_tag_filterMap _
  have hbehind : (tagRun ts).map Token.tag ++ behindTags ts = ts.dropWhile isMessageText := by
    rw [htags, behindTags, List.takeWhile_append_dropWhile]
  have hstart := h.append ((tagRun ts).map Token.tag)
  rw [hbehind] at hstart
  obtain ⟨htext, hstop⟩ := hstart.run_append
  obtain ⟨hrun, hend⟩ := StartsAs.run_append h
  refine ⟨htext, ?_, ?_⟩
  · rw [tagRun, hstop, htags, hrun]
    rfl
  · rw [behindTags, hstop, htags, hend]

/-- A message takes its arrow, its target, its text and its annotations. -/
theorem takesFront_message (source arrow target : String) (ts : List Token) :
    TakesFront (readIdentifier source) (.arrow arrow :: .identifier target :: ts)
      (2 + (if ts.head? = some .colon then 1 else 0) +
        ((afterColon ts).takeWhile isMessageText).length + (tagRun (afterColon ts)).length) := by
  have hall := text_append_tagRun (afterColon ts)
  obtain ⟨colon, hcolon, hlength, hafter⟩ : ∃ colon, ts = colon ++ afterColon ts ∧
      colon.length = (if ts.head? = some .colon then 1 else 0) ∧
      ∀ more, StartsAs more (afterColon ts) → afterColon (colon ++ more) = more := by
    by_cases hc : ts.head? = some .colon
    · obtain ⟨us, rfl⟩ := List.head?_eq_some_iff.mp hc
      exact ⟨[.colon], rfl, rfl, fun more _ => rfl⟩
    · refine ⟨[], (afterColon_eq_self hc).symm, by rw [if_neg hc]; rfl, fun more hm => ?_⟩
      rw [afterColon_eq_self hc] at hm
      exact afterColon_eq_self fun hmore => hc (hm _ hmore)
  refine ⟨.arrow arrow :: .identifier target :: (colon ++ ((afterColon ts).takeWhile isMessageText
    ++ (tagRun (afterColon ts)).map Token.tag)), ?_, ?_, fun more h => ?_⟩
  · simp only [List.length_cons, List.length_append, List.length_map, hlength]
    omega
  · have hrest : (readIdentifier source (.arrow arrow :: .identifier target :: ts)).rest =
        behindTags (afterColon ts) := rfl
    rw [hrest, List.cons_append, List.cons_append, List.append_assoc, List.append_assoc, hall,
      ← hcolon]
  · have h : StartsAs more (behindTags (afterColon ts)) := h
    obtain ⟨htext, htags, hbehind⟩ := text_tags_append h
    have hstart : StartsAs ((afterColon ts).takeWhile isMessageText ++
        ((tagRun (afterColon ts)).map Token.tag ++ more)) (afterColon ts) := by
      have := (h.append ((tagRun (afterColon ts)).map Token.tag)).append
        ((afterColon ts).takeWhile isMessageText)
      rwa [hall] at this
    have hread (us : List Token) :
        readIdentifier source (.arrow arrow :: .identifier target :: us) =
          .statement (.message source arrow target
            (textOf ((afterColon us).takeWhile isMessageText)) (tagRun (afterColon us)))
            (behindTags (afterColon us)) := rfl
    rw [List.cons_append, List.cons_append, List.append_assoc, List.append_assoc, hread, hread,
      hafter _ hstart, htext, htags, hbehind]
    rfl

/-- An arrow that leads nowhere is taken by itself. -/
theorem takesFront_dangling (source arrow : String) {ts : List Token}
    (h : ∀ name, ts.head? ≠ some (.identifier name)) :
    TakesFront (readIdentifier source) (.arrow arrow :: ts) 1 := by
  have hread {us : List Token} (hu : StartsAs us ts) :
      readIdentifier source (.arrow arrow :: us) = .statement (.dangling source) us := by
    rw [readIdentifier.eq_def]
    split
    · next he =>
      cases he
      exact absurd (hu _ rfl) (h _)
    · next he =>
      cases he
      rfl
    · next hne => exact absurd rfl (hne _ _)
  have hself : readIdentifier source (.arrow arrow :: ts) = .statement (.dangling source) ts :=
    hread (.refl ts)
  rw [TakesFront, hself]
  exact ⟨[.arrow arrow], rfl, rfl, fun more hm => hread hm⟩

/-- An identifier that no arrow follows takes nothing. -/
theorem takesFront_identifier (source : String) {ts : List Token}
    (h : ∀ arrow, ts.head? ≠ some (.arrow arrow)) : TakesFront (readIdentifier source) ts 0 := by
  have hread {us : List Token} (hu : StartsAs us ts) : readIdentifier source us = .skip us := by
    rw [readIdentifier.eq_def]
    split
    · exact absurd (hu _ rfl) (h _)
    · exact absurd (hu _ rfl) (h _)
    · rfl
  have hself : readIdentifier source ts = .skip ts := hread (.refl ts)
  rw [TakesFront, hself]
  exact ⟨[], rfl, rfl, fun more hm => hread hm⟩

theorem takesFront_nothing {read : List Token → Reading} (hrest : (read ts).rest = ts)
    (h : ∀ us, read us = (read ts).before us) : TakesFront read ts 0 :=
  ⟨[], rfl, hrest.symm, fun more _ => h more⟩

/-- What is read at a reserved word takes the rest of the line or nothing. -/
theorem takesFront_readKeyword (word : String) (h : ∀ w, readKeyword word ts ≠ .missingName w) :
    TakesFront (readKeyword word) ts ((Token.keyword word).reach ts) := by
  by_cases hname : word = "participant" ∨ word = "actor"
  · have hread : readKeyword word = readParticipant word := funext fun us => if_pos hname
    have hreach : (Token.keyword word).reach ts = (thisLine ts).length := by
      rcases hname with rfl | rfl <;> rfl
    rw [hread] at h ⊢
    rw [hreach]
    cases ts with
    | nil => exact absurd rfl (h word)
    | cons u us =>
      cases u with
      | identifier id => exact takesFront_readParticipant word id us
      | _ => exact absurd rfl (h word)
  by_cases htitle : word = "title"
  · subst htitle
    exact takesFront_heading .title ts
  by_cases hdescription : word = "description"
  · subst hdescription
    exact takesFront_heading .description ts
  · have hread (us : List Token) : readKeyword word us = .skip us := by
      rw [readKeyword, if_neg hname, if_neg htitle, if_neg hdescription]
    have hreach : (Token.keyword word).reach ts = 0 := by
      obtain ⟨hparticipant, hactor⟩ := not_or.mp hname
      simp [Token.reach, hparticipant, hactor, htitle, hdescription]
    rw [hreach]
    exact takesFront_nothing (by rw [hread]; rfl) fun us => by rw [hread, hread]; rfl

/-- What is read at a token takes as many tokens behind it as the token reaches, whatever follows
them, unless a name is missing. -/
theorem takesFront_next (t : Token) (ts : List Token) (h : ∀ word, next t ts ≠ .missingName word) :
    TakesFront (next t) ts (t.reach ts) := by
  cases t with
  | keyword word => exact takesFront_readKeyword word h
  | identifier source =>
    cases ts with
    | nil => exact takesFront_identifier source (by simp)
    | cons u us =>
      cases u with
      | arrow arrow =>
        cases us with
        | nil => exact takesFront_dangling source arrow (by simp)
        | cons v vs =>
          cases v with
          | identifier target => exact takesFront_message source arrow target vs
          | _ => exact takesFront_dangling source arrow (by simp)
      | _ => exact takesFront_identifier source (by simp)
  | _ => exact takesFront_nothing rfl fun _ => rfl

/-- What starts at `t` is read from `front`, whatever follows that starts as `rest`. -/
structure Reads (t : Token) (front rest : List Token) : Prop where
  ne_missingName : ∀ word, next t (front ++ rest) ≠ .missingName word
  length_front : front.length = t.reach (front ++ rest)
  before : ∀ more, StartsAs more rest →
    next t (front ++ more) = (next t (front ++ rest)).before more

/-- Unless a name is missing, something is read from a front of the tokens. -/
theorem exists_reads {t : Token} {ts : List Token} (h : ∀ word, next t ts ≠ .missingName word) :
    ∃ front rest, ts = front ++ rest ∧ Reads t front rest := by
  obtain ⟨front, hlength, hts, hmore⟩ := takesFront_next t ts h
  refine ⟨front, (next t ts).rest, hts, ?_, ?_, ?_⟩
  · rwa [← hts]
  · rwa [← hts]
  · rwa [← hts]

end Statement

end Lifeline
