import Lifeline.Proofs.Text.Continuation
import Lifeline.Diagram
import Lifeline.Script

/-!
# Statements end with their line

No statement is read beyond the end of its line, so a list of tokens can be read
up to a line end before it is known what follows. The statements of two lists of
tokens with a line end between them are those of the first list and then those of
the second, unless a fault in the first list stops the reading.
-/

namespace Lifeline

open Text

namespace Statement

/-- The same reading, with more tokens behind it. -/
def Reading.followedBy (more : List Token) : Reading → Reading
  | statement s rest => statement s (rest ++ more)
  | skip rest => skip (rest ++ more)
  | missingName keyword => missingName keyword

variable (ts us : List Token)

theorem takeWhile_append_newline {p : Token → Bool} (hp : p .newline = false) :
    (ts ++ .newline :: us).takeWhile p = ts.takeWhile p :=
  takeWhile_append_of_head fun _ ht => Option.some.inj ht ▸ hp

/-- The tokens behind a run that holds no line end are followed by the further lines. -/
theorem dropWhile_append_newline {p : Token → Bool} (hp : p .newline = false) :
    (ts ++ .newline :: us).dropWhile p = ts.dropWhile p ++ .newline :: us :=
  dropWhile_append_of_head fun _ ht => Option.some.inj ht ▸ hp

/-- A display name is looked for on the line of its participant only. -/
theorem displayName_append_newline (id : String) :
    displayName id (ts ++ .newline :: us) = displayName id ts := by
  rcases ts with _ | ⟨t, _ | ⟨t', ts⟩⟩
  · rfl
  · cases t <;> rfl
  · cases t <;> cases t' <;> rfl

private theorem afterColon_append_newline :
    afterColon (ts ++ .newline :: us) = afterColon ts ++ .newline :: us := by
  cases ts with
  | nil => rfl
  | cons t ts => cases t <;> rfl

/-- A participant is declared on one line. -/
theorem readParticipant_append_newline (keyword : String) :
    readParticipant keyword (ts ++ .newline :: us) =
      (readParticipant keyword ts).followedBy (.newline :: us) := by
  cases ts with
  | nil => rfl
  | cons t ts =>
    cases t with
    | identifier id =>
      simp only [List.cons_append, readParticipant, displayName_append_newline, afterLine,
        Reading.followedBy, dropWhile_append_newline ts us (p := (!·.isNewline)) rfl]
    | _ => rfl

/-- A message stands on one line. -/
theorem readMessage_append_newline (source arrow target : String) :
    readMessage source arrow target (ts ++ .newline :: us) =
      (readMessage source arrow target ts).followedBy (.newline :: us) := by
  simp only [readMessage, afterColon_append_newline, Reading.followedBy,
    takeWhile_append_newline _ _ (p := isMessageText) rfl,
    dropWhile_append_newline _ _ (p := isMessageText) rfl,
    takeWhile_append_newline _ _ (p := (·.tag?.isSome)) rfl,
    dropWhile_append_newline _ _ (p := (·.tag?.isSome)) rfl]

/-- Behind an identifier nothing is read beyond the line. -/
theorem readIdentifier_append_newline (source : String) :
    readIdentifier source (ts ++ .newline :: us) =
      (readIdentifier source ts).followedBy (.newline :: us) := by
  cases ts with
  | nil => rfl
  | cons t ts =>
    cases t with
    | arrow literal =>
      cases ts with
      | nil => rfl
      | cons t ts =>
        cases t with
        | identifier target =>
          exact readMessage_append_newline ts us source literal target
        | _ => rfl
    | _ => rfl

/-- Behind a reserved word nothing is read beyond the line. -/
theorem readKeyword_append_newline (word : String) :
    readKeyword word (ts ++ .newline :: us) =
      (readKeyword word ts).followedBy (.newline :: us) := by
  have ht := takeWhile_append_newline ts us (p := (!·.isNewline)) rfl
  have hd := dropWhile_append_newline ts us (p := (!·.isNewline)) rfl
  rw [readKeyword, readKeyword, thisLine, afterLine, ht, hd, readParticipant_append_newline]
  split
  · rfl
  split
  · rfl
  split <;> rfl

/-- One reading is the same before further lines. -/
theorem next_append_newline (t : Token) :
    next t (ts ++ .newline :: us) = (next t ts).followedBy (.newline :: us) := by
  cases t with
  | keyword word => exact readKeyword_append_newline ts us word
  | identifier source => exact readIdentifier_append_newline ts us source
  | _ => rfl

end Statement

namespace Script

@[simp] theorem ofTokens_newline (us : List Token) : ofTokens (.newline :: us) = ofTokens us := by
  rw [ofTokens_cons]
  rfl

/-- Tokens that are read without a fault are read by themselves, whatever lines follow. -/
theorem ofTokens_append_newline {ts : List Token} (us : List Token)
    (h : (ofTokens ts).fault = none) :
    ofTokens (ts ++ .newline :: us) =
      ⟨(ofTokens ts).statements ++ (ofTokens us).statements, (ofTokens us).fault⟩ := by
  induction ts using ofTokens.induct with
  | case1 => simp
  | case2 t ts s rest hn ih =>
    rw [ofTokens_cons, hn] at h ⊢
    rw [List.cons_append, ofTokens_cons, Statement.next_append_newline, hn]
    simp only [Statement.Reading.followedBy, ih h, prepend, List.cons_append]
  | case3 t ts rest hn ih =>
    rw [ofTokens_cons, hn] at h ⊢
    rw [List.cons_append, ofTokens_cons, Statement.next_append_newline, hn]
    exact ih h
  | case4 t ts keyword hn =>
    rw [ofTokens_cons, hn] at h
    cases h

/-- A fault in the first lines is a fault of all lines. -/
theorem fault_of_append_newline {ts : List Token} {us : List Token}
    (h : (ofTokens (ts ++ .newline :: us)).fault = none) : (ofTokens ts).fault = none := by
  induction ts using ofTokens.induct with
  | case1 => simp
  | case2 t ts s rest hn ih =>
    rw [List.cons_append, ofTokens_cons, Statement.next_append_newline, hn] at h
    rw [ofTokens_cons, hn]
    exact ih h
  | case3 t ts rest hn ih =>
    rw [List.cons_append, ofTokens_cons, Statement.next_append_newline, hn] at h
    rw [ofTokens_cons, hn]
    exact ih h
  | case4 t ts keyword hn =>
    rw [List.cons_append, ofTokens_cons, Statement.next_append_newline, hn] at h
    cases h

/-- The messages of a script, in order. -/
def messages (p : Script) : List Message := p.statements.filterMap Statement.message?

end Script

end Lifeline
