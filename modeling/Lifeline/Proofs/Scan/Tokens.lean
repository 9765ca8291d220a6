import Lifeline.Proofs.Scan.Written
import Mathlib.Data.List.Forall2

/-!
# Tokens and the lexemes they come from

Tokens correspond to lexemes one by one. So a token says where it comes from: an
identifier is a name, because the word that it comes from has been scanned.
-/

namespace Lifeline

open Text

/-- What a result is made into comes from a result. -/
theorem of_map_eq_ok {α β ε : Type} {f : α → β} {x : Except ε α} {b : β} (h : x.map f = .ok b) :
    ∃ a, x = .ok a ∧ f a = b := by
  cases x with
  | error e => cases h
  | ok a =>
    cases h
    exact ⟨a, rfl, rfl⟩

namespace Source

variable {s : List Char} {ts : List Token}

/-- What a list is read as is read from its elements one by one. -/
theorem forall₂_of_mapM {α β : Type} {f : α → Except Failure β} {xs : List α} {ys : List β}
    (h : xs.mapM f = .ok ys) : List.Forall₂ (fun x y => f x = .ok y) xs ys := by
  induction xs generalizing ys with
  | nil =>
    cases h
    exact List.Forall₂.nil
  | cons x xs ih =>
    rw [List.mapM_cons] at h
    cases hx : f x with
    | error e => rw [hx] at h; cases h
    | ok y =>
      cases hxs : xs.mapM f with
      | error e => rw [hx, hxs] at h; cases h
      | ok zs =>
        rw [hx, hxs] at h
        cases h
        exact List.Forall₂.cons hx (ih hxs)

theorem length_tokens (h : tokens s = .ok ts) : (lexemes s).length = ts.length :=
  (forall₂_of_mapM h).length_eq

/-- Every token comes from a lexeme. -/
theorem exists_lexeme_of_mem (h : tokens s = .ok ts) {t : Token} (ht : t ∈ ts) :
    ∃ l ∈ lexemes s, l.token = .ok t := by
  have hall := forall₂_of_mapM h
  rw [List.forall₂_iff_get] at hall
  obtain ⟨i, hi, rfl⟩ := List.getElem_of_mem ht
  have hl : i < (lexemes s).length := by omega
  exact ⟨_, List.getElem_mem hl, hall.2 i hl hi⟩

/-- A scanned word starts like a word and has the letters of one. -/
theorem word_of_scan {letters rest : List Char} (h : Lexeme.scan s = some (.word letters, rest)) :
    (∃ c ∈ letters.head?, isWordStart c = true) ∧ ∀ c ∈ letters, isWordChar c = true := by
  cases s with
  | nil => simp [Lexeme.scan] at h
  | cons c s =>
    rcases Lexeme.scan_cases c with rfl | rfl | rfl | rfl | rfl | hw | hq
    · cases h
    · cases h
    · cases h
    · rw [Lexeme.scan_percent] at h
      obtain ⟨r, -, hd⟩ := Option.map_eq_some_iff.mp h
      rw [Lexeme.scanDirective] at hd
      split at hd <;> cases hd
    · rw [Lexeme.scan_dash] at h
      obtain ⟨p, -, he⟩ := Option.map_eq_some_iff.mp h
      cases he
    · rw [Lexeme.scan_of_isWordStart hw] at h
      cases h
      have hc := isWordChar_of_isWordStart hw
      exact ⟨⟨c, by simp [hc], hw⟩, fun d hd => List.mem_takeWhile_imp hd⟩
    · rw [hq] at h
      obtain ⟨quote, -, he⟩ := Option.map_eq_some_iff.mp h
      cases he

/-- So are all the words of a source. -/
theorem word_of_mem_lexemes {letters : List Char} (h : .word letters ∈ lexemes s) :
    (∃ c ∈ letters.head?, isWordStart c = true) ∧ ∀ c ∈ letters, isWordChar c = true := by
  induction s using pieces.induct with
  | case1 => simp at h
  | case2 c s l rest hs ih =>
    rw [lexemes_of_scan hs] at h
    rcases List.mem_cons.mp h with rfl | h
    · exact word_of_scan hs
    · exact ih h
  | case3 c s hs ih =>
    rw [lexemes_of_scan_none hs] at h
    exact ih h

/-- Only a word is made an identifier, and only if it has no meaning of its own. -/
theorem word_of_token {l : Lexeme} {name : String} (h : l.token = .ok (.identifier name)) :
    l = .word name.toList ∧ name ∉ Token.reserved ∧ name.toList.map Char.toLower ≠ ['a', 's'] := by
  have hdirective (text : List Char) :
      (Directive.read text).map Token.ofDirective ≠ .ok (.identifier name) := by
    intro hd
    obtain ⟨d, -, he⟩ := of_map_eq_ok hd
    cases d <;> cases he
  cases l with
  | word letters =>
    have hword := Except.ok.inj h
    rw [Token.ofWord] at hword
    split at hword
    · cases hword
    · next hr =>
      split at hword
      · cases hword
      · next has =>
        cases hword
        rw [String.toList_ofList] at has ⊢
        exact ⟨rfl, by simpa using hr, has⟩
  | lineDirective rest => exact absurd h (hdirective _)
  | blockDirective body => exact absurd h (hdirective _)
  | _ => cases h

/-- Only an arrow is made an arrow. -/
theorem arrow_of_token {l : Lexeme} {literal : String} (h : l.token = .ok (.arrow literal)) :
    ∃ a, l = .arrow a := by
  cases l with
  | arrow a => exact ⟨a, rfl⟩
  | word letters =>
    have hword := Except.ok.inj h
    rw [Token.ofWord] at hword
    split at hword
    · cases hword
    · split at hword <;> cases hword
  | lineDirective _ | blockDirective _ =>
    obtain ⟨d, -, he⟩ := of_map_eq_ok h
    cases d <;> cases he
  | _ => cases h

/-- The identifiers of a source are names. -/
theorem isName_of_mem (h : tokens s = .ok ts) {name : String} (ht : .identifier name ∈ ts) :
    IsName name := by
  obtain ⟨l, hl, he⟩ := exists_lexeme_of_mem h ht
  obtain ⟨rfl, hreserved, has⟩ := word_of_token he
  obtain ⟨hstart, hletters⟩ := word_of_mem_lexemes hl
  exact ⟨hstart, hletters, hreserved, has⟩

end Source

end Lifeline
