import Lifeline.Proofs.Scan.Marks
import Lifeline.Proofs.Text.Lines
import Lifeline.Proofs.Text.Trim

/-!
# How scanned directives are read

A directive in braces is read from the body between its brackets; its object, if it
has one, ends the body but for blanks. A directive that runs to the end of its line
holds no object, so nothing in it can fail.
-/

namespace Lifeline

open Text

namespace Text

private theorem trim_append_append {a t b : List Char} (ha : ∀ c ∈ a, isBlank c = true)
    (ht : Trimmed t) (hne : t ≠ []) (hb : ∀ c ∈ b, isBlank c = true) : trim (a ++ t ++ b) = t := by
  have hstop : ∀ c ∈ t.reverse.head?, isBlank c = false := by
    rw [List.head?_reverse]
    exact ht.stop
  rw [List.append_assoc, trim_append_of_blank ha, trim, ht.trimStart_append hne, trimEnd,
    List.reverse_append, List.dropWhile_append_of_pos fun c hc => hb c (List.mem_reverse.mp hc),
    dropWhile_eq_self_of_head hstop, List.reverse_reverse]

end Text

namespace Directive

variable {body object : List Char}

/-- The first mark that closes a directive is the one behind a body without it: no part of the mark
at the end of the body goes on with the mark. -/
theorem cut_terminator (h : ¬terminator <:+: body) :
    cut terminator (body ++ terminator) = some (body, []) := by
  induction body with
  | nil => rfl
  | cons c s ih =>
    rw [List.infix_cons_iff, not_or] at h
    have hp : ¬terminator.isPrefixOf (c :: (s ++ terminator)) = true := by
      rw [List.isPrefixOf_iff_prefix]
      rintro ⟨t, ht⟩
      obtain ⟨rfl, hs⟩ := List.cons.inj ht
      clear ht
      cases s with
      | nil => cases hs
      | cons x s =>
        obtain ⟨rfl, hs'⟩ := List.cons.inj hs
        clear hs
        cases s with
        | nil => cases hs'
        | cons y s =>
          obtain ⟨rfl, -⟩ := List.cons.inj hs'
          exact h.1 ⟨s, rfl⟩
    rw [List.cons_append, cut, if_neg hp, ih h.2]
    rfl

/-- The body of a metadata directive is `init`, a colon and an object in braces; blanks may stand
around each of them. -/
def HoldsObject (body object : List Char) : Prop :=
  ∃ a b c d, (∀ x ∈ a ++ b ++ c ++ d, isBlank x = true) ∧
    body = a ++ ['i', 'n', 'i', 't'] ++ b ++ [':'] ++ c ++ object ++ d ∧
      object.head? = some '\x7b' ∧ object.getLast? = some '\x7d'

/-- A body has exactly the object that it holds. -/
theorem objectText?_eq_some_iff : objectText? body = some object ↔ HoldsObject body object := by
  constructor
  · intro h
    obtain ⟨s, hs, h⟩ := Option.bind_eq_some_iff.mp h
    obtain ⟨t, ht, h⟩ := Option.bind_eq_some_iff.mp h
    obtain ⟨rfl, hfirst, hlast⟩ :
        object = trim t ∧ (trim t).head? = some '\x7b' ∧ (trim t).getLast? = some '\x7d' := by
      dsimp only at h
      split at h
      · next hbraces => exact ⟨(Option.some.inj h).symm, hbraces⟩
      · cases h
    obtain ⟨blanks, hblanks, hb⟩ := trimEnd_append (trimStart t)
    refine ⟨indentation body, indentation s, indentation t, blanks, fun x hx => ?_, ?_, hfirst,
      hlast⟩
    · simp only [List.mem_append] at hx
      rcases hx with ((hx | hx) | hx) | hx
      · exact List.mem_takeWhile_imp hx
      · exact List.mem_takeWhile_imp hx
      · exact List.mem_takeWhile_imp hx
      · exact hb x hx
    · rw [List.append_assoc, trim, hblanks, List.append_assoc _ (indentation t),
        indentation_append_trimStart, List.append_assoc _ [':'], ← after?_eq_some_iff.mp ht,
        List.append_assoc _ (indentation s), indentation_append_trimStart, List.append_assoc,
        ← after?_eq_some_iff.mp hs, indentation_append_trimStart]
  · rintro ⟨a, b, c, d, hblank, rfl, hfirst, hlast⟩
    simp only [List.mem_append, or_imp, forall_and] at hblank
    obtain ⟨⟨⟨ha, hb⟩, hc⟩, hd⟩ := hblank
    have htrimmed : Trimmed object := by
      refine ⟨fun x hx => ?_, fun x hx => ?_⟩
      · rw [hfirst] at hx
        cases hx
        rfl
      · rw [hlast] at hx
        cases hx
        rfl
    have hne : object ≠ [] := by
      rintro rfl
      cases hfirst
    have hinit (s : List Char) : trimStart (a ++ (['i', 'n', 'i', 't'] ++ s)) =
        ['i', 'n', 'i', 't'] ++ s := List.dropWhile_append_of_pos ha
    have hcolon (s : List Char) : trimStart (b ++ ([':'] ++ s)) = [':'] ++ s :=
      List.dropWhile_append_of_pos hb
    simp only [objectText?, List.append_assoc, hinit, hcolon, after?_eq_some_iff.mpr rfl,
      Option.bind_eq_bind, Option.bind_some]
    rw [← List.append_assoc c, trim_append_append hc htrimmed hne hd]
    exact if_pos ⟨hfirst, hlast⟩

/-- The object behind `init` and a colon is found between blanks. -/
theorem objectText?_init {a b : List Char} (ha : ∀ c ∈ a, isBlank c = true)
    (hb : ∀ c ∈ b, isBlank c = true) (hfirst : object.head? = some '\x7b')
    (hlast : object.getLast? = some '\x7d') :
    objectText? (['i', 'n', 'i', 't', ':', ' '] ++ (a ++ object ++ b)) = some object := by
  refine objectText?_eq_some_iff.mpr ⟨[], [], ' ' :: a, b, fun x hx => ?_, by simp, hfirst, hlast⟩
  have hx : x = ' ' ∨ x ∈ a ∨ x ∈ b := by simpa using hx
  rcases hx with rfl | hx | hx
  · rfl
  · exact ha x hx
  · exact hb x hx

/-- A body that ends with neither a brace nor a blank has no object. -/
theorem objectText?_of_getLast {c : Char} (h : body.getLast? = some c) (hc : c ≠ '\x7d')
    (hb : isBlank c = false) : objectText? body = none := by
  cases ho : objectText? body with
  | none => rfl
  | some object =>
    obtain ⟨a, b, e, blanks, hblanks, rfl, -, hlast⟩ := objectText?_eq_some_iff.mp ho
    rw [List.getLast?_append, List.getLast?_append, hlast] at h
    cases hl : blanks.getLast? with
    | none =>
      rw [hl] at h
      exact absurd (Option.some.inj h).symm hc
    | some d =>
      rw [hl] at h
      obtain rfl := Option.some.inj h
      have hblank := hblanks d (List.mem_append_right _ (List.mem_of_getLast? hl))
      exact absurd hblank (by simp [hb])

/-- A directive in braces is read from its body. -/
theorem read_blockDirective (body : List Char) :
    read (Lexeme.blockDirective body).text =
      match objectText? body with
      | some object => readObject body object
      | none => .ok (.comment (String.ofList body) (some .noObject)) := by
  have hbody : ((Lexeme.blockDirective body).text.drop 3).take
      ((Lexeme.blockDirective body).text.length - 6) = body := by
    simp [Lexeme.text, terminator]
  have hterminator : terminator.isSuffixOf (Lexeme.blockDirective body).text = true := by
    rw [List.isSuffixOf_iff_suffix]
    exact ⟨'%' :: '%' :: '\x7b' :: body, by simp [Lexeme.text]⟩
  have hlength : ¬(Lexeme.blockDirective body).text.length < 6 := by
    simp [Lexeme.text, terminator]
  have hclosed : ((Lexeme.blockDirective body).text.length < 6 ||
      !terminator.isSuffixOf (Lexeme.blockDirective body).text) = false := by
    rw [hterminator, decide_eq_false hlength]
    rfl
  have hprefix : ['%', '%', '\x7b'].isPrefixOf (Lexeme.blockDirective body).text = true := rfl
  rw [read, if_pos hprefix, readMetadata, hclosed, hbody]
  rfl

/-- A directive in braces that has been left open is a comment. -/
theorem read_of_open {u rest body : List Char}
    (h : Lexeme.scanDirective u = (.lineDirective ('\x7b' :: body), rest)) :
    read (Lexeme.lineDirective ('\x7b' :: body)).text =
      .ok (.comment (commentText (Lexeme.lineDirective ('\x7b' :: body)).text)
        (some .noTerminator)) := by
  have hopen := Lexeme.not_infix_of_scanDirective h
  have hterminator :
      terminator.isSuffixOf (Lexeme.lineDirective ('\x7b' :: body)).text = false := by
    rw [Bool.eq_false_iff, Ne, List.isSuffixOf_iff_suffix, Lexeme.text, List.suffix_cons_iff,
      List.suffix_cons_iff, List.suffix_cons_iff]
    rintro (he | he | he | hs)
    · cases he
    · cases he
    · cases he
    · exact hopen hs.isInfix
  have hprefix :
      ['%', '%', '\x7b'].isPrefixOf (Lexeme.lineDirective ('\x7b' :: body)).text = true := rfl
  rw [read, if_pos hprefix, readMetadata, hterminator, Bool.not_false, Bool.or_true, if_pos rfl]

/-- A directive that runs to the end of its line is read, whatever it holds. -/
theorem read_lineDirective {u rest line : List Char}
    (h : Lexeme.scanDirective u = (.lineDirective line, rest)) :
    ∃ d, read (Lexeme.lineDirective line).text = .ok d := by
  by_cases hp : ['%', '%', '\x7b'].isPrefixOf (Lexeme.lineDirective line).text = true
  · obtain ⟨body, hbody⟩ := List.isPrefixOf_iff_prefix.mp hp
    obtain rfl : '\x7b' :: body = line := by simpa [Lexeme.text] using hbody
    exact ⟨_, read_of_open h⟩
  · rw [read, if_neg hp]
    split
    · exact ⟨_, rfl⟩
    · exact ⟨_, rfl⟩

end Directive

/-- A directive in braces is scanned whole if its body does not hold the mark that closes it. -/
theorem Lexeme.scan_blockDirective {body : List Char} (h : ¬Directive.terminator <:+: body) :
    scan (blockDirective body).text = some (blockDirective body, []) := by
  have hscan : scan (blockDirective body).text =
      some (scanDirective ('\x7b' :: (body ++ Directive.terminator))) := rfl
  have hafter : after? ['\x7b'] ('\x7b' :: (body ++ Directive.terminator)) =
      some (body ++ Directive.terminator) := rfl
  rw [hscan, scanDirective, hafter, Option.bind_some, Directive.cut_terminator h]

end Lifeline
