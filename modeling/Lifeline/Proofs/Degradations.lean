import Lifeline.Proofs.DirectiveReading
import Lifeline.Proofs.Scan.Tokens
import Lifeline.View

/-!
# What has no effect

Directives, statements and annotations may be written so that they change nothing. Each
way is said here without the reader. The notices of a view are one for each such
construct, in the order in which the constructs are met: first the directives of the
source, then the statements of its script, each before its annotations.
-/

namespace Lifeline

open Text

/-- How a flow directive starts. -/
def Directive.flowMark : List Char := ['%', '%', 'f', 'l', 'o', 'w']

/-- Why a directive counts as a plain comment. -/
inductive Directive.Degraded : List Char → Degradation → Prop
  /-- It opens in braces and is no directive in braces. -/
  | noTerminator {text : List Char} (hstart : ['%', '%', '\x7b'] <+: text)
      (hopen : ∀ body, text ≠ (Lexeme.blockDirective body).text) : Degraded text .noTerminator
  /-- Its body is not `init`, a colon and an object. -/
  | noObject {body : List Char} (h : ∀ object, ¬HoldsObject body object) :
      Degraded (Lexeme.blockDirective body).text .noObject
  /-- The object in its body cannot be read. -/
  | malformedObject {body object : List Char} (hobject : HoldsObject body object)
      (hread : Json.read object = .error .malformed) :
      Degraded (Lexeme.blockDirective body).text .malformedObject
  /-- No word stands behind `%%flow` and the gap. -/
  | noFlowId {gap behind : List Char} (hne : gap ≠ []) (hgap : ∀ c ∈ gap, c = ' ' ∨ c = '\t')
      (hbehind : ∀ c ∈ behind.head?, c ≠ ' ' ∧ c ≠ '\t' ∧ isWordChar c = false) :
      Degraded (flowMark ++ (gap ++ behind)) .noFlowId

/-- What is met in a source, with or without an effect. -/
inductive Construct where
  /-- A directive, by its text. -/
  | directive (text : List Char)
  /-- A statement that comes after `earlier` ones. -/
  | statement (earlier : List Statement) (s : Statement)
  /-- An annotation of a message. -/
  | tag (a : Tag)

/-- The notice that a construct deserves for want of an effect: a directive that counts as a
comment, a message without a target, a second declaration, and an annotation without a value or a
meaning. -/
inductive Degrades : Construct → Notice → Prop
  | directive {text : List Char} {why : Degradation} (h : Directive.Degraded text why) :
      Degrades (.directive text) (.degraded why)
  | noTarget {earlier : List Statement} {source : String} :
      Degrades (.statement earlier (.dangling source)) (.noTarget source)
  | repeatedParticipant {earlier : List Statement} {id first second : String}
      (h : .participant id first ∈ earlier) :
      Degrades (.statement earlier (.participant id second)) (.repeatedParticipant id)
  | repeatedFlow {earlier : List Statement} {first second : Flow} (h : .flow first ∈ earlier)
      (hid : first.id = second.id) :
      Degrades (.statement earlier (.flow second)) (.repeatedFlow second.id)
  | valueless {name : String} (h : name ≠ "sync" ∧ name ≠ "async") :
      Degrades (.tag ⟨name, none⟩) (.valueless name)
  | unknown {name value : String} (h : name ≠ "sync" ∧ name ≠ "async")
      (hfield : ∀ f : Annotations.Field, f.name ≠ name) :
      Degrades (.tag ⟨name, some value⟩) (.unknown name)

/-- What a construct gives: the notice that it deserves, or none if it has an effect. -/
inductive Gives (c : Construct) : List Notice → Prop
  | degraded {n : Notice} (h : Degrades c n) : Gives c [n]
  | sound (h : ∀ n, ¬Degrades c n) : Gives c []

/-- The notices are those that the constructs give, one construct after the other. -/
inductive Records : List Construct → List Notice → Prop
  | nil : Records [] []
  | cons {c : Construct} {cs : List Construct} {ns ms : List Notice} (h : Gives c ns)
      (hs : Records cs ms) : Records (c :: cs) (ns ++ ms)

namespace Directive

variable {text gap behind : List Char} {shown : String} {why : Degradation}

private theorem exists_body (hstart : ['%', '%', '\x7b'] <+: text) (hlength : ¬text.length < 6)
    (hstop : terminator <:+ text) : ∃ body, text = (Lexeme.blockDirective body).text := by
  obtain ⟨s, rfl⟩ := hstart
  have hs : terminator.length ≤ s.length := by
    simp only [List.length_append, List.length_cons, List.length_nil, terminator] at hlength ⊢
    omega
  obtain ⟨body, rfl⟩ : terminator <:+ s :=
    List.suffix_of_suffix_length_le hstop (List.suffix_append _ _) hs
  exact ⟨body, rfl⟩

/-- A metadata directive that is open is a comment. -/
theorem read_of_no_body (hstart : ['%', '%', '\x7b'] <+: text)
    (hopen : ∀ body, text ≠ (Lexeme.blockDirective body).text) :
    read text = .ok (.comment (commentText text) (some .noTerminator)) := by
  rw [read, if_pos (List.isPrefixOf_iff_prefix.mpr hstart)]
  refine if_pos ?_
  by_contra hclosed
  simp only [Bool.or_eq_true, decide_eq_true_eq, Bool.not_eq_true', not_or, Bool.not_eq_false,
    List.isSuffixOf_iff_suffix] at hclosed
  obtain ⟨body, hbody⟩ := exists_body hstart hclosed.1 hclosed.2
  exact hopen body hbody

/-- A flow directive starts with its mark and a gap. -/
theorem isFlow_iff : isFlow text = true ↔
    ∃ gap behind, text = flowMark ++ (gap ++ behind) ∧ gap ≠ [] ∧
      (∀ c ∈ gap, c = ' ' ∨ c = '\t') ∧ ∀ c ∈ behind.head?, c ≠ ' ' ∧ c ≠ '\t' := by
  constructor
  · intro h
    rw [isFlow] at h
    split at h
    · next c s hafter =>
      have hs := after?_eq_some_iff.mp hafter
      have hc : c = ' ' ∨ c = '\t' := by simpa using h
      refine ⟨(c :: s).takeWhile fun c => c == ' ' || c == '\t', skipGap (c :: s), ?_, ?_,
        fun x hx => ?_, fun x hx => ?_⟩
      · rw [hs, skipGap, List.takeWhile_append_dropWhile, flowMark]
      · rw [List.takeWhile_cons_of_pos (by simpa using hc)]
        exact List.cons_ne_nil _ _
      · simpa using List.mem_takeWhile_imp hx
      · simpa using head?_dropWhile_eq_false hx
    · cases h
  · rintro ⟨gap, behind, rfl, hne, hgap, -⟩
    obtain ⟨c, gap, rfl⟩ := List.exists_cons_of_ne_nil hne
    rw [flowMark, isFlow, after?_eq_some_iff.mpr rfl]
    simpa using hgap c List.mem_cons_self

/-- A flow directive is read from behind its gap, and from its first line only. -/
theorem skipGap_of_flow (hgap : ∀ c ∈ gap, c = ' ' ∨ c = '\t')
    (hbehind : ∀ c ∈ behind.head?, c ≠ ' ' ∧ c ≠ '\t') :
    skipGap (((flowMark ++ (gap ++ behind)).takeWhile (· != '\n')).drop 6) =
      behind.takeWhile (· != '\n') := by
  have hmark : ∀ c ∈ flowMark ++ gap, (c != '\n') = true := by
    refine List.forall_mem_append.mpr ⟨by simp [flowMark], fun c hc => ?_⟩
    rcases hgap c hc with rfl | rfl <;> rfl
  have hline : (flowMark ++ (gap ++ behind)).takeWhile (· != '\n') =
      flowMark ++ (gap ++ behind.takeWhile (· != '\n')) := by
    rw [← List.append_assoc, List.takeWhile_append_of_pos hmark, List.append_assoc]
  have hdrop : (flowMark ++ (gap ++ behind.takeWhile (· != '\n'))).drop 6 =
      gap ++ behind.takeWhile (· != '\n') := rfl
  rw [hline, hdrop, skipGap, List.dropWhile_append_of_pos fun c hc => by simpa using hgap c hc]
  refine dropWhile_eq_self_of_head fun c hc => ?_
  rw [List.head?_takeWhile, Option.mem_filter_iff] at hc
  simpa using hbehind c hc.1

/-- A flow directive counts as a comment exactly if no word stands behind its gap. -/
theorem readFlow_eq_comment_iff (hgap : ∀ c ∈ gap, c = ' ' ∨ c = '\t')
    (hbehind : ∀ c ∈ behind.head?, c ≠ ' ' ∧ c ≠ '\t') :
    (∃ shown, readFlow (flowMark ++ (gap ++ behind)) = .comment shown (some why)) ↔
      why = .noFlowId ∧ ∀ c ∈ behind.head?, isWordChar c = false := by
  have hword : ((behind.takeWhile (· != '\n')).takeWhile isWordChar).isEmpty = true ↔
      ∀ c ∈ behind.head?, isWordChar c = false := by
    cases behind with
    | nil => simp
    | cons c s =>
      by_cases hc : c = '\n'
      · obtain rfl := hc
        simp [isWordChar]
      · rw [List.takeWhile_cons, if_pos (by simpa using hc), List.takeWhile_cons]
        cases hw : isWordChar c <;> simp [hw]
  rw [readFlow, skipGap_of_flow hgap hbehind]
  dsimp only
  split
  · next hempty =>
    refine ⟨?_, ?_⟩
    · rintro ⟨shown, h⟩
      cases h
      exact ⟨rfl, hword.mp hempty⟩
    · rintro ⟨rfl, -⟩
      exact ⟨_, rfl⟩
  · next hempty =>
    refine ⟨?_, fun h => absurd (hword.mpr h.2) hempty⟩
    rintro ⟨shown, h⟩
    cases h

/-- The reader finds every directive that counts as a comment. -/
theorem Degraded.read_eq (h : Degraded text why) :
    ∃ shown, read text = .ok (.comment shown (some why)) := by
  cases h with
  | noTerminator hstart hopen => exact ⟨_, read_of_no_body hstart hopen⟩
  | @noObject body h =>
    have hobject : objectText? body = none := by
      rw [Option.eq_none_iff_forall_ne_some]
      exact fun object ho => h object (objectText?_eq_some_iff.mp ho)
    rw [read_blockDirective, hobject]
    exact ⟨_, rfl⟩
  | malformedObject hobject hread =>
    rw [read_blockDirective, objectText?_eq_some_iff.mpr hobject]
    dsimp only
    rw [readObject, hread]
    exact ⟨_, rfl⟩
  | @noFlowId gap behind hne hgap hbehind =>
    have hstop : ∀ c ∈ behind.head?, c ≠ ' ' ∧ c ≠ '\t' := fun c hc =>
      ⟨(hbehind c hc).1, (hbehind c hc).2.1⟩
    have hflow := isFlow_iff.mpr ⟨gap, behind, rfl, hne, hgap, hstop⟩
    have hstart : ¬['%', '%', '\x7b'].isPrefixOf (flowMark ++ (gap ++ behind)) = true :=
      Bool.false_ne_true
    obtain ⟨shown, hread⟩ :=
      (readFlow_eq_comment_iff hgap hstop).mpr ⟨rfl, fun c hc => (hbehind c hc).2.2⟩
    exact ⟨shown, by rw [read, if_neg hstart, if_pos hflow, hread]⟩

/-- A directive counts as a comment for one reason. -/
theorem Degraded.unique {why' : Degradation} (h : Degraded text why) (h' : Degraded text why') :
    why = why' := by
  obtain ⟨shown, hread⟩ := h.read_eq
  obtain ⟨shown', hread'⟩ := h'.read_eq
  rw [hread] at hread'
  cases hread'
  rfl

end Directive

/-- A construct deserves at most one notice. -/
theorem Degrades.unique {c : Construct} {n n' : Notice} (h : Degrades c n) (h' : Degrades c n') :
    n = n' := by
  cases h with
  | directive hd =>
    cases h' with
    | directive hd' => rw [hd.unique hd']
  | _ =>
    cases h'
    rfl

/-- So what it gives is determined. -/
theorem Gives.unique {c : Construct} {ns ns' : List Notice} (h : Gives c ns) (h' : Gives c ns') :
    ns = ns' := by
  cases h with
  | degraded hn =>
    cases h' with
    | degraded hn' => rw [hn.unique hn']
    | sound hs => exact absurd hn (hs _)
  | sound hs =>
    cases h' with
    | degraded hn' => exact absurd hn' (hs _)
    | sound _ => rfl

/-- The constructs determine their notices. -/
theorem Records.unique {cs : List Construct} {ns ns' : List Notice} (h : Records cs ns)
    (h' : Records cs ns') : ns = ns' := by
  induction h generalizing ns' with
  | nil =>
    cases h'
    rfl
  | cons hg _ ih =>
    cases h' with
    | cons hg' hs' => rw [hg.unique hg', ih hs']

/-- A notice is given exactly if it is deserved. -/
theorem Records.mem_iff {cs : List Construct} {ns : List Notice} (h : Records cs ns) {n : Notice} :
    n ∈ ns ↔ ∃ c ∈ cs, Degrades c n := by
  induction h with
  | nil => simp
  | @cons c cs ns ms hg _ ih =>
    have hc : n ∈ ns ↔ Degrades c n := by
      cases hg with
      | degraded hn =>
        refine ⟨fun hmem => ?_, fun hn' => ?_⟩
        · rwa [List.mem_singleton.mp hmem]
        · rw [hn'.unique hn]
          exact List.mem_singleton_self _
      | sound hs => simp [hs n]
    rw [List.mem_append, hc, ih]
    simp only [List.mem_cons, exists_eq_or_imp]

section

variable {earlier : List Statement} {id : String}

end

/-- Constructs that stand one behind the other give their notices so. -/
theorem Records.append {cs ds : List Construct} {ns ms : List Notice} (hc : Records cs ns)
    (hd : Records ds ms) : Records (cs ++ ds) (ns ++ ms) := by
  induction hc with
  | nil => exact hd
  | cons h _ ih =>
    rw [List.append_assoc]
    exact .cons h ih

/-- The annotations of a statement. -/
def Statement.tags : Statement → List Tag
  | message _ _ _ _ tags => tags
  | _ => []

/-- What is met with a statement that comes after `earlier` ones. -/
def Statement.constructs (earlier : List Statement) (s : Statement) : List Construct :=
  .statement earlier s :: s.tags.map .tag

/-- What is met in statements that come after `earlier` ones, which are listed last first. -/
def Script.constructsFrom (earlier : List Statement) : List Statement → List Construct
  | [] => []
  | s :: ss => s.constructs earlier ++ constructsFrom (s :: earlier) ss

/-- The text of a directive. -/
def Lexeme.directive? : Lexeme → Option (List Char)
  | lineDirective rest => some (lineDirective rest).text
  | blockDirective body => some (blockDirective body).text
  | _ => none

/-- What is met while lexemes are made tokens: their directives, up to the first failure. -/
def Source.constructsOf (ls : List Lexeme) : List Construct :=
  ((ls.takeWhile fun l => l.token.isOk).filterMap Lexeme.directive?).map .directive

/-- What is met in a source when a view of it is made: its directives, and for a diagram the
statements of its script, if it has tokens. -/
def View.constructs (v : View) (source : String) : List Construct :=
  Source.constructsOf (Source.lexemes source.toList) ++
    match v, tokenize source with
    | .diagram, .ok ts => Script.constructsFrom [] (Script.ofTokens ts).statements
    | _, _ => []

end Lifeline
