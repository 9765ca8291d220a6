import Lifeline.Proofs.Script.Reach

/-!
# Tokens in statement position

A token that is not taken by an earlier one is in statement position. Statements are
read at these tokens and nowhere else, up to the first participant keyword without a
name. What is read in front of such a keyword does not depend on what follows it.
-/

namespace Lifeline

open Statement

/-- The token at `j`, if it starts something, takes the token at `i`. -/
def Takes (ts : List Token) (j i : Nat) : Prop :=
  ∃ t, ts[j]? = some t ∧ j < i ∧ i ≤ j + t.reach (ts.drop (j + 1))

/-- The place is in statement position: no earlier token in statement position takes what stands
there. -/
def InStatementPosition (ts : List Token) (i : Nat) : Prop :=
  ∀ j, (_h : j < i) → InStatementPosition ts j → ¬Takes ts j i
termination_by i

/-- At a token in statement position stands what is read as `r`. -/
def ReadAt (ts : List Token) (i : Nat) (r : Reading) : Prop :=
  InStatementPosition ts i ∧ ∃ t, ts[i]? = some t ∧ next t (ts.drop (i + 1)) = r

/-- A place is in statement position if no earlier one in statement position takes it. -/
theorem inStatementPosition_iff {ts : List Token} {i : Nat} :
    InStatementPosition ts i ↔ ∀ j < i, InStatementPosition ts j → ¬Takes ts j i := by
  rw [InStatementPosition]

theorem inStatementPosition_zero (ts : List Token) : InStatementPosition ts 0 :=
  inStatementPosition_iff.mpr fun _ hj => absurd hj (Nat.not_lt_zero _)

private theorem takes_append {front rest : List Token} {j i : Nat} :
    Takes (front ++ rest) (front.length + j) (front.length + i) ↔ Takes rest j i := by
  simp only [Takes, List.getElem?_append_right (Nat.le_add_right _ _), Nat.add_sub_cancel_left,
    List.drop_length_add_append, Nat.add_assoc, Nat.add_lt_add_iff_left, Nat.add_le_add_iff_left]

section

variable {t : Token} {front rest : List Token}

theorem takes_zero {ts : List Token} {i : Nat} :
    Takes (t :: ts) 0 i ↔ 0 < i ∧ i ≤ t.reach ts := by
  simp [Takes]

/-- What the first token takes is not in statement position. -/
theorem not_inStatementPosition (hreach : front.length = t.reach (front ++ rest)) {i : Nat}
    (h0 : 0 < i) (hi : i ≤ front.length) : ¬InStatementPosition (t :: (front ++ rest)) i :=
  fun h => inStatementPosition_iff.mp h 0 h0 (inStatementPosition_zero _)
    (takes_zero.mpr ⟨h0, hreach ▸ hi⟩)

/-- Behind what the first token takes the statement positions are those of the tokens there. -/
theorem inStatementPosition_append (hreach : front.length = t.reach (front ++ rest)) (k : Nat) :
    InStatementPosition (t :: (front ++ rest)) (front.length + 1 + k) ↔
      InStatementPosition rest k := by
  have hshift (j i : Nat) :
      Takes (t :: (front ++ rest)) (front.length + 1 + j) (front.length + 1 + i) ↔ Takes rest j i :=
    @takes_append (t :: front) rest j i
  induction k using Nat.strongRecOn with
  | ind k ih =>
    rw [inStatementPosition_iff, inStatementPosition_iff]
    constructor
    · intro h j hj hpos htakes
      exact h _ (Nat.add_lt_add_left hj _) ((ih j hj).mpr hpos) ((hshift j k).mpr htakes)
    · intro h j hj hpos htakes
      rcases Nat.eq_zero_or_pos j with rfl | h0
      · have hle := (takes_zero.mp htakes).2
        omega
      rcases Nat.lt_or_ge front.length j with hlt | hle
      · obtain ⟨j, rfl⟩ := Nat.exists_eq_add_of_lt hlt
        rw [Nat.add_right_comm] at hj hpos htakes
        exact h j (by omega) ((ih j (by omega)).mp hpos) ((hshift j k).mp htakes)
      · exact not_inStatementPosition hreach h0 hle hpos

/-- What is read at the tokens of a source is what is read at the first one, and then what is read
behind the tokens that it takes. -/
theorem readAt_cons_iff (hreach : front.length = t.reach (front ++ rest)) {i : Nat} {r : Reading} :
    ReadAt (t :: (front ++ rest)) i r ↔ (i = 0 ∧ next t (front ++ rest) = r) ∨
      ∃ k, i = front.length + 1 + k ∧ ReadAt rest k r := by
  have hget (k : Nat) : (t :: (front ++ rest))[front.length + 1 + k]? = rest[k]? := by
    rw [Nat.add_right_comm, List.getElem?_cons_succ,
      List.getElem?_append_right (Nat.le_add_right _ _), Nat.add_sub_cancel_left]
  have hdrop (k : Nat) :
      (t :: (front ++ rest)).drop (front.length + 1 + k + 1) = rest.drop (k + 1) :=
    @List.drop_length_add_append _ (t :: front) rest (k + 1)
  constructor
  · rintro ⟨hpos, u, hu, hr⟩
    rcases Nat.eq_zero_or_pos i with rfl | h0
    · cases hu
      exact .inl ⟨rfl, hr⟩
    rcases Nat.lt_or_ge front.length i with hlt | hle
    · obtain ⟨k, rfl⟩ := Nat.exists_eq_add_of_lt hlt
      rw [Nat.add_right_comm front.length k 1] at hpos hu hr ⊢
      rw [hget] at hu
      rw [hdrop] at hr
      exact .inr ⟨k, rfl, (inStatementPosition_append hreach k).mp hpos, u, hu, hr⟩
    · exact absurd hpos (not_inStatementPosition hreach h0 hle)
  · rintro (⟨rfl, hr⟩ | ⟨k, rfl, hpos, u, hu, hr⟩)
    · exact ⟨inStatementPosition_zero _, t, rfl, hr⟩
    · exact ⟨(inStatementPosition_append hreach k).mpr hpos, u, by rw [hget, hu],
        by rw [hdrop, hr]⟩

end

namespace Script

open Statement

variable {t : Token} {ts front rest more : List Token}

/-- Induction on what is read: either a name is missing at the first token, or a front of the tokens
is read. -/
theorem readings_induction {motive : List Token → Prop} (nil : motive [])
    (missing : ∀ t ts word, next t ts = .missingName word → motive (t :: ts))
    (reads : ∀ t front rest, Reads t front rest → motive rest → motive (t :: (front ++ rest)))
    (ts : List Token) : motive ts := by
  induction hn : ts.length using Nat.strongRecOn generalizing ts with
  | ind n ih =>
    cases ts with
    | nil => exact nil
    | cons t ts =>
      by_cases h : ∃ word, next t ts = .missingName word
      · obtain ⟨word, hw⟩ := h
        exact missing t ts word hw
      · obtain ⟨front, rest, rfl, hr⟩ := exists_reads (not_exists.mp h)
        rw [List.length_cons, List.length_append] at hn
        exact reads t front rest hr (ih rest.length (by omega) rest rfl)

/-- What is read first does not change which name is missing. -/
theorem fault_of_reads (h : Reads t front rest) (hm : StartsAs more rest) :
    (ofTokens (t :: (front ++ more))).fault = (ofTokens more).fault := by
  rw [ofTokens_cons, h.before more hm]
  cases hr : next t (front ++ rest) with
  | statement s r => rfl
  | skip r => rfl
  | missingName word => exact absurd hr (h.ne_missingName word)

/-- The first statement stands at the first token if one is read there, and the others stand behind
the tokens that it takes. -/
theorem mem_placed_of_reads (h : Reads t front rest) {i : Nat} {s : Statement} :
    (i, s) ∈ placed (t :: (front ++ rest)).length (t :: (front ++ rest)) ↔
      (i = 0 ∧ ∃ r, next t (front ++ rest) = .statement s r) ∨
        ∃ k, i = front.length + 1 + k ∧ (k, s) ∈ placed rest.length rest := by
  have hlength : (t :: (front ++ rest)).length = front.length + 1 + rest.length := by
    rw [List.length_cons, List.length_append]
    omega
  have hrest : (i, s) ∈ placed (t :: (front ++ rest)).length rest ↔
      ∃ k, i = front.length + 1 + k ∧ (k, s) ∈ placed rest.length rest := by
    rw [hlength, placed_add _ (Nat.le_refl _), List.mem_map]
    constructor
    · rintro ⟨⟨k, u⟩, hmem, he⟩
      cases he
      exact ⟨k, rfl, hmem⟩
    · rintro ⟨k, rfl, hmem⟩
      exact ⟨(k, s), hmem, rfl⟩
  have hbefore := h.before rest (.refl rest)
  rw [← hrest, placed_cons]
  cases hr : next t (front ++ rest) with
  | statement u r =>
    rw [hr] at hbefore
    cases hbefore
    simp [eq_comm]
  | skip r =>
    rw [hr] at hbefore
    cases hbefore
    simp
  | missingName word => exact absurd hr (h.ne_missingName word)

/-- The statements of tokens without a fault are those that are read at the tokens in statement
position, each at its place. -/
theorem mem_placed_iff (h : (ofTokens ts).fault = none) {i : Nat} {s : Statement} :
    (i, s) ∈ placed ts.length ts ↔ ∃ rest, ReadAt ts i (.statement s rest) := by
  induction ts using readings_induction generalizing i with
  | nil => simp [ReadAt]
  | missing t ts word hn =>
    rw [ofTokens_cons, hn] at h
    cases h
  | reads t front rest hr ih =>
    rw [fault_of_reads hr (.refl rest)] at h
    simp only [mem_placed_of_reads hr, readAt_cons_iff hr.length_front, ih h]
    constructor
    · rintro (⟨rfl, r, hs⟩ | ⟨k, rfl, r, hs⟩)
      · exact ⟨r, .inl ⟨rfl, hs⟩⟩
      · exact ⟨r, .inr ⟨k, rfl, hs⟩⟩
    · rintro ⟨r, ⟨rfl, hs⟩ | ⟨k, rfl, hs⟩⟩
      · exact .inl ⟨rfl, r, hs⟩
      · exact .inr ⟨k, rfl, r, hs⟩

/-- Where a name is missing in statement position there is a fault, and it comes no later. -/
theorem exists_fault_of_readAt {i : Nat} {word : String} (h : ReadAt ts i (.missingName word)) :
    ∃ f, (ofTokens ts).fault = some f ∧ ts.length ≤ i + f.behind.length + 1 := by
  induction ts using readings_induction generalizing i with
  | nil => simp [ReadAt] at h
  | missing t ts word hn =>
    refine ⟨⟨word, ts⟩, by rw [ofTokens_cons, hn], ?_⟩
    have hle : ts.length + 1 ≤ i + ts.length + 1 := by omega
    exact hle
  | reads t front rest hr ih =>
    rcases (readAt_cons_iff hr.length_front).mp h with ⟨-, hs⟩ | ⟨k, rfl, hk⟩
    · exact absurd hs (hr.ne_missingName word)
    · obtain ⟨f, hf, hle⟩ := ih hk
      refine ⟨f, by rw [fault_of_reads hr (.refl rest), hf], ?_⟩
      rw [List.length_cons, List.length_append]
      omega

/-- The fault stands behind tokens that are read without one, at a keyword in statement position,
and it does not depend on what follows, as long as that is no name. -/
structure StopsAt (f : MissingName) (ts read : List Token) : Prop where
  tokens : ts = read ++ .keyword f.keyword :: f.behind
  readAt : ReadAt ts read.length (.missingName f.keyword)
  fault_read : (ofTokens read).fault = none
  fault_append : ∀ more : List Token, (∀ name, more.head? ≠ some (.identifier name)) →
    (ofTokens (read ++ .keyword f.keyword :: more)).fault = some ⟨f.keyword, more⟩

/-- A fault stops the reading behind tokens that are read without one. -/
theorem exists_stopsAt {f : MissingName} (h : (ofTokens ts).fault = some f) :
    ∃ read, StopsAt f ts read := by
  induction ts using readings_induction with
  | nil => simp at h
  | missing t ts word hn =>
    rw [ofTokens_cons, hn] at h
    cases h
    obtain ⟨rfl, hkeyword, -⟩ := next_eq_missingName_iff.mp hn
    refine ⟨[], rfl, ⟨inStatementPosition_zero _, _, rfl, hn⟩, by rw [ofTokens_nil],
      fun more hname => ?_⟩
    have hmissing := next_eq_missingName_iff.mpr ⟨rfl, hkeyword, hname⟩
    rw [List.nil_append, ofTokens_cons, hmissing]
  | reads t front rest hr ih =>
    rw [fault_of_reads hr (.refl rest)] at h
    obtain ⟨read, htokens, hread, hnone, hmore⟩ := ih h
    have hstart : StartsAs read rest := htokens ▸ .of_append read _
    refine ⟨t :: (front ++ read), by simp [htokens], ?_, by rw [fault_of_reads hr hstart, hnone],
      fun more hname => ?_⟩
    · refine (readAt_cons_iff hr.length_front).mpr (.inr ⟨read.length, ?_, hread⟩)
      rw [List.length_cons, List.length_append]
      omega
    · have hkeyword : StartsAs (read ++ .keyword f.keyword :: more) rest :=
        htokens ▸ (StartsAs.of_cons _ _ _).append read
      rw [List.cons_append, List.append_assoc, fault_of_reads hr hkeyword, hmore more hname]

end Script

end Lifeline
