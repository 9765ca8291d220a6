import Lifeline.Proofs.Declarations
import Mathlib.Data.Finset.Insert
import Mathlib.Data.Finset.Dedup

/-!
# Completing the participants

Inference goes through the ends of the messages once. It needs the participants only to
tell which ids are known, so a set of these ids may be kept beside them. What it adds
are the ends that nobody declares, in the order in which they first appear: then all
ends are known, so nothing is left to add, and messages may be looked at in portions.
-/

namespace Lifeline

private theorem pairwise_idxOf_eraseDups {α : Type} [BEq α] [LawfulBEq α] (p : α → Bool)
    (xs : List α) :
    (xs.filter p).eraseDups.Pairwise fun a b => xs.idxOf a < xs.idxOf b := by
  induction xs generalizing p with
  | nil => simp
  | cons x xs ih =>
    have hbehind {ys : List α} (hne : x ∉ ys)
        (h : ys.Pairwise fun a b => xs.idxOf a < xs.idxOf b) :
        ys.Pairwise fun a b => (x :: xs).idxOf a < (x :: xs).idxOf b := by
      refine h.imp_of_mem fun {a b} ha hb hlt => ?_
      have hxa : x ≠ a := fun he => hne (he ▸ ha)
      have hxb : x ≠ b := fun he => hne (he ▸ hb)
      rw [List.idxOf_cons_ne xs hxa, List.idxOf_cons_ne xs hxb]
      exact Nat.succ_lt_succ hlt
    cases hx : p x with
    | false =>
      rw [List.filter_cons_of_neg (by simp [hx])]
      refine hbehind (fun hmem => ?_) (ih p)
      rw [List.mem_eraseDups, List.mem_filter, hx] at hmem
      exact Bool.false_ne_true hmem.2
    | true =>
      rw [List.filter_cons_of_pos hx, List.eraseDups_cons, List.filter_filter]
      have hother : x ∉ (xs.filter fun b => !b == x && p b).eraseDups := by
        rw [List.mem_eraseDups, List.mem_filter]
        simp
      refine List.pairwise_cons.mpr ⟨fun b hb => ?_, hbehind hother (ih _)⟩
      have hxb : x ≠ b := fun he => hother (he ▸ hb)
      rw [List.idxOf_cons_self, List.idxOf_cons_ne xs hxb]
      exact Nat.succ_pos _

private theorem Registry.addAll_of_knows {α : Type} {idOf : α → String} {entries xs : List α}
    (h : ∀ x ∈ xs, knows idOf entries (idOf x) = true) : addAll idOf entries xs = entries := by
  induction xs with
  | nil => rfl
  | cons x xs ih =>
    obtain ⟨hx, hxs⟩ := List.forall_mem_cons.mp h
    have hstep : addAll idOf entries (x :: xs) = addAll idOf (add idOf entries x) xs := rfl
    rw [hstep, add, if_pos hx, ih hxs]

/-- Participants, and beside them the set of the ids that they have. -/
structure Roll where
  participants : List Participant
  known : Finset String
  mem_known_iff : ∀ id, id ∈ known ↔ ∃ p ∈ participants, p.id = id

namespace Roll

/-- The roll of a list of participants. -/
def ofParticipants (ps : List Participant) : Roll where
  participants := ps
  known := (ps.map Participant.id).toFinset
  mem_known_iff id := by rw [List.mem_toFinset, List.mem_map]

/-- Meets an id: unless it is known, it becomes that of a participant, and it is known. -/
def meet (r : Roll) (id : String) : Roll :=
  if id ∈ r.known then r
  else
    { participants := r.participants ++ [.bare id]
      known := insert id r.known
      mem_known_iff := fun other => by
        rw [Finset.mem_insert, r.mem_known_iff]
        simp [Participant.bare, or_and_right, exists_or, or_comm, eq_comm] }

/-- Meets the ends of a message, the source first. -/
def meetEnds (r : Roll) (m : Message) : Roll := (r.meet m.source).meet m.target

/-- Meeting an id adds its participant unless the id is known. -/
theorem participants_meet (r : Roll) (id : String) :
    (r.meet id).participants = Registry.add Participant.id r.participants (.bare id) := by
  have hknown : Registry.knows Participant.id r.participants (Participant.bare id).id = true ↔
      id ∈ r.known := by
    rw [r.mem_known_iff, Registry.knows, List.any_eq_true]
    simp [Participant.bare]
  rw [meet, Registry.add]
  by_cases h : id ∈ r.known
  · rw [if_pos h, if_pos (hknown.mpr h)]
  · rw [if_neg h, if_neg fun hk => h (hknown.mp hk)]

/-- Meeting the ends of messages adds them as inference does. -/
theorem participants_foldl_meetEnds (r : Roll) (ms : List Message) :
    (ms.foldl meetEnds r).participants =
      Registry.addAll Participant.id r.participants ((Diagram.endpoints ms).map .bare) := by
  induction ms generalizing r with
  | nil => rfl
  | cons m ms ih =>
    rw [List.foldl_cons, ih, meetEnds, participants_meet, participants_meet]
    rfl

end Roll

namespace Diagram

/-- The same diagram with other messages. -/
def withMessages (d : Diagram) (ms : List Message) : Diagram := { d with messages := ms }

/-- The ends of messages that no participant has, each once. -/
def undeclared (d : Diagram) : List String :=
  ((endpoints d.messages).filter fun id =>
    !Registry.knows Participant.id d.participants id).eraseDups

/-- An end is undeclared if no participant has it as its id. -/
theorem mem_undeclared_iff {d : Diagram} {id : String} :
    id ∈ d.undeclared ↔ id ∈ endpoints d.messages ∧ ∀ p ∈ d.participants, p.id ≠ id := by
  rw [undeclared, List.mem_eraseDups, List.mem_filter]
  simp [Registry.knows]

/-- Undeclared ends stand in the order in which the messages first have them. -/
theorem pairwise_undeclared (d : Diagram) : d.undeclared.Pairwise fun a b =>
    (endpoints d.messages).idxOf a < (endpoints d.messages).idxOf b :=
  pairwise_idxOf_eraseDups _ _

/-- Each undeclared end is listed once. -/
theorem nodup_undeclared (d : Diagram) : d.undeclared.Nodup := by
  refine List.nodup_iff_pairwise_ne.mpr (d.pairwise_undeclared.imp ?_)
  rintro a _ hlt rfl
  exact Nat.lt_irrefl _ hlt

/-- Inference changes nothing if all ends are known. -/
theorem inferParticipants_of_known {d : Diagram}
    (h : ∀ id ∈ endpoints d.messages, ∃ p ∈ d.participants, p.id = id) :
    d.inferParticipants = d := by
  rw [inferParticipants, Registry.addAll_of_knows]
  intro p hp
  obtain ⟨id, hid, rfl⟩ := List.mem_map.mp hp
  obtain ⟨q, hq, he⟩ := h id hid
  exact List.any_eq_true.mpr ⟨q, hq, beq_iff_eq.mpr he⟩

/-- Messages may be looked at in two portions. -/
theorem inferParticipants_withMessages_append (d : Diagram) (xs ys : List Message) :
    (d.withMessages (xs ++ ys)).inferParticipants =
      ((d.withMessages xs).inferParticipants.withMessages ys).inferParticipants.withMessages
        (xs ++ ys) := by
  simp only [inferParticipants, withMessages, endpoints, List.flatMap_append, List.map_append,
    Registry.addAll_append]

/-- Inference leaves a diagram as it is but for the participants, to which it adds the ends of
messages that none of them has as its id, each once and in the order in which the messages first
have them. Then every end is the id of a participant, so inferring again changes nothing. Messages
may be looked at in two portions, and a set of known ids that is kept beside the participants makes
no difference. -/
theorem inference_completes (d : Diagram) :
    (∃ ids : List String,
      d.inferParticipants = { d with participants := d.participants ++ ids.map .bare } ∧
      (∀ id, id ∈ ids ↔ id ∈ endpoints d.messages ∧ ∀ p ∈ d.participants, p.id ≠ id) ∧
      ids.Nodup ∧
      ids.Pairwise fun a b =>
        (endpoints d.messages).idxOf a < (endpoints d.messages).idxOf b) ∧
    (∀ id ∈ endpoints d.messages, ∃ p ∈ d.inferParticipants.participants, p.id = id) ∧
    d.inferParticipants.inferParticipants = d.inferParticipants ∧
    (∀ xs ys, (d.withMessages (xs ++ ys)).inferParticipants =
      ((d.withMessages xs).inferParticipants.withMessages ys).inferParticipants.withMessages
        (xs ++ ys)) ∧
    d.inferParticipants.participants =
      (d.messages.foldl Roll.meetEnds (.ofParticipants d.participants)).participants := by
  have hknown : ∀ id ∈ endpoints d.messages,
      ∃ p ∈ d.inferParticipants.participants, p.id = id := by
    intro id hid
    obtain ⟨p, hp, he, -⟩ := exists_participant_of_mem_endpoints hid
    exact ⟨p, hp, he⟩
  refine ⟨⟨d.undeclared, ?_, fun _ => mem_undeclared_iff, d.nodup_undeclared,
    d.pairwise_undeclared⟩, hknown, inferParticipants_of_known hknown,
    d.inferParticipants_withMessages_append, ?_⟩
  · rw [undeclared, ← participants_inferParticipants]
    rfl
  · rw [Roll.participants_foldl_meetEnds]
    rfl

/-- A message to its own source, and an id that two participants have. -/
example :
    ({ participants := [⟨"A", "first"⟩, ⟨"A", "second"⟩],
       messages := [⟨"C", "A", ⟨.solid, .filled⟩, "", {}⟩, ⟨"B", "B", ⟨.solid, .filled⟩, "", {}⟩,
        ⟨"B", "C", ⟨.solid, .filled⟩, "", {}⟩] : Diagram }).inferParticipants.participants =
      [⟨"A", "first"⟩, ⟨"A", "second"⟩, ⟨"C", "C"⟩, ⟨"B", "B"⟩] := by
  decide +kernel

end Diagram

end Lifeline
