import Lifeline.Proofs.LineComposition
import Lifeline.Proofs.Registry
import Lifeline.Proofs.Script.StatementPosition

/-!
# Who is known by an id

The participants of a diagram are those that are declared in statement position, the
first declaration of each id, and behind them the ends of messages that nobody
declares. The flows of its legend are the first declarations of their ids. So ids are
distinct, and every end of a message is found among the participants.
-/

namespace Lifeline

open Statement

/-- A participant is declared at a place: by a keyword in statement position and the identifier
behind it. -/
structure ParticipantAt (ts : List Token) (i : Nat) (p : Participant) : Prop where
  position : InStatementPosition ts i
  keyword : ts[i]? = some (.keyword "participant") ∨ ts[i]? = some (.keyword "actor")
  id : ts[i + 1]? = some (.identifier p.id)
  displayName : p.displayName = Statement.displayName p.id (ts.drop (i + 2))

/-- A flow is declared at a place: by a directive in statement position, and it is shown by its id
if its display name is empty. -/
structure FlowAt (ts : List Token) (i : Nat) (f : Flow) : Prop where
  position : InStatementPosition ts i
  token : ∃ entry, ts[i]? = some (.flow entry) ∧ f.id = entry.id ∧ f.color = entry.color ∧
    f.displayName = if entry.displayName = "" then entry.id else entry.displayName

/-- The list has all that stands at places, in the order of the places. -/
structure ListsAll {α : Type} (standsAt : Nat → α → Prop) (xs : List (Nat × α)) : Prop where
  sorted : xs.Pairwise fun x y => x.1 < y.1
  mem_iff : ∀ i a, (i, a) ∈ xs ↔ standsAt i a

variable {ts : List Token} {i : Nat}

namespace Statement

/-- A participant is read behind its keyword and its identifier. -/
theorem next_participant_iff {t : Token} {us : List Token} {p : Participant} :
    (∃ s rest, next t us = .statement s rest ∧ s.participant? = some p) ↔
      (t = .keyword "participant" ∨ t = .keyword "actor") ∧
        us.head? = some (.identifier p.id) ∧ p.displayName = displayName p.id us.tail := by
  constructor
  · rintro ⟨s, rest, hn, hs⟩
    cases s with
    | participant id name =>
      cases hs
      exact startsAt_of_next hn
    | _ => cases hs
  · rintro ⟨hkeyword, hid, hname⟩
    obtain ⟨id, name⟩ := p
    obtain ⟨us, rfl⟩ : ∃ vs, us = .identifier id :: vs := List.head?_eq_some_iff.mp hid
    obtain rfl : name = displayName id us := hname
    have hread (word : String) (hw : word = "participant" ∨ word = "actor") :
        next (.keyword word) (.identifier id :: us) =
          .statement (.participant id (displayName id us)) (afterLine us) := by
      rw [next, readKeyword, if_pos hw, readParticipant]
    rcases hkeyword with rfl | rfl
    · exact ⟨_, _, hread _ (.inl rfl), rfl⟩
    · exact ⟨_, _, hread _ (.inr rfl), rfl⟩

/-- A flow is read at its token. -/
theorem next_flow_iff {t : Token} {us : List Token} {f : Flow} :
    (∃ s rest, next t us = .statement s rest ∧ s.flow? = some f) ↔
      ∃ entry, t = .flow entry ∧ f.id = entry.id ∧ f.color = entry.color ∧
        f.displayName = if entry.displayName = "" then entry.id else entry.displayName := by
  constructor
  · rintro ⟨s, rest, hn, hs⟩
    cases s with
    | flow entry =>
      cases hs
      exact ⟨entry, startsAt_of_next hn, rfl, rfl, by simp⟩
    | _ => cases hs
  · rintro ⟨entry, rfl, hid, hcolor, hname⟩
    have hshown : f = { entry with
        displayName := if entry.displayName.isEmpty then entry.id else entry.displayName } := by
      obtain ⟨id, shown, color⟩ := f
      simp_all
    exact ⟨.flow entry, us, rfl, by rw [flow?, hshown]⟩

end Statement

/-- A participant is declared where a statement that declares it is read. -/
theorem participantAt_iff {p : Participant} :
    ParticipantAt ts i p ↔ ∃ s rest, ReadAt ts i (.statement s rest) ∧ s.participant? = some p := by
  constructor
  · rintro ⟨hpos, hkeyword, hid, hname⟩
    have hread (t : Token) (ht : t = .keyword "participant" ∨ t = .keyword "actor") :=
      next_participant_iff.mpr ⟨ht, by rwa [List.head?_drop], by rwa [List.tail_drop]⟩
    rcases hkeyword with hword | hword
    · obtain ⟨s, rest, hn, hs⟩ := hread _ (.inl rfl)
      exact ⟨s, rest, ⟨hpos, _, hword, hn⟩, hs⟩
    · obtain ⟨s, rest, hn, hs⟩ := hread _ (.inr rfl)
      exact ⟨s, rest, ⟨hpos, _, hword, hn⟩, hs⟩
  · rintro ⟨s, rest, ⟨hpos, t, ht, hn⟩, hs⟩
    obtain ⟨hword, hid, hname⟩ := next_participant_iff.mp ⟨s, rest, hn, hs⟩
    rw [List.head?_drop] at hid
    rw [List.tail_drop] at hname
    refine ⟨hpos, ?_, hid, hname⟩
    rcases hword with rfl | rfl
    · exact .inl ht
    · exact .inr ht

/-- So is a flow. -/
theorem flowAt_iff {f : Flow} :
    FlowAt ts i f ↔ ∃ s rest, ReadAt ts i (.statement s rest) ∧ s.flow? = some f := by
  constructor
  · rintro ⟨hpos, entry, ht, hf⟩
    obtain ⟨s, rest, hn, hs⟩ := next_flow_iff.mpr ⟨entry, rfl, hf⟩
    exact ⟨s, rest, ⟨hpos, _, ht, hn⟩, hs⟩
  · rintro ⟨s, rest, ⟨hpos, t, ht, hn⟩, hs⟩
    obtain ⟨entry, rfl, hf⟩ := next_flow_iff.mp ⟨s, rest, hn, hs⟩
    exact ⟨hpos, entry, ht, hf⟩

namespace Script

/-- What the statements of tokens without a fault declare stands at their places. -/
theorem exists_listsAll {α : Type} (h : (ofTokens ts).fault = none) (kind : Statement → Option α)
    {standsAt : Nat → α → Prop} (hkind : ∀ i a, standsAt i a ↔
      ∃ s rest, ReadAt ts i (.statement s rest) ∧ kind s = some a) :
    ∃ xs, ListsAll standsAt xs ∧ xs.map Prod.snd = (ofTokens ts).statements.filterMap kind := by
  -- All statements with their places, without those of other kinds.
  refine ⟨(placed ts.length ts).filterMap fun p => (kind p.2).map (p.1, ·), ⟨?_, fun i a => ?_⟩, ?_⟩
  · refine List.pairwise_filterMap.mpr ((pairwise_placed (Nat.le_refl _)).imp ?_)
    rintro ⟨i, s⟩ ⟨j, u⟩ hlt x hx y hy
    obtain ⟨a, -, rfl⟩ := Option.map_eq_some_iff.mp hx
    obtain ⟨b, -, rfl⟩ := Option.map_eq_some_iff.mp hy
    exact hlt
  · rw [hkind, List.mem_filterMap]
    constructor
    · rintro ⟨⟨j, s⟩, hmem, hx⟩
      obtain ⟨b, hs, he⟩ := Option.map_eq_some_iff.mp hx
      cases he
      obtain ⟨rest, hread⟩ := (mem_placed_iff h).mp hmem
      exact ⟨s, rest, hread, hs⟩
    · rintro ⟨s, rest, hread, hs⟩
      exact ⟨(i, s), (mem_placed_iff h).mpr ⟨rest, hread⟩, by rw [hs]; rfl⟩
  · rw [← map_snd_placed ts.length, List.filterMap_map, List.map_filterMap]
    congr 1
    funext p
    rw [Option.map_map]
    exact Option.map_id'

end Script

private theorem eraseDupsBy_map {α β : Type} (f : α → β) (r : β → β → Bool) (xs : List α) :
    (xs.map f).eraseDupsBy r = (xs.eraseDupsBy fun x y => r (f x) (f y)).map f := by
  induction hn : xs.length using Nat.strongRecOn generalizing xs with
  | ind n ih =>
    cases xs with
    | nil => simp [List.eraseDupsBy_nil]
    | cons x xs =>
      have hshort (p : α → Bool) : (xs.filter p).length < n := by
        have hle := List.length_filter_le p xs
        rw [List.length_cons] at hn
        omega
      rw [List.map_cons, List.eraseDupsBy_cons, List.eraseDupsBy_cons, List.map_cons,
        List.filter_map, ih _ (hshort _) _ rfl]
      rfl

namespace Diagram

/-- Inference adds the ends of messages that are no participants yet, in the order in which they
appear. -/
theorem participants_inferParticipants (d : Diagram) :
    d.inferParticipants.participants = d.participants ++
      ((endpoints d.messages).filter fun id =>
        !Registry.knows Participant.id d.participants id).eraseDups.map .bare := by
  rw [inferParticipants, Registry.addAll_eq_append_eraseDupsBy, List.filter_map, eraseDupsBy_map]
  rfl

/-- After inference every end of a message is the id of a participant, and its id finds it. -/
theorem exists_participant_of_mem_endpoints {d : Diagram} {id : String}
    (h : id ∈ endpoints d.messages) :
    ∃ p ∈ d.inferParticipants.participants, p.id = id ∧
      d.inferParticipants.participant? id = some p := by
  have hknown : Registry.knows Participant.id d.inferParticipants.participants id = true := by
    rw [inferParticipants, Registry.knows_addAll]
    simp [Registry.knows, h, Participant.bare]
  obtain ⟨p, hp⟩ : ∃ p, d.inferParticipants.participant? id = some p := by
    rw [participant?, ← Option.isSome_iff_exists, List.find?_isSome, ← List.any_eq_true]
    exact hknown
  have hid : (p.id == id) = true :=
    @List.find?_some Participant (·.id == id) p d.inferParticipants.participants hp
  exact ⟨p, List.mem_of_find?_eq_some hp, eq_of_beq hid, hp⟩

variable {d : Diagram}

/-- The participants of a diagram are the declared ones, of each id the first, and then the ends of
messages that nobody declares. Its flows are the directives, of each id the first. All ids are
distinct, and every end of a message is a participant that its id finds. -/
theorem identities_of_ofTokens (h : ofTokens ts = .ok d) :
    ∃ declared legend, ListsAll (ParticipantAt ts) declared ∧ ListsAll (FlowAt ts) legend ∧
      d.participants =
        (declared.map Prod.snd).eraseDupsBy (fun p q => p.id == q.id) ++
          ((endpoints d.messages).filter fun id =>
            !declared.any fun x => x.2.id == id).eraseDups.map .bare ∧
      d.flows = (legend.map Prod.snd).eraseDupsBy (fun f g => f.id == g.id) ∧
      (d.participants.map Participant.id).Nodup ∧ (d.flows.map Flow.id).Nodup ∧
      ∀ m ∈ d.messages, ∀ id ∈ [m.source, m.target],
        ∃ p ∈ d.participants, p.id = id ∧ d.participant? id = some p := by
  obtain ⟨hfault, rfl⟩ := of_ofTokens_eq_ok h
  obtain ⟨declared, hdeclared, hps⟩ :=
    Script.exists_listsAll hfault Statement.participant? fun _ _ => participantAt_iff
  obtain ⟨legend, hlegend, hfs⟩ :=
    Script.exists_listsAll hfault Statement.flow? fun _ _ => flowAt_iff
  refine ⟨declared, legend, hdeclared, hlegend, ?_, ?_, ?_, ?_, ?_⟩
  · rw [participants_inferParticipants, hps, ← Registry.addAll_nil]
    congr 4
    funext id
    rw [ofStatements, ← hps, Registry.knows_addAll]
    simp [Registry.knows, List.any_map, Function.comp_def]
  · rw [hfs, ← Registry.addAll_nil]
    rfl
  · exact Registry.nodup_addAll (Registry.nodup_addAll_nil _) _
  · exact Registry.nodup_addAll_nil _
  · intro m hm id hid
    exact exists_participant_of_mem_endpoints (List.mem_flatMap.mpr ⟨m, hm, hid⟩)

/-- A participant is declared twice behind a message, a keyword stands in a heading, and a flow is
declared twice, first without a name that is shown. -/
def declaringTokens : List Token :=
  [.identifier "A", .arrow "->", .identifier "B", .newline,
    .keyword "participant", .identifier "B", .as "as", .string "Bee", .newline,
    .keyword "actor", .identifier "B", .as "AS", .identifier "Late", .newline,
    .flow ⟨"f", "", none⟩, .newline, .flow ⟨"f", "Second", some "red"⟩, .newline,
    .keyword "title", .keyword "participant", .identifier "T"]

/-- The first declarations count, and the end that nobody declares comes last. -/
theorem identities_of_ofTokens_sample :
    ∃ d declared, ofTokens declaringTokens = .ok d ∧
      ListsAll (ParticipantAt declaringTokens) declared ∧
      (declared.map Prod.snd).eraseDupsBy (fun p q => p.id == q.id) <+: d.participants ∧
      d.participants = [⟨"B", "Bee"⟩, ⟨"A", "A"⟩] ∧ d.flows = [⟨"f", "f", none⟩] ∧
      ∀ m ∈ d.messages, ∀ id ∈ [m.source, m.target],
        ∃ p ∈ d.participants, p.id = id ∧ d.participant? id = some p := by
  have hfault : (Script.ofTokens declaringTokens).fault = none := by decide +kernel
  have hd := ofTokens_of_no_fault hfault
  obtain ⟨declared, legend, hdeclared, -, hps, -, -, -, hfound⟩ := identities_of_ofTokens hd
  exact ⟨_, declared, hd, hdeclared, ⟨_, hps.symm⟩, by decide +kernel, by decide +kernel, hfound⟩

end Diagram

end Lifeline
