import Lifeline.Parse
import Lifeline.Proofs.Registry
import Lifeline.Proofs.Script.LineBreak

/-!
# Diagrams of two parts

Two lists of tokens with a line end between them are read one after the other. The
first fault counts, at its place among all tokens. Where there is none, the diagram
of both is put together from their two diagrams and their declared participants:
messages one after the other, first declarations, last headings.
-/

namespace Lifeline

/-- The error as it is found when `k` more tokens stand in front. -/
def ParseError.moved (k : Nat) (e : ParseError) : ParseError :=
  { e with position := e.position.map (· + k) }

/-- The failure as it arises when `k` more tokens stand in front. -/
def Failure.moved (k : Nat) : Failure → Failure
  | parse e => parse (e.moved k)
  | f => f

namespace Script

variable {ts : List Token}

/-- A fault is found at a token, so fewer tokens stand behind it. -/
theorem length_behind_lt {f : MissingName} (h : (ofTokens ts).fault = some f) :
    f.behind.length < ts.length := by
  induction ts using ofTokens.induct with
  | case1 => simp at h
  | case2 t ts s rest hn ih =>
    have hrest := Statement.length_rest_next_le t ts
    rw [hn] at hrest
    rw [ofTokens_cons, hn] at h
    exact Nat.lt_succ_of_lt (Nat.lt_of_lt_of_le (ih h) hrest)
  | case3 t ts rest hn ih =>
    have hrest := Statement.length_rest_next_le t ts
    rw [hn] at hrest
    rw [ofTokens_cons, hn] at h
    exact Nat.lt_succ_of_lt (Nat.lt_of_lt_of_le (ih h) hrest)
  | case4 t ts keyword hn =>
    rw [ofTokens_cons, hn] at h
    cases h
    exact Nat.lt_succ_self _

/-- A fault in the first lines ends the reading; the further lines stand behind it unread. -/
theorem ofTokens_append_newline_of_fault (us : List Token) {f : MissingName}
    (h : (ofTokens ts).fault = some f) :
    ofTokens (ts ++ .newline :: us) =
      ⟨(ofTokens ts).statements, some ⟨f.keyword, f.behind ++ .newline :: us⟩⟩ := by
  induction ts using ofTokens.induct with
  | case1 => simp at h
  | case2 t ts s rest hn ih =>
    rw [ofTokens_cons, hn] at h ⊢
    rw [List.cons_append, ofTokens_cons, Statement.next_append_newline, hn]
    simp only [Statement.Reading.followedBy, ih h, prepend]
  | case3 t ts rest hn ih =>
    rw [ofTokens_cons, hn] at h ⊢
    rw [List.cons_append, ofTokens_cons, Statement.next_append_newline, hn]
    exact ih h
  | case4 t ts keyword hn =>
    rw [ofTokens_cons, hn] at h ⊢
    cases h
    rw [List.cons_append, ofTokens_cons, Statement.next_append_newline, hn]
    rfl

/-- Some statement gives a text of the kind, even an empty one. -/
def gives (kind : Statement → Option String) (p : Script) : Bool :=
  p.statements.any fun s => (kind s).isSome

end Script

namespace Diagram

/-- The participants that tokens declare, before the ends of messages are looked at. -/
def declared (ts : List Token) : List Participant :=
  (ofStatements (Script.ofTokens ts).statements).participants

/-- The last of two lists of texts is that of the second one, if it has any. -/
theorem lastText_append (xs ys : List String) :
    lastText (xs ++ ys) = if ys.isEmpty then lastText xs else lastText ys := by
  rcases List.eq_nil_or_concat ys with rfl | ⟨zs, z, rfl⟩
  · simp
  · simp [lastText]

/-- The last heading of two parts is that of the second one, if it gives any. -/
theorem lastText_filterMap_append (kind : Statement → Option String) (ss : List Statement)
    (p : Script) : lastText ((ss ++ p.statements).filterMap kind) =
      if p.gives kind then lastText (p.statements.filterMap kind)
      else lastText (ss.filterMap kind) := by
  have hgives : p.gives kind = !(p.statements.filterMap kind).isEmpty := by
    rw [Script.gives, Bool.eq_iff_iff]
    simp [List.filterMap_eq_nil_iff, Option.isSome_iff_ne_none]
  rw [List.filterMap_append, lastText_append, hgives]
  cases (p.statements.filterMap kind).isEmpty <;> rfl

private theorem lastText_filterMap_append_of_nonempty {kind : Statement → Option String}
    (hk : ∀ s, kind s ≠ some "") (ss us : List Statement) :
    lastText ((ss ++ us).filterMap kind) =
      if lastText (us.filterMap kind) = "" then lastText (ss.filterMap kind)
      else lastText (us.filterMap kind) := by
  rw [List.filterMap_append, lastText_append]
  rcases List.eq_nil_or_concat (us.filterMap kind) with hnil | ⟨xs, x, hx⟩
  · rw [hnil]
    rfl
  · have hmem : x ∈ us.filterMap kind := by simp [hx]
    obtain ⟨s, -, hs⟩ := List.mem_filterMap.mp hmem
    have hne : x ≠ "" := by
      rintro rfl
      exact hk s hs
    simp [hx, lastText, hne]

private theorem system?_ne_empty (s : Statement) : s.system? ≠ some "" := by
  cases s <;> simp [Statement.system?, Option.filter_eq_some_iff]

private theorem version?_ne_empty (s : Statement) : s.version? ≠ some "" := by
  cases s <;> simp [Statement.version?, Option.filter_eq_some_iff]

/-- What the statements of two parts say is put together from what each part says. -/
theorem ofStatements_append (ss : List Statement) (p : Script) :
    ofStatements (ss ++ p.statements) =
      { title := if p.gives Statement.title? then (ofStatements p.statements).title
          else (ofStatements ss).title
        description :=
          if p.gives Statement.description? then (ofStatements p.statements).description
          else (ofStatements ss).description
        system := if (ofStatements p.statements).system = "" then (ofStatements ss).system
          else (ofStatements p.statements).system
        version := if (ofStatements p.statements).version = "" then (ofStatements ss).version
          else (ofStatements p.statements).version
        participants := (ofStatements ss).participants ++
          (ofStatements p.statements).participants.filter
            fun x => !Registry.knows Participant.id (ofStatements ss).participants x.id
        messages := (ofStatements ss).messages ++ (ofStatements p.statements).messages
        flows := (ofStatements ss).flows ++ (ofStatements p.statements).flows.filter
          fun x => !Registry.knows Flow.id (ofStatements ss).flows x.id } := by
  simp only [ofStatements, lastText_filterMap_append_of_nonempty system?_ne_empty,
    lastText_filterMap_append_of_nonempty version?_ne_empty, lastText_filterMap_append]
  simp only [List.filterMap_append, Registry.addAll_append]
  rw [Registry.addAll_eq_append_filter (Registry.addAll Participant.id [] _),
    Registry.addAll_eq_append_filter (Registry.addAll Flow.id [] _)]
  rfl

/-- Tokens with a fault have no diagram. -/
theorem ofTokens_of_fault {ts : List Token} {f : MissingName}
    (h : (Script.ofTokens ts).fault = some f) : ofTokens ts = .error (failureOf ts f) := by
  simp only [ofTokens, h]

/-- Tokens without a fault have the diagram of their statements. -/
theorem ofTokens_of_no_fault {ts : List Token} (h : (Script.ofTokens ts).fault = none) :
    ofTokens ts = .ok (ofStatements (Script.ofTokens ts).statements).inferParticipants := by
  simp only [ofTokens, h]

/-- Tokens with a diagram have no fault. -/
theorem of_ofTokens_eq_ok {ts : List Token} {d : Diagram} (h : ofTokens ts = .ok d) :
    (Script.ofTokens ts).fault = none ∧
      d = (ofStatements (Script.ofTokens ts).statements).inferParticipants := by
  cases hfault : (Script.ofTokens ts).fault with
  | none =>
    rw [ofTokens_of_no_fault hfault] at h
    cases h
    exact ⟨rfl, rfl⟩
  | some f =>
    rw [ofTokens_of_fault hfault] at h
    cases h

/-- Further lines do not move a fault. -/
theorem failureOf_append_newline (ts us : List Token) (f : MissingName) :
    failureOf (ts ++ .newline :: us) ⟨f.keyword, f.behind ++ .newline :: us⟩ = failureOf ts f := by
  rw [failureOf, failureOf, List.length_append, List.length_append, Nat.add_sub_add_right]

/-- A line in front moves a fault by its tokens and its end. -/
theorem failureOf_newline_append (ts us : List Token) {f : MissingName}
    (h : f.behind.length < us.length) :
    failureOf (ts ++ .newline :: us) f = (failureOf us f).moved (ts.length + 1) := by
  have hplace : (ts ++ .newline :: us).length - f.behind.length =
      us.length - f.behind.length + (ts.length + 1) := by
    rw [List.length_append, List.length_cons]
    omega
  rw [failureOf, hplace]
  rfl

/-- Tokens with a line end between them are read part by part. The first part that has a fault
decides, a fault of the second part at a place that counts the first part and the line end. If
neither part has one, the diagram is put together from those of the parts. -/
theorem ofTokens_two_parts (ts us : List Token) :
    match ofTokens ts, ofTokens us with
    | .error f, _ => ofTokens (ts ++ .newline :: us) = .error f
    | .ok _, .error f => ofTokens (ts ++ .newline :: us) = .error (f.moved (ts.length + 1))
    | .ok d, .ok e =>
      declared (ts ++ .newline :: us) = declared ts ++ (declared us).filter
        (fun x => !Registry.knows Participant.id (declared ts) x.id) ∧
      ofTokens (ts ++ .newline :: us) = .ok (inferParticipants
        { title := if (Script.ofTokens us).gives Statement.title? then e.title else d.title
          description := if (Script.ofTokens us).gives Statement.description? then e.description
            else d.description
          system := if e.system = "" then d.system else e.system
          version := if e.version = "" then d.version else e.version
          participants := declared (ts ++ .newline :: us)
          messages := d.messages ++ e.messages
          flows := d.flows ++ e.flows.filter fun x => !Registry.knows Flow.id d.flows x.id }) := by
  cases hts : (Script.ofTokens ts).fault with
  | some f =>
    have hboth := Script.ofTokens_append_newline_of_fault us hts
    rw [ofTokens_of_fault hts, ofTokens_of_fault (congrArg Script.fault hboth),
      failureOf_append_newline]
  | none =>
    have hboth := Script.ofTokens_append_newline us hts
    rw [ofTokens_of_no_fault hts]
    cases hus : (Script.ofTokens us).fault with
    | some f =>
      have hfault := (congrArg Script.fault hboth).trans hus
      rw [ofTokens_of_fault hus, ofTokens_of_fault hfault,
        failureOf_newline_append ts us (Script.length_behind_lt hus)]
    | none =>
      have hfault := (congrArg Script.fault hboth).trans hus
      have hstatements := ofStatements_append (Script.ofTokens ts).statements (Script.ofTokens us)
      have hdeclared : declared (ts ++ .newline :: us) = declared ts ++ (declared us).filter
          (fun x => !Registry.knows Participant.id (declared ts) x.id) := by
        rw [declared, hboth, hstatements]
        rfl
      rw [ofTokens_of_no_fault hus, ofTokens_of_no_fault hfault]
      refine ⟨hdeclared, ?_⟩
      rw [hdeclared, hboth, hstatements]
      rfl

end Diagram

end Lifeline
