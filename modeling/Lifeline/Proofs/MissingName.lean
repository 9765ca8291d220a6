import Lifeline.Proofs.Script.StatementPosition

/-!
# Participants without a name

Tokens have no diagram exactly if a participant keyword in statement position is not
followed by an identifier. The first such keyword is the error, whatever stands
behind it, and the tokens in front of it have a diagram.
-/

namespace Lifeline

variable {ts : List Token} {i : Nat} {word : String}

/-- A participant keyword in statement position that no identifier follows. -/
structure NamelessAt (ts : List Token) (i : Nat) (word : String) : Prop where
  position : InStatementPosition ts i
  keyword : ts[i]? = some (.keyword word)
  declares : word = "participant" ∨ word = "actor"
  nameless : ∀ name, ts[i + 1]? ≠ some (.identifier name)

/-- At such a keyword a name is missed, and nowhere else. -/
theorem namelessAt_iff : NamelessAt ts i word ↔ ReadAt ts i (.missingName word) := by
  constructor
  · rintro ⟨hpos, hkeyword, hdeclares, hname⟩
    refine ⟨hpos, _, hkeyword, Statement.next_eq_missingName_iff.mpr ⟨rfl, hdeclares, ?_⟩⟩
    rwa [List.head?_drop]
  · rintro ⟨hpos, t, ht, hnext⟩
    obtain ⟨rfl, hdeclares, hname⟩ := Statement.next_eq_missingName_iff.mp hnext
    rw [List.head?_drop] at hname
    exact ⟨hpos, ht, hdeclares, hname⟩

/-- The error of a participant keyword without a name at a place. -/
def Failure.namelessAt (i : Nat) (word : String) : Failure :=
  .parse ⟨"Expected participant identifier after '" ++ word ++ "'", some (i + 1 : Nat)⟩

namespace Diagram

private theorem exists_ofTokens (h : (Script.ofTokens ts).fault = none) :
    ∃ d, ofTokens ts = .ok d :=
  ⟨_, ofTokens_of_no_fault h⟩

private theorem exists_fault {f : Failure} (h : ofTokens ts = .error f) :
    ∃ g, (Script.ofTokens ts).fault = some g ∧ f = failureOf ts g := by
  cases hg : (Script.ofTokens ts).fault with
  | none =>
    rw [ofTokens_of_no_fault hg] at h
    cases h
  | some g =>
    rw [ofTokens_of_fault hg] at h
    cases h
    exact ⟨g, rfl, rfl⟩

/-- The failure of a fault behind `read` is that of the keyword there. -/
theorem failureOf_append (read : List Token) (g : MissingName) :
    failureOf (read ++ .keyword g.keyword :: g.behind) g = .namelessAt read.length g.keyword := by
  have hplace : (read ++ .keyword g.keyword :: g.behind).length - g.behind.length =
      read.length + 1 := by
    rw [List.length_append, List.length_cons]
    omega
  rw [failureOf, hplace]
  rfl

/-- Tokens have no diagram exactly if some participant keyword in statement position has no name.
The error is then that of the first such keyword. The tokens in front of it have a diagram, and
whatever stands behind it leaves the error as it is, unless it starts with an identifier. -/
theorem ofTokens_fails_iff (ts : List Token) :
    ((∃ f, ofTokens ts = .error f) ↔ ∃ i word, NamelessAt ts i word) ∧
      ∀ f, ofTokens ts = .error f →
        ∃ i word, NamelessAt ts i word ∧ (∀ j w, NamelessAt ts j w → i ≤ j) ∧
          f = .namelessAt i word ∧ i < ts.length ∧ (∃ d, ofTokens (ts.take i) = .ok d) ∧
          ∀ more : List Token, (∀ name, more.head? ≠ some (.identifier name)) →
            ofTokens (ts.take (i + 1) ++ more) = .error f := by
  refine ⟨⟨?_, ?_⟩, ?_⟩
  · rintro ⟨f, hf⟩
    obtain ⟨g, hg, -⟩ := exists_fault hf
    obtain ⟨read, hread⟩ := Script.exists_stopsAt hg
    exact ⟨_, _, namelessAt_iff.mpr hread.readAt⟩
  · rintro ⟨i, word, h⟩
    obtain ⟨g, hg, -⟩ := Script.exists_fault_of_readAt (namelessAt_iff.mp h)
    exact ⟨_, ofTokens_of_fault hg⟩
  · intro f hf
    obtain ⟨g, hg, rfl⟩ := exists_fault hf
    obtain ⟨read, htokens, hread, hnone, hmore⟩ := Script.exists_stopsAt hg
    have hlength : ts.length = read.length + g.behind.length + 1 := by
      rw [htokens, List.length_append, List.length_cons, Nat.add_assoc]
    have hfailure : failureOf ts g = .namelessAt read.length g.keyword := by
      rw [htokens, failureOf_append]
    have htake : ts.take read.length = read := by rw [htokens, List.take_left]
    have htake_keyword : ts.take (read.length + 1) = read ++ [.keyword g.keyword] := by
      rw [htokens, List.take_length_add_append]
      rfl
    refine ⟨read.length, g.keyword, namelessAt_iff.mpr hread, fun j w hj => ?_, hfailure,
      by omega, ?_, fun more hname => ?_⟩
    · obtain ⟨g', hg', hle⟩ := Script.exists_fault_of_readAt (namelessAt_iff.mp hj)
      rw [hg] at hg'
      cases hg'
      omega
    · rw [htake]
      exact exists_ofTokens hnone
    · rw [htake_keyword, List.append_assoc, List.singleton_append,
        ofTokens_of_fault (hmore more hname), hfailure]
      exact congrArg _ (failureOf_append read ⟨g.keyword, more⟩)

/-- A keyword in a heading, one behind an arrow that leads nowhere, and one at the end. -/
def namelessTokens : List Token :=
  [.keyword "title", .keyword "participant", .newline, .identifier "A", .arrow "->",
    .keyword "actor", .newline, .keyword "participant"]

/-- The second of the three keywords is the error. -/
theorem ofTokens_fails_iff_sample :
    ofTokens namelessTokens = .error (.namelessAt 5 "actor") ∧ NamelessAt namelessTokens 5 "actor" ∧
      (∀ w, ¬NamelessAt namelessTokens 1 w) ∧ (∃ d, ofTokens (namelessTokens.take 5) = .ok d) ∧
        ofTokens (namelessTokens.take 6 ++ [.string "B"]) = .error (.namelessAt 5 "actor") := by
  have hfault : (Script.ofTokens namelessTokens).fault =
      some ⟨"actor", [.newline, .keyword "participant"]⟩ := by decide +kernel
  have hfails : ofTokens namelessTokens = .error (.namelessAt 5 "actor") := by
    rw [ofTokens_of_fault hfault]
    exact congrArg _ (failureOf_append (namelessTokens.take 5) ⟨"actor", namelessTokens.drop 6⟩)
  obtain ⟨i, word, hname, hfirst, hf, -, hbefore, hmore⟩ :=
    (ofTokens_fails_iff namelessTokens).2 _ hfails
  obtain rfl : i = 5 := by
    have hposition : some ((5 + 1 : Nat) : Int) = some ((i + 1 : Nat) : Int) :=
      congrArg ParseError.position (Failure.parse.inj hf)
    have := Option.some.inj hposition
    omega
  obtain rfl : "actor" = word := Token.keyword.inj (Option.some.inj hname.keyword)
  refine ⟨hfails, hname, fun w hw => ?_, hbefore, hmore [.string "B"] (by simp)⟩
  have := hfirst 1 w hw
  omega

end Diagram

end Lifeline
