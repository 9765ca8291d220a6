import Lifeline.Parse
import Lifeline.Proofs.DirectiveReading
import Lifeline.Proofs.Json.ReadBack

/-!
# Metadata is read from any text of its object

A directive that holds a text of an object is one token, whatever the members of the
object are and however they are written. The token keeps the last member of each of the
two names that count, if that member is a string, and the diagram says what the token says.
The text is delimited twice before it is read: by the first mark that closes a directive,
and by the braces at its two ends.
-/

namespace Lifeline

open Text

namespace Json

/-- The value belongs to the last member of that name. -/
def LastMember (name : String) (ms : List (String × Value)) (v : Value) : Prop :=
  ∃ before behind, ms = before ++ (name, v) :: behind ∧ ∀ m ∈ behind, m.1 ≠ name

/-- The member that counts is the last one. -/
theorem member?_eq_some_iff {name : String} {ms : List (String × Value)} {v : Value} :
    member? name ms = some v ↔ LastMember name ms v := by
  constructor
  · intro h
    obtain ⟨⟨name', v'⟩, hfind, rfl⟩ := Option.map_eq_some_iff.mp h
    obtain ⟨hname, front, back, hms, hfront⟩ := List.find?_eq_some_iff_append.mp hfind
    obtain rfl : name' = name := eq_of_beq hname
    refine ⟨back.reverse, front.reverse, ?_, fun m hm he => ?_⟩
    · have hreverse := congrArg List.reverse hms
      simpa using hreverse
    · have hno := hfront m (List.mem_reverse.mp hm)
      rw [he, beq_self_eq_true] at hno
      cases hno
  · rintro ⟨before, behind, rfl, hbehind⟩
    refine Option.map_eq_some_iff.mpr ⟨(name, v), ?_, rfl⟩
    refine List.find?_eq_some_iff_append.mpr
      ⟨beq_self_eq_true name, behind.reverse, before.reverse, by simp, fun m hm => ?_⟩
    have hno : (m.1 == name) = false := by simpa using hbehind m (List.mem_reverse.mp hm)
    rw [hno, Bool.not_false]

private theorem Value.string?_eq_some_iff {v : Value} {s : String} :
    v.string? = some s ↔ v = .string s := by
  cases v <;> simp [Value.string?]

/-- The character may stand for itself in a string. -/
def isPlain (c : Char) : Bool := decide (0x20 ≤ c.toNat) && c != '"' && c != '\\'

private theorem SpellsText.plain {s : List Char} (h : s.all isPlain = true) : SpellsText s s := by
  induction s with
  | nil => exact .nil
  | cons c s ih =>
    simp only [List.all_cons, isPlain, Bool.and_eq_true, decide_eq_true_eq, bne_iff_ne] at h
    obtain ⟨⟨⟨hcontrol, hquote⟩, hback⟩, hs⟩ := h
    exact .cons (.plain hcontrol hquote hback) (ih hs)

private theorem Spells.braces {t : List Char} {ms : List (String × Value)}
    (h : Spells t (.value (.object ms))) :
    t.head? = some '\x7b' ∧ t.getLast? = some '\x7d' := by
  cases h with
  | emptyObject => exact ⟨rfl, List.getLast?_concat⟩
  | object => exact ⟨rfl, List.getLast?_concat⟩

private theorem Spaces.isBlank {a : List Char} (ha : Spaces a) : ∀ c ∈ a, isBlank c = true := by
  intro c hc
  have hspace := ha c hc
  simp only [isSpace, Bool.or_eq_true, beq_iff_eq] at hspace
  exact isBlank_of_isWhitespace (by simp only [Char.isWhitespace]; grind)

end Json

variable {ms : List (String × Json.Value)}

/-- The metadata of an object is its last member of each name that counts, if that is a string. -/
theorem Metadata.ofMembers_eq_some_iff (ms : List (String × Json.Value)) (s : String) :
    ((ofMembers ms).system = some s ↔ Json.LastMember "system" ms (.string s)) ∧
      ((ofMembers ms).version = some s ↔ Json.LastMember "version" ms (.string s)) := by
  have hlast (name : String) : (Json.member? name ms).bind Json.Value.string? = some s ↔
      Json.LastMember name ms (.string s) := by
    simp only [Option.bind_eq_some_iff, Json.Value.string?_eq_some_iff, exists_eq_right,
      Json.member?_eq_some_iff]
  exact ⟨hlast "system", hlast "version"⟩

/-- The object that a directive holds is read, whatever its text. -/
theorem Directive.read_metadata {s : List Char} (h : Json.TextOf s (.object ms)) :
    read (Lexeme.blockDirective (['i', 'n', 'i', 't', ':', ' '] ++ s)).text =
      .ok (.metadata (.ofMembers ms)) := by
  obtain ⟨a, t, b, ha, ht, hb, rfl⟩ := h
  have hobject := objectText?_init ha.isBlank hb.isBlank ht.braces.1 ht.braces.2
  have hread : Json.read t = .ok (.object ms) :=
    Json.read_of_textOf ⟨[], t, [], by simp [Json.Spaces], ht, by simp [Json.Spaces], by simp⟩
  rw [read_blockDirective, hobject]
  dsimp only
  rw [readObject, hread]

/-- Metadata that is all of a source is what its diagram says about itself. -/
theorem Diagram.ofTokens_metadata (data : Metadata) :
    ∃ d, ofTokens [.metadata data] = .ok d ∧ d.system = data.system.getD "" ∧
      d.version = data.version.getD "" := by
  have hscript : Script.ofTokens [.metadata data] = ⟨[.metadata data], none⟩ := by
    rw [Script.ofTokens_cons, Statement.next]
    dsimp only
    rw [Script.ofTokens_nil, Script.prepend]
  have hlast (o : Option String) :
      lastText ((o.filter (!·.isEmpty)).toList) = o.getD "" := by
    cases o with
    | none => rfl
    | some s => by_cases hs : s = "" <;> simp [lastText, Option.filter, hs]
  refine ⟨_, by rw [ofTokens, hscript], ?_, ?_⟩
  · rw [← hlast data.system]
    cases h : data.system.filter (!·.isEmpty) <;>
      simp [inferParticipants, ofStatements, Statement.system?, h]
  · rw [← hlast data.version]
    cases h : data.version.filter (!·.isEmpty) <;>
      simp [inferParticipants, ofStatements, Statement.version?, h]

/-- A source that is a metadata directive around a text. -/
def metadataSource (object : String) : String := "%%\x7binit: " ++ object ++ "\x7d%%"

private theorem scan_metadataSource {object : String}
    (h : ¬Directive.terminator <:+: object.toList) :
    Lexeme.scan (metadataSource object).toList =
      some (.blockDirective (['i', 'n', 'i', 't', ':', ' '] ++ object.toList), []) := by
  have htext : (metadataSource object).toList =
      (Lexeme.blockDirective (['i', 'n', 'i', 't', ':', ' '] ++ object.toList)).text := by
    simp [metadataSource, Lexeme.text, Directive.terminator]
  have hfree : ¬Directive.terminator <:+: ['i', 'n', 'i', 't', ':', ' '] ++ object.toList := by
    simp only [List.cons_append, List.nil_append, List.infix_cons_iff, Directive.terminator,
      List.cons_prefix_cons]
    simpa [Directive.terminator] using h
  rw [htext, Lexeme.scan_blockDirective hfree]

/-- Metadata is carried to its token and to the diagram, whatever the object and its text. -/
theorem metadata_carried (ms : List (String × Json.Value)) (object : String)
    (hobject : Json.TextOf object.toList (.object ms))
    (hfree : ¬Directive.terminator <:+: object.toList) :
    ∃ data, tokenize (metadataSource object) = .ok [.metadata data] ∧
      (∀ s, data.system = some s ↔ Json.LastMember "system" ms (.string s)) ∧
      (∀ s, data.version = some s ↔ Json.LastMember "version" ms (.string s)) ∧
      ∃ d, parse (metadataSource object) = .ok d ∧
        d.system = data.system.getD "" ∧ d.version = data.version.getD "" := by
  have htoken : (Lexeme.blockDirective (['i', 'n', 'i', 't', ':', ' '] ++ object.toList)).token =
      .ok (.metadata (.ofMembers ms)) := by
    rw [Lexeme.token, Directive.read_metadata hobject]
    rfl
  have htokenize : tokenize (metadataSource object) = .ok [.metadata (.ofMembers ms)] := by
    rw [tokenize, Source.tokens, Source.lexemes_of_scan (scan_metadataSource hfree),
      Source.lexemes_nil, List.mapM_cons, htoken, List.mapM_nil]
    rfl
  refine ⟨.ofMembers ms, htokenize, fun s => (Metadata.ofMembers_eq_some_iff ms s).1,
    fun s => (Metadata.ofMembers_eq_some_iff ms s).2, ?_⟩
  rw [parse, htokenize]
  exact Diagram.ofTokens_metadata _

/-- An object that names its system twice, the second time with escapes, and whose version is no
string but holds a system of its own. -/
def sampleMembers : List (String × Json.Value) :=
  [("system", .string "x"),
    ("version", .array [.integer 0, .object [("system", .real "1e2")]]),
    ("system", .string "😀\x7d%")]

/-- A text of this object. -/
def sampleObject : String :=
  " \x7b\"system\":\"x\",\n\"version\":[-0, \x7b\"system\": 1e2\x7d] ,\"\\u0073ystem\" :" ++
    "\"\\uD83D\\ude00\x7d%\"\x7d\t"

private theorem Json.textOf_sampleObject : TextOf sampleObject.toList (.object sampleMembers) := by
  have hnone : Spaces [] := by simp [Spaces]
  have hblank : Spaces [' '] := by simp [Spaces, isSpace]
  have hdigit {c : Char} (hc : c.isDigit = true) : Digits [c] :=
    ⟨List.cons_ne_nil c [], List.forall_mem_singleton.mpr hc⟩
  have hone : Whole ['1'] := ⟨hdigit rfl, by decide⟩
  have hzero : Whole ['0'] := ⟨hdigit rfl, by decide⟩
  have hexponent : Exponent ('e' :: [] ++ ['2']) := .mark (.inl rfl) (.inl rfl) (hdigit rfl)
  have hreal := Spells.real false hone .missing hexponent (by decide)
  have hinteger := Spells.integer true hzero (by decide)
  have hname : SpellsText ['s', 'y', 's', 't', 'e', 'm'] ['s', 'y', 's', 't', 'e', 'm'] :=
    .plain rfl
  have hversion : SpellsText ['v', 'e', 'r', 's', 'i', 'o', 'n']
      ['v', 'e', 'r', 's', 'i', 'o', 'n'] := .plain rfl
  have hx : SpellsText ['x'] ['x'] := .plain rfl
  have hs : SpellsUnit ['0', '0', '7', '3'] 's'.toNat :=
    .intro (w := 0) (x := 0) (y := 7) (z := 3) ⟨by decide, .inl rfl⟩ ⟨by decide, .inl rfl⟩
      ⟨by decide, .inl rfl⟩ ⟨by decide, .inl rfl⟩
  have hescaped : SpellsText ('\\' :: 'u' :: ['0', '0', '7', '3'] ++ ['y', 's', 't', 'e', 'm'])
      ['s', 'y', 's', 't', 'e', 'm'] := .cons (.unit hs) (.plain rfl)
  have hhigh : SpellsUnit ['D', '8', '3', 'D'] 0xD83D :=
    .intro (w := 13) (x := 8) (y := 3) (z := 13) ⟨by decide, .inr rfl⟩ ⟨by decide, .inl rfl⟩
      ⟨by decide, .inl rfl⟩ ⟨by decide, .inr rfl⟩
  have hlow : SpellsUnit ['d', 'e', '0', '0'] 0xDE00 :=
    .intro (w := 13) (x := 14) (y := 0) (z := 0) ⟨by decide, .inl rfl⟩ ⟨by decide, .inl rfl⟩
      ⟨by decide, .inl rfl⟩ ⟨by decide, .inl rfl⟩
  have hpair := SpellsText.cons (.pair (c := '😀') hhigh hlow (by decide) (by decide) rfl)
    (.plain (s := ['\x7d', '%']) rfl)
  have hinner := Spells.object (.lastMember hnone hname hnone hblank hreal hnone)
  have harray := Spells.array (.item hnone hinteger hnone (.lastItem hblank hinner hnone))
  have hobject := Spells.object (.member hnone hname hnone hnone (.string hx) hnone
    (.member (a := ['\n']) (by simp [Spaces, isSpace]) hversion hnone hnone harray hblank
      (.lastMember hnone hescaped hblank hnone (.string hpair) hnone)))
  refine ⟨[' '], _, ['\t'], hblank, hobject, by simp [Spaces, isSpace], ?_⟩
  decide +kernel

/-- The last system counts, and a version that is no string is none. -/
theorem metadata_carried_sample :
    ∃ d, tokenize (metadataSource sampleObject) = .ok [.metadata ⟨some "😀\x7d%", none⟩] ∧
      parse (metadataSource sampleObject) = .ok d ∧ d.system = "😀\x7d%" ∧ d.version = "" := by
  have hfree : ¬Directive.terminator <:+: sampleObject.toList :=
    cut_eq_none_iff.mp (by decide +kernel)
  obtain ⟨⟨system, version⟩, htokenize, hsystem, hversion, d, hparse, hd⟩ :=
    metadata_carried sampleMembers sampleObject Json.textOf_sampleObject hfree
  obtain rfl : system = some "😀\x7d%" := (hsystem _).mpr ⟨sampleMembers.take 2, [], rfl, by simp⟩
  obtain rfl : version = none := by
    rw [Option.eq_none_iff_forall_ne_some]
    intro s hs
    have hlast := Json.member?_eq_some_iff.mpr ((hversion s).mp hs)
    simp [Json.member?, sampleMembers] at hlast
  exact ⟨d, htokenize, hparse, hd⟩

end Lifeline
