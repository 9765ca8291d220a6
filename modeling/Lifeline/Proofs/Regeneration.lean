import Lifeline.Proofs.LoudText
import Lifeline.Proofs.Script.Placed

/-!
# Generating the line of a message again

A message that was read need not be read back from the line that is generated for
it: the text has lost its quotes. Its annotations come back if the text is text
and nothing else and every value fits into brackets. Behind a text that is more
than that they only come back if there are none, or if the tags in the text, with
those that are written behind them, say the same.
-/

namespace Lifeline

open Text

/-- What stands behind the colon of a message can be read, its annotations make up the record, and
no further message is read behind them. -/
def ReadsBehind (s : List Char) (r : Annotations) : Prop :=
  ∃ ts, Source.tokens s = .ok ts ∧ Annotations.ofList (Statement.tagRun ts) = r ∧
    (Script.ofTokens (Statement.behindTags ts)).fault = none ∧
    (Script.ofTokens (Statement.behindTags ts)).messages = []

namespace Statement

/-- The tags in a text and those that are written behind it make up the record. Where the text ends
with its tags, the written ones go on with them; where more stands behind its tags, they count
alone, and neither a message nor a fault comes from the rest. -/
def TagsMake (ts : List Token) (written : List Tag) (r : Annotations) : Prop :=
  if behindTags ts = [] then Annotations.ofList (tagRun ts ++ written) = r
  else Annotations.ofList (tagRun ts) = r ∧
    (Script.ofTokens (behindTags ts ++ written.map Token.tag)).fault = none ∧
    (Script.ofTokens (behindTags ts ++ written.map Token.tag)).messages = []

end Statement

namespace Source

variable {s t : List Char}

/-- The source ends with its last lexeme, whatever follows it. -/
def Sealed (s : List Char) : Prop := Closed s ∧ ¬FillsLastLine s

/-- The source holds nothing but text, whatever follows it. -/
def Quiet (s : List Char) : Prop := ∀ l ∈ lexemes s, l.isQuiet = true

/-- A quiet source ends with its last lexeme. -/
theorem Quiet.sealed (h : Quiet s) : Sealed s := by
  refine ⟨fun l hl => (Lexeme.isQuiet_iff.mp (h l hl)).2.1, ?_⟩
  rintro ⟨l, hl, hf⟩
  have hquiet := Lexeme.isQuiet_iff.mp (h l (List.mem_of_getLast? hl))
  rw [hquiet.2.2] at hf
  cases hf

/-- What follows a sealed source is scanned by itself. -/
theorem Sealed.lexemes_append (h : Sealed s) (ht : Parted t) :
    lexemes (s ++ t) = lexemes s ++ lexemes t :=
  Source.lexemes_append h.1 ht fun hf => absurd hf h.2

/-- So it is read only if the sealed source is. -/
theorem Sealed.exists_tokens (h : Sealed s) (ht : Parted t) {ts : List Token}
    (hts : tokens (s ++ t) = .ok ts) : ∃ us, tokens s = .ok us := by
  rw [tokens_of_lexemes (h.lexemes_append ht)] at hts
  cases hus : tokens s with
  | ok us => exact ⟨us, rfl⟩
  | error e => rw [hus] at hts; cases hts

private theorem Quiet.isMessageText (h : Quiet s) {ts : List Token} (hts : tokens s = .ok ts) :
    ∀ t ∈ ts, Statement.isMessageText t = true := by
  intro t ht
  obtain ⟨l, hl, hlt⟩ := exists_lexeme_of_mem hts ht
  rw [(Lexeme.spec_of_token hlt).2]
  exact (Lexeme.isQuiet_iff.mp (h l hl)).1

end Source

namespace Annotations

variable {r : Annotations} {s : List Char}

/-- Annotations that fit into brackets are tags behind the tokens of a sealed text. -/
theorem Balanced.tokens_append (hb : r.Balanced) (hs : Source.Sealed s) {ts : List Token}
    (hts : Source.tokens s = .ok ts) :
    Source.tokens (s ++ Lexeme.spaced r.marks) = .ok (ts ++ r.items.map Token.tag) := by
  have hmarks : Source.tokens (Lexeme.spaced r.marks) = .ok (r.items.map Token.tag) := by
    rw [Source.tokens, Source.lexemes_spaced hb.alone, r.mapM_token_marks]
  rw [Source.tokens_of_lexemes (hs.lexemes_append (Lexeme.parted_spaced r.marks)), hts, hmarks]
  rfl

/-- Behind a sealed text, annotations that fit into brackets are read back exactly if the text has
tokens and its tags and the written ones make up the record. -/
theorem Balanced.readsBehind_iff (hb : r.Balanced) (hs : Source.Sealed s) :
    ReadsBehind (s ++ Lexeme.spaced r.marks) r ↔
      ∃ ts, Source.tokens s = .ok ts ∧ Statement.TagsMake ts r.items r := by
  have hmake {ts : List Token} (hts : Source.tokens s = .ok ts) :
      ReadsBehind (s ++ Lexeme.spaced r.marks) r ↔ Statement.TagsMake ts r.items r := by
    rw [ReadsBehind, hb.tokens_append hs hts, Statement.TagsMake]
    split
    · next hnil =>
      obtain ⟨hrun, hbehind⟩ := Statement.tagRun_append_of_nil r.items hnil
      simp [hrun, hbehind, Script.ofTokens_nil, Script.messages]
    · next hne =>
      obtain ⟨hrun, hbehind⟩ := Statement.tagRun_append_of_ne_nil r.items hne
      simp [hrun, hbehind]
  constructor
  · intro h
    obtain ⟨all, hall, -⟩ := id h
    obtain ⟨ts, hts⟩ := hs.exists_tokens (Lexeme.parted_spaced r.marks) hall
    exact ⟨ts, hts, (hmake hts).mp h⟩
  · rintro ⟨ts, hts, h⟩
    exact (hmake hts).mpr h

/-- Behind a quiet text the annotations of a record are read back exactly if the text has tokens
and every value fits into brackets. -/
theorem Normal.readsBehind_iff_of_quiet (hr : r.Normal) (hs : Source.Quiet s) :
    ReadsBehind (s ++ Lexeme.spaced r.marks) r ↔
      (∃ ts, Source.tokens s = .ok ts) ∧ r.Balanced := by
  have hparted := Lexeme.parted_spaced r.marks
  constructor
  · rintro ⟨ts, hts, hrecord, -, -⟩
    refine ⟨hs.sealed.exists_tokens hparted hts, balanced_of_tagRun ?_⟩
    rwa [Lexeme.tagRun_of_mapM hts, hs.sealed.lexemes_append hparted,
      Lexeme.tagRun_append fun l hl => (Lexeme.isQuiet_iff.mp (hs l hl)).1] at hrecord
  · rintro ⟨⟨ts, hts⟩, hb⟩
    obtain ⟨hrun, hbehind⟩ := Statement.tagRun_text (hs.isMessageText hts) r.items
    refine ⟨_, hb.tokens_append hs.sealed hts, ?_, ?_, ?_⟩
    · rw [hrun, hr.ofList_items]
    · rw [hbehind, Script.ofTokens_nil]
    · rw [hbehind, Script.ofTokens_nil]
      rfl

/-- Behind a text that goes on into what follows, or that ends its line, the annotations of a
record are read back exactly if it has none and the text is read by itself. -/
theorem readsBehind_iff_of_loud {l : Lexeme}
    (hl : (Source.lexemes s).find? (!·.isQuiet) = some l) (ht : l.tag? = none) :
    ReadsBehind (s ++ Lexeme.spaced r.marks) r ↔ r = {} ∧ ReadsBehind s {} := by
  have hempty : s ++ Lexeme.spaced ({} : Annotations).marks = s := List.append_nil s
  constructor
  · intro h
    have hr : r = {} := by
      obtain ⟨ts, hts, hrecord, -, -⟩ := h
      rw [Lexeme.tagRun_of_mapM hts] at hrecord
      exact eq_empty_of_loud hl ht hrecord
    subst hr
    rw [hempty] at h
    exact ⟨rfl, h⟩
  · rintro ⟨rfl, h⟩
    rwa [hempty]

end Annotations

namespace Message

/-- The line that is generated for a message is read as one message, with the annotations of the
message. -/
def Regenerates (m : Message) : Prop :=
  ∃ d, parse m.line = .ok d ∧ d.messages.map Message.annotations = [m.annotations]

instance (m : Message) : Decidable m.Regenerates :=
  match h : parse m.line with
  | .ok d =>
    decidable_of_iff (d.messages.map Message.annotations = [m.annotations])
      (by simp [Regenerates, h])
  | .error _ => .isFalse (by simp [Regenerates, h])

/-- The annotations of a message can be read back from behind its text. Where the text is text and
nothing else, it has tokens and the values fit into brackets. Where a tag is the first to end the
text, its tags and the written ones make up the record, if the text is sealed and the values fit;
otherwise nothing less than reading both together decides, as a tag that is left open takes in what
is written, and a tag in the text may make up for a value that does not fit. Where anything else is
the first, there are no annotations. -/
def Recoverable (m : Message) : Prop :=
  match (Source.lexemes m.text.toList).find? (!·.isQuiet) with
  | none => (∃ ts, Source.tokens m.text.toList = .ok ts) ∧ m.annotations.Balanced
  | some l =>
    if l.tag?.isSome then
      (Source.Sealed m.text.toList ∧ m.annotations.Balanced → ∃ ts,
        Source.tokens m.text.toList = .ok ts ∧
          Statement.TagsMake ts m.annotations.items m.annotations) ∧
      (¬(Source.Sealed m.text.toList ∧ m.annotations.Balanced) →
        ReadsBehind (m.text.toList ++ Lexeme.spaced m.annotations.marks) m.annotations)
    else m.annotations = {} ∧ ReadsBehind m.text.toList {}

variable {m : Message}

/-- A line is read by what stands behind its ends. -/
theorem regenerates_iff_readsBehind (hs : IsName m.source) (ht : IsName m.target) :
    m.Regenerates ↔
      ReadsBehind (m.text.toList ++ Lexeme.spaced m.annotations.marks) m.annotations := by
  have htokens := m.tokens_lineChars hs ht
  have hread : m.Regenerates ↔ ∃ messages, ReadsAs m.lineChars messages ∧
      messages.map Message.annotations = [m.annotations] := by
    constructor
    · rintro ⟨d, hd, hm⟩
      exact ⟨_, ⟨d, hd, rfl⟩, hm⟩
    · rintro ⟨_, ⟨d, hd, rfl⟩, hm⟩
      exact ⟨d, hd, hm⟩
  rw [hread]
  cases hts : Source.tokens (m.text.toList ++ Lexeme.spaced m.annotations.marks) with
  | error e =>
    rw [hts] at htokens
    constructor
    · rintro ⟨messages, hmessages, -⟩
      obtain ⟨all, hall, -⟩ := readsAs_iff.mp hmessages
      rw [htokens] at hall
      cases hall
    · rintro ⟨ts, hbehind, -⟩
      rw [hts] at hbehind
      cases hbehind
  | ok ts =>
    rw [hts] at htokens
    constructor
    · rintro ⟨messages, hmessages, hm⟩
      obtain ⟨all, hall, hfault, rfl⟩ := readsAs_iff.mp hmessages
      cases htokens.symm.trans hall
      rw [Script.ofTokens_ends] at hfault hm
      obtain ⟨hrecord, hrest⟩ := List.cons.inj hm
      exact ⟨ts, hts, hrecord, hfault, List.map_eq_nil_iff.mp hrest⟩
    · rintro ⟨us, hus, hrecord, hfault, hrest⟩
      cases hts.symm.trans hus
      refine ⟨_, readsAs_iff.mpr ⟨_, htokens, ?_, rfl⟩, ?_⟩
      · rw [Script.ofTokens_ends]
        exact hfault
      · rw [Script.ofTokens_ends]
        exact congrArg₂ List.cons hrecord (List.map_eq_nil_iff.mpr hrest)

end Message

/-- The ends of a message that was read are names, and its annotations are read back from
themselves. -/
theorem normal_of_mem_messages {source : String} {d : Diagram} (h : parse source = .ok d)
    {m : Message} (hm : m ∈ d.messages) :
    IsName m.source ∧ IsName m.target ∧ m.annotations.Normal := by
  have hread : ReadsAs source.toList d.messages := ⟨d, by rwa [String.ofList_toList], rfl⟩
  obtain ⟨ts, hts, -, hmessages⟩ := readsAs_iff.mp hread
  rw [← hmessages] at hm
  obtain ⟨⟨i, arrow, behind, hd⟩, tags, htags⟩ := Script.exists_ends_of_mem_messages hm
  have hmem {t : Token} (ht : t ∈ ts.drop i) : t ∈ ts := List.mem_of_mem_drop ht
  rw [hd] at hmem
  rw [htags]
  exact ⟨Source.isName_of_mem hts (hmem (by simp)), Source.isName_of_mem hts (hmem (by simp)),
    Annotations.normal_ofList tags⟩

/-- The annotations of a message that was read come back from its line exactly if they can be read
back from behind its text. -/
theorem regenerates_iff {source : String} {d : Diagram} (h : parse source = .ok d) {m : Message}
    (hm : m ∈ d.messages) : m.Regenerates ↔ m.Recoverable := by
  obtain ⟨hs, ht, hr⟩ := normal_of_mem_messages h hm
  rw [Message.regenerates_iff_readsBehind hs ht, Message.Recoverable]
  split
  · next hquiet =>
    have hq : Source.Quiet m.text.toList := fun l hl => by
      simpa using List.find?_eq_none.mp hquiet l hl
    exact hr.readsBehind_iff_of_quiet hq
  · next l hloud =>
    split
    · by_cases h : Source.Sealed m.text.toList ∧ m.annotations.Balanced
      · simp only [h, h.2.readsBehind_iff h.1, not_true_eq_false, forall_const, false_implies,
          and_true, and_self]
      · simp only [h, false_implies, true_and, not_false_eq_true, forall_const]
    · next htag => exact Annotations.readsBehind_iff_of_loud hloud (by simpa using htag)

/-- The message of a source with quotes in its text and brackets in its values comes back. -/
theorem regenerates_iff_sample :
    ∃ d, parse "A->>B: say \"hi (there\" @timeout(a (b) c) @queue\x7b)\x7d" = .ok d ∧
      ∃ m ∈ d.messages, m.Regenerates ∧ m.Recoverable := by
  obtain ⟨d, hd, hm⟩ : ReadsAs
      "A->>B: say \"hi (there\" @timeout(a (b) c) @queue\x7b)\x7d".toList
      [⟨"A", "B", ⟨.solid, .filled⟩, "say hi (there",
        { timeout := some "a (b) c", queue := some ")" }⟩] := by decide +kernel
  rw [String.ofList_toList] at hd
  refine ⟨d, hd, _, by rw [hm]; exact List.mem_singleton_self _, ?_⟩
  have hregenerates : Message.Regenerates ⟨"A", "B", ⟨.solid, .filled⟩, "say hi (there",
      { timeout := some "a (b) c", queue := some ")" }⟩ := by decide +kernel
  exact ⟨hregenerates,
    (regenerates_iff hd (by rw [hm]; exact List.mem_singleton_self _)).mp hregenerates⟩

/-- A tag that stood in quotes becomes an annotation of its message when the line of the message is
generated again. -/
theorem not_regenerates_async :
    ∃ d, parse "A->B: \"@async\"" = .ok d ∧ ∃ m ∈ d.messages, ¬m.Regenerates := by
  obtain ⟨d, hd, hm⟩ : ReadsAs "A->B: \"@async\"".toList
      [⟨"A", "B", ⟨.solid, .stroked⟩, "@async", {}⟩] := by decide +kernel
  rw [String.ofList_toList] at hd
  refine ⟨d, hd, _, by rw [hm]; exact List.mem_singleton_self _, ?_⟩
  decide +kernel

end Lifeline
