import Lifeline.Proofs.AnnotationRecord
import Lifeline.Proofs.LineReading
import Lifeline.Proofs.Scan.Written

/-!
# Reading the line of a message

The line of a message is scanned as its ends, its text and the annotations written
for it. Where the text is made of names and every value fits into brackets, the
line is read as that message and nothing else.
-/

namespace Lifeline

open Text

namespace Annotations

/-- Every value that is written is balanced for one kind of bracket. -/
def Balanced (r : Annotations) : Prop :=
  ∀ f, ∀ v ∈ r.valueText? f, Bracket.round.balanced v = true ∨ Bracket.curly.balanced v = true

/-- The lexemes written for a field. -/
theorem mem_mark {r : Annotations} {f : Field} {l : Lexeme} (h : l ∈ r.mark f) :
    ∃ v ∈ r.valueText? f,
      l = .tag f.name.toList (some ((preferred f).choose v, ⟨v, true⟩)) := by
  rw [mark] at h
  cases hv : r.valueText? f with
  | none => simp [hv] at h
  | some v => exact ⟨v, rfl, by simpa [hv] using h⟩

/-- The lexemes written for a record are the mark of an asynchronous message and those of its
fields. -/
theorem mem_marks {r : Annotations} {l : Lexeme} (h : l ∈ r.marks) :
    l = .tag ['a', 's', 'y', 'n', 'c'] none ∨ ∃ f, l ∈ r.mark f := by
  simp only [marks, List.mem_append] at h
  rcases h with (((((((h | h) | h) | h) | h) | h) | h) | h)
  · exact .inr ⟨_, h⟩
  · exact .inr ⟨_, h⟩
  · rw [asyncMark] at h
    split at h
    · exact .inl (List.mem_singleton.mp h)
    · cases h
  · exact .inr ⟨_, h⟩
  · exact .inr ⟨_, h⟩
  · exact .inr ⟨_, h⟩
  · exact .inr ⟨_, h⟩
  · exact .inr ⟨_, h⟩

theorem isWordChar_name (f : Field) : ∀ c ∈ f.name.toList, isWordChar c = true := by
  cases f <;> exact List.all_eq_true.mp rfl

/-- Every lexeme written for a record stands alone if the values are balanced. -/
theorem Balanced.alone {r : Annotations} (h : r.Balanced) : ∀ l ∈ r.marks, l.Alone := by
  intro l hl
  rcases mem_marks hl with rfl | ⟨f, hf⟩
  · exact Lexeme.alone_tag_none (List.all_eq_true.mp rfl)
  · obtain ⟨v, hv, rfl⟩ := mem_mark hf
    exact Lexeme.alone_tag (isWordChar_name f) ((Bracket.balanced_choose _ v).mpr (h f v hv))

/-- The lexemes written for a record are tags. -/
theorem tag?_of_mem_marks {r : Annotations} {l : Lexeme} (h : l ∈ r.marks) :
    ∃ item, l.tag? = some item ∧ l.token = .ok (.tag item) := by
  rcases mem_marks h with rfl | ⟨f, hf⟩
  · exact ⟨_, rfl, rfl⟩
  · obtain ⟨v, -, rfl⟩ := mem_mark hf
    exact ⟨_, rfl, rfl⟩

/-- Their tokens are the annotations of the record. -/
theorem mapM_token_marks (r : Annotations) :
    r.marks.mapM Lexeme.token = .ok (r.items.map Token.tag) := by
  have htags (ls : List Lexeme)
      (h : ∀ l ∈ ls, ∃ item, l.tag? = some item ∧ l.token = .ok (.tag item)) :
      ls.mapM Lexeme.token = .ok ((ls.filterMap Lexeme.tag?).map Token.tag) := by
    induction ls with
    | nil => rfl
    | cons l ls ih =>
      obtain ⟨item, ht, hl⟩ := h l List.mem_cons_self
      rw [List.mapM_cons, hl, ih fun m hm => h m (List.mem_cons_of_mem l hm),
        List.filterMap_cons_some ht]
      rfl
  exact htags r.marks fun l hl => tag?_of_mem_marks hl

end Annotations

namespace Statement

/-- The annotations that stand behind the text of a message. -/
def tagRun (ts : List Token) : List Tag :=
  ((ts.dropWhile isMessageText).takeWhile (·.tag?.isSome)).filterMap Token.tag?

/-- The tokens behind those annotations. -/
def behindTags (ts : List Token) : List Token :=
  (ts.dropWhile isMessageText).dropWhile (·.tag?.isSome)

end Statement

/-- Two names with an arrow between them and a colon behind them start a message. -/
theorem Script.ofTokens_ends (source arrow target : String) (ts : List Token) :
    ofTokens (.identifier source :: .arrow arrow :: .identifier target :: .colon :: ts) =
      (ofTokens (Statement.behindTags ts)).prepend
        (.message source arrow target (Statement.textOf (ts.takeWhile Statement.isMessageText))
          (Statement.tagRun ts)) := by
  rw [ofTokens_cons]
  rfl

namespace Message

/-- What the line of a message is made of. -/
theorem lineChars_eq (m : Message) :
    m.lineChars = m.source.toList ++ (m.arrow.chars ++ (m.target.toList ++
      ':' :: ' ' :: (m.text.toList ++ Lexeme.spaced m.annotations.marks))) := by
  rw [lineChars, ← Annotations.map_text_marks, Lexeme.joinWith_map_text, head]
  simp

/-- The tokens of the line of a message are its ends and what its text and its annotations give. -/
theorem tokens_lineChars {m : Message} (hs : IsName m.source) (ht : IsName m.target) :
    Source.tokens m.lineChars =
      (Source.tokens (m.text.toList ++ Lexeme.spaced m.annotations.marks)).map fun ts =>
        .identifier m.source :: .arrow m.arrow.literal :: .identifier m.target :: .colon :: ts := by
  rw [lineChars_eq, Source.tokens, Source.lexemes_ends hs ht, Source.lexemes_space, List.mapM_cons,
    hs.token, List.mapM_cons, List.mapM_cons, ht.token, List.mapM_cons, ← Source.tokens]
  cases Source.tokens (m.text.toList ++ Lexeme.spaced m.annotations.marks) <;> rfl

/-- The message could have been written by hand: its ends are names, its text is made of names, its
annotations are read back from themselves, and their values fit into brackets. -/
structure Normal (m : Message) : Prop where
  source : IsName m.source
  target : IsName m.target
  text : ∃ words : List String, (∀ w ∈ words, IsName w) ∧
    m.text.toList = joinWith [' '] (words.map String.toList)
  annotations : m.annotations.Normal
  balanced : m.annotations.Balanced

end Message

/-- A name is not empty. -/
theorem IsName.ne_nil {name : String} (h : IsName name) : name.toList ≠ [] := by
  obtain ⟨c, hc, -⟩ := h.start
  intro hn
  rw [hn] at hc
  cases hc

/-- There are no blanks around a name. -/
theorem IsName.trimmed {name : String} (h : IsName name) : Trimmed name.toList := by
  refine Trimmed.of_forall fun c hc => ?_
  rw [Bool.eq_false_iff]
  intro hb
  simpa [Lexeme.isWordChar_of_isBlank hb] using h.letters c hc

private theorem trimmed_joinWith {words : List String} (h : ∀ w ∈ words, IsName w) :
    Trimmed (joinWith [' '] (words.map String.toList)) := by
  induction words with
  | nil => exact trimmed_nil
  | cons w words ih =>
    have hw := h w List.mem_cons_self
    by_cases hwords : words = []
    · subst hwords
      exact hw.trimmed
    · have hrest := fun x hx => h x (List.mem_cons_of_mem w hx)
      have hmap : words.map String.toList ≠ [] := by simpa using hwords
      have hne : joinWith [' '] (words.map String.toList) ≠ [] := by
        obtain ⟨x, xs, rfl⟩ := List.exists_cons_of_ne_nil hwords
        rw [List.map_cons, joinWith_space]
        exact List.append_ne_nil_of_left_ne_nil (hrest x List.mem_cons_self).ne_nil _
      rw [List.map_cons, joinWith_cons _ hmap]
      exact hw.trimmed.append (ih hrest) hw.ne_nil hne [' ']

private theorem alone_of_isName {words : List String} (h : ∀ w ∈ words, IsName w) :
    ∀ l ∈ words.map fun w => Lexeme.word w.toList, l.Alone := by
  intro l hl
  obtain ⟨w, hw, rfl⟩ := List.mem_map.mp hl
  exact Lexeme.alone_word (h w hw).start (h w hw).letters

private theorem mapM_token_of_isName {words : List String} (h : ∀ w ∈ words, IsName w) :
    (words.map fun w => Lexeme.word w.toList).mapM Lexeme.token =
      .ok (words.map Token.identifier) := by
  induction words with
  | nil => rfl
  | cons w words ih =>
    rw [List.map_cons, List.mapM_cons, (h w List.mem_cons_self).token,
      ih fun x hx => h x (List.mem_cons_of_mem w hx)]
    rfl

/-- Names with annotations behind them are scanned as identifiers and tags. -/
theorem tokens_names {words : List String} (h : ∀ w ∈ words, IsName w) {r : Annotations}
    (hr : r.Balanced) :
    Source.tokens (joinWith [' '] (words.map String.toList) ++ Lexeme.spaced r.marks) =
      .ok (words.map Token.identifier ++ r.items.map Token.tag) := by
  have hlexemes : Source.lexemes
      (joinWith [' '] (words.map String.toList) ++ Lexeme.spaced r.marks) =
      (words.map fun w => Lexeme.word w.toList) ++ r.marks := by
    cases words with
    | nil => exact Source.lexemes_spaced hr.alone
    | cons w words =>
      have hjoin : joinWith [' '] ((w :: words).map String.toList) =
          (Lexeme.word w.toList).text ++
            Lexeme.spaced (words.map fun w => Lexeme.word w.toList) := by
        rw [List.map_cons, joinWith_space, Lexeme.spaced, List.flatMap_map, List.flatMap_map]
        rfl
      have halone := alone_of_isName h
      have hrest : ∀ l ∈ (words.map fun w => Lexeme.word w.toList) ++ r.marks, l.Alone := by
        intro l hl
        rcases List.mem_append.mp hl with hl | hl
        · exact halone l (List.mem_cons_of_mem _ hl)
        · exact hr.alone l hl
      rw [hjoin, List.append_assoc, ← Lexeme.spaced_append,
        Source.lexemes_text_append (halone _ List.mem_cons_self) (Lexeme.parted_spaced _),
        Source.lexemes_spaced hrest]
      rfl
  rw [Source.tokens, hlexemes, List.mapM_append, mapM_token_of_isName h, r.mapM_token_marks]
  rfl

namespace Statement

variable {ts us : List Token} (hus : ∀ t ∈ us, isMessageText t = true) (items : List Tag)

/-- A tag does not belong to the text. -/
theorem isMessageText_of_head {t : Token} (ht : t ∈ (items.map Token.tag).head?) :
    isMessageText t = false := by
  obtain ⟨item, -, rfl⟩ := List.mem_map.mp (List.mem_of_mem_head? ht)
  rfl

private theorem isSome_tag?_of_mem : ∀ t ∈ items.map Token.tag, t.tag?.isSome = true := by
  intro t ht
  obtain ⟨item, -, rfl⟩ := List.mem_map.mp ht
  rfl

theorem dropWhile_append_tags : (ts ++ items.map Token.tag).dropWhile isMessageText =
    ts.dropWhile isMessageText ++ items.map Token.tag :=
  dropWhile_append_of_head fun _ => isMessageText_of_head items

/-- Tags behind tokens that end with tags go on with them. -/
theorem tagRun_append_of_nil (h : behindTags ts = []) :
    tagRun (ts ++ items.map Token.tag) = tagRun ts ++ items ∧
      behindTags (ts ++ items.map Token.tag) = [] := by
  have htags := List.dropWhile_eq_nil_iff.mp h
  constructor
  · rw [tagRun, dropWhile_append_tags, List.takeWhile_append_of_pos htags,
      List.takeWhile_eq_self_iff.mpr (isSome_tag?_of_mem items), List.filterMap_append,
      List.filterMap_map, tagRun, List.takeWhile_eq_self_iff.mpr htags]
    exact congrArg _ List.filterMap_some
  · rw [behindTags, dropWhile_append_tags, List.dropWhile_append_of_pos htags,
      List.dropWhile_eq_nil_iff]
    exact isSome_tag?_of_mem items

/-- Tags behind tokens in which more stands behind the first tags do not belong to these. -/
theorem tagRun_append_of_ne_nil (h : behindTags ts ≠ []) :
    tagRun (ts ++ items.map Token.tag) = tagRun ts ∧
      behindTags (ts ++ items.map Token.tag) = behindTags ts ++ items.map Token.tag := by
  constructor
  · rw [tagRun, dropWhile_append_tags, List.takeWhile_append, if_neg, tagRun]
    intro hlength
    refine h (List.dropWhile_eq_nil_iff.mpr (List.takeWhile_eq_self_iff.mp ?_))
    exact (List.takeWhile_prefix _).eq_of_length hlength
  · rw [behindTags, dropWhile_append_tags, List.dropWhile_append, if_neg, behindTags]
    exact fun hempty => h (List.isEmpty_iff.mp hempty)

include hus

private theorem takeWhile_text : (us ++ items.map Token.tag).takeWhile isMessageText = us :=
  takeWhile_append_eq hus fun _ => isMessageText_of_head items

/-- Behind a text, all the tags are read as annotations, and nothing stands behind them. -/
theorem tagRun_text : tagRun (us ++ items.map Token.tag) = items ∧
    behindTags (us ++ items.map Token.tag) = [] := by
  have hdrop : us.dropWhile isMessageText = [] := List.dropWhile_eq_nil_iff.mpr hus
  have hbehind : behindTags us = [] := by rw [behindTags, hdrop, List.dropWhile_nil]
  obtain ⟨hrun, hrest⟩ := tagRun_append_of_nil items hbehind
  refine ⟨?_, hrest⟩
  rw [hrun, tagRun, hdrop]
  rfl

omit hus

private theorem isMessageText_of_names {words : List String} :
    ∀ t ∈ words.map Token.identifier, isMessageText t = true := by
  intro t ht
  obtain ⟨w, -, rfl⟩ := List.mem_map.mp ht
  rfl

/-- The text of identifiers are their names with a space between each two. -/
theorem textOf_names (words : List String) :
    textOf (words.map Token.identifier) =
      String.ofList (trim (joinWith [' '] (words.map String.toList))) := by
  have hnames : (words.map Token.identifier).filterMap Token.text? = words := by
    rw [List.filterMap_map]
    exact List.filterMap_some
  rw [textOf, hnames]

end Statement

namespace Message

/-- The ends of a message as participants; a message to its own source has one end. -/
def ends (m : Message) : List Participant :=
  if m.source = m.target then [.bare m.source] else [.bare m.source, .bare m.target]

/-- The ends of the only message become the participants. -/
theorem inferParticipants_singleton (m : Message) :
    Diagram.inferParticipants { messages := [m] } =
      { messages := [m], participants := m.ends } := by
  rw [Diagram.inferParticipants, ends]
  simp only [Diagram.endpoints, List.flatMap_singleton, List.map_cons, List.map_nil]
  split
  · next he => simp [Registry.addAll, Registry.add, Registry.knows, Participant.bare, he]
  · next he => simp [Registry.addAll, Registry.add, Registry.knows, Participant.bare, he]

/-- The line of a normal message is read as this message and nothing else; its participants are the
ends of the message. -/
theorem Normal.parse_line {m : Message} (h : m.Normal) :
    parse m.line = .ok { messages := [m], participants := m.ends } := by
  obtain ⟨words, hwords, htext⟩ := h.text
  have htokens := m.tokens_lineChars h.source h.target
  rw [htext, tokens_names hwords h.balanced] at htokens
  have hmessage : (Statement.message m.source m.arrow.literal m.target m.text
      m.annotations.items).message? = some m := by
    rw [Statement.message?, Arrow.ofLiteral_literal, h.annotations.ofList_items]
  have hscript : Script.ofTokens (.identifier m.source :: .arrow m.arrow.literal ::
      .identifier m.target :: .colon ::
        (words.map Token.identifier ++ m.annotations.items.map Token.tag)) =
      ⟨[.message m.source m.arrow.literal m.target m.text m.annotations.items], none⟩ := by
    have hnames : ∀ t ∈ words.map Token.identifier, Statement.isMessageText t = true :=
      Statement.isMessageText_of_names
    obtain ⟨hrun, hbehind⟩ := Statement.tagRun_text hnames m.annotations.items
    rw [Script.ofTokens_ends, Statement.takeWhile_text hnames,
      Statement.textOf_names, hrun, hbehind, Script.ofTokens_nil,
      (trimmed_joinWith hwords).trim_eq, ← htext, String.ofList_toList]
    rfl
  have hdiagram : Diagram.ofStatements [.message m.source m.arrow.literal m.target m.text
      m.annotations.items] = { messages := [m] } := by
    rw [Diagram.ofStatements, List.filterMap_cons_some hmessage]
    rfl
  rw [parse, tokenize, line, String.toList_ofList, htokens]
  simp only [Except.map, bind, Except.bind, Diagram.ofTokens, hscript]
  rw [hdiagram, inferParticipants_singleton]

/-- A message with all annotations, among them values with quotes, tags, directives, line ends and
brackets of both kinds. -/
def sample : Message where
  source := "Client"
  target := "API_2"
  arrow := ⟨.dashed, .filled⟩
  text := "list all users"
  annotations :=
    { path := some "/users/\x7bid\x7d", method := some "GET", requestType := some "JSON",
      isAsync := true, timeout := some "5 \"s\" @sync", queue := some "a) -> b",
      flows := ["happy path", "%% retry"], request := some (.inline (some "(\x7b\n\"q\": 1\x7d")),
      response := some (.reference (some "#ok")) }

private theorem normal_sample : sample.Normal where
  source := by decide
  target := by decide
  text := ⟨["list", "all", "users"], by decide, rfl⟩
  annotations :=
    { path := ⟨by decide, by decide +kernel⟩
      requestType := by decide +kernel
      flows := by
        intro f hf
        simp only [sample, List.mem_cons, List.not_mem_nil, or_false] at hf
        rcases hf with rfl | rfl
        · exact ⟨by decide, trimmed_iff.mpr (by decide), by decide⟩
        · exact ⟨by decide, trimmed_iff.mpr (by decide), by decide⟩
      request := by decide
      response := by decide }
  balanced := by
    intro f
    cases f <;> decide +kernel

/-- The line of the sample is read as the sample. -/
theorem parse_line_sample :
    sample.Normal ∧ parse sample.line = .ok { messages := [sample], participants := sample.ends } :=
  ⟨normal_sample, normal_sample.parse_line⟩

end Message

end Lifeline
