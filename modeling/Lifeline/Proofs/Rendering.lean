import Lifeline.Proofs.Json.Written
import Lifeline.Proofs.Scan.Tiling
import Lifeline.View

/-!
# What a rendering tells

A rendering is one value that is read back as it was written, so the layout says
nothing: renderings of a source with other indentations describe the same data. The
shapes on the wire tell all that tokens, spans and diagrams hold. So two sources are
rendered alike exactly if what is shown of them is the same.
-/

namespace Lifeline

open Json (Value ItemsReadable MembersReadable)

section Injective

theorem Json.Value.ofString?_injective : Function.Injective Value.ofString? := by
  intro s t h
  cases s <;> cases t <;> simp_all [Value.ofString?]

private theorem Token.Kind.ofWord_word (k : Kind) : ofWord k.word = .ok k := by
  cases k <;> rfl

/-- A kind of token can be told from its word. -/
theorem Token.Kind.word_injective : Function.Injective Kind.word := by
  intro k k' h
  have hread := ofWord_word k
  rw [h, ofWord_word] at hread
  exact (Except.ok.inj hread).symm

theorem Metadata.toJson_injective : Function.Injective Metadata.toJson := by
  rintro ⟨system, version⟩ ⟨system', version'⟩ h
  cases system <;> cases version <;> cases system' <;> cases version' <;> simp_all [toJson]

/-- A flow can be told from its value. -/
theorem Flow.toJson_injective : Function.Injective Flow.toJson := by
  rintro ⟨id, name, color⟩ ⟨id', name', color'⟩ h
  simpa [toJson, Value.ofString?_injective.eq_iff] using h

/-- A token can be told from its value: its kind from the first member, and what it carries from the
others. -/
theorem Token.toJson_injective : Function.Injective Token.toJson := by
  intro t u h
  obtain ⟨htype, hmembers⟩ := List.cons.inj (Value.object.inj h)
  have hkind : t.kind = u.kind :=
    Kind.word_injective (Value.string.inj (congrArg Prod.snd htype))
  cases t <;> cases u <;> cases hkind
  case tag.tag a b =>
    obtain ⟨name, value⟩ := a
    obtain ⟨name', value'⟩ := b
    simpa [Value.ofString?_injective.eq_iff] using hmembers
  case metadata.metadata a b =>
    have hdata : a.toJson = b.toJson := by simpa using hmembers
    rw [Metadata.toJson_injective hdata]
  case flow.flow f g =>
    have hentry : f.toJson = g.toJson := congrArg Value.object hmembers
    rw [Flow.toJson_injective hentry]
  all_goals simp_all

theorem Span.toJson_injective : Function.Injective Span.toJson := by
  rintro ⟨kind, text, start, stop⟩ ⟨kind', text', start', stop'⟩ h
  simpa [toJson, Token.Kind.word_injective.eq_iff, Int.natCast_inj] using h

theorem Arrow.toJson_injective : Function.Injective Arrow.toJson := by
  rintro ⟨line, head⟩ ⟨line', head'⟩ h
  cases line <;> cases head <;> cases line' <;> cases head' <;>
    simp_all [toJson, LineStyle.word, ArrowHead.word]

theorem Payload.toJson_injective : Function.Injective Payload.toJson := by
  intro p q h
  cases p <;> cases q <;>
    simp_all [toJson, Kind.word, Value.ofString?_injective.eq_iff]

/-- A payload, or nothing, can be told from its value. -/
theorem Payload.toJson?_injective : Function.Injective Payload.toJson? := by
  intro p q h
  cases p with
  | none =>
    cases q with
    | none => rfl
    | some q => cases q <;> simp [toJson?, toJson] at h
  | some p =>
    cases q with
    | none => cases p <;> simp [toJson?, toJson] at h
    | some q => exact congrArg some (toJson_injective h)

/-- A record of annotations can be told from its value. -/
theorem Annotations.toJson_injective : Function.Injective Annotations.toJson := by
  rintro ⟨path, method, type, async, timeout, queue, flows, request, response⟩
    ⟨path', method', type', async', timeout', queue', flows', request', response'⟩ h
  have hflows : Function.Injective (List.map Value.string) :=
    List.map_injective_iff.mpr fun _ _ => Value.string.inj
  simpa [toJson, Value.ofString?_injective.eq_iff, Payload.toJson?_injective.eq_iff,
    hflows.eq_iff] using h

/-- A message can be told from its value. -/
theorem Message.toJson_injective : Function.Injective Message.toJson := by
  rintro ⟨source, target, arrow, text, annotations⟩
    ⟨source', target', arrow', text', annotations'⟩ h
  simp only [toJson, Value.object.injEq, List.cons.injEq, Prod.mk.injEq, Value.string.injEq,
    Arrow.toJson_injective.eq_iff, Annotations.toJson_injective.eq_iff] at h
  simp_all

theorem Participant.toJson_injective : Function.Injective Participant.toJson := by
  rintro ⟨id, name⟩ ⟨id', name'⟩ h
  simpa [toJson] using h

/-- A diagram can be told from its value. -/
theorem Diagram.toJson_injective : Function.Injective Diagram.toJson := by
  rintro ⟨title, description, system, version, participants, messages, flows⟩
    ⟨title', description', system', version', participants', messages', flows'⟩ h
  have hparticipants := List.map_injective_iff.mpr Participant.toJson_injective
  have hmessages := List.map_injective_iff.mpr Message.toJson_injective
  have hflows := List.map_injective_iff.mpr Flow.toJson_injective
  simpa [toJson, hparticipants.eq_iff, hmessages.eq_iff, hflows.eq_iff] using h

end Injective

section Readable

@[simp] theorem Json.Value.readable_ofString? (s : Option String) :
    (Value.ofString? s).Readable := by
  cases s <;> trivial

@[simp] theorem Metadata.readable_toJson (data : Metadata) : data.toJson.Readable := by
  obtain ⟨system, version⟩ := data
  cases system <;> cases version <;> simp [toJson]

@[simp] theorem Flow.readable_toJson (f : Flow) : f.toJson.Readable := by
  simp [toJson]

@[simp] theorem Token.readable_toJson (t : Token) : t.toJson.Readable := by
  cases t <;> simp [toJson]

theorem Span.readable_toJson {s : Span} (hstart : s.start < 10 ^ Text.maxDigits)
    (hstop : s.stop < 10 ^ Text.maxDigits) : s.toJson.Readable := by
  simp [toJson, hstart, hstop]

@[simp] theorem Payload.readable_toJson? (p : Option Payload) : (toJson? p).Readable := by
  obtain _ | p := p
  · trivial
  · cases p <;> simp [toJson?, toJson]

@[simp] theorem Message.readable_toJson (m : Message) : m.toJson.Readable := by
  simp [toJson, Arrow.toJson, Annotations.toJson]

theorem Diagram.readable_toJson (d : Diagram) : d.toJson.Readable := by
  simp [toJson, Participant.toJson]

end Readable

namespace View

variable {v : View} {source : String} {value : Value}

/-- No place in the source is a numeral that is too long to convert. Only spans tell places, and
only a source of `10 ^ Text.maxDigits` characters has such places. -/
def PlacesFit (v : View) (source : String) : Prop :=
  v = .spans → source.length < 10 ^ Text.maxDigits

/-- What is shown of two sources is the same: their diagrams, their tokens, or their spans. -/
def Agree (v : View) (a b : String) : Prop :=
  match v with
  | .diagram => parse a = parse b
  | .tokens => tokenize a = tokenize b
  | .spans => tokenSpans a = tokenSpans b

/-- Two sources have the same value if what is shown of them is the same, and only then. -/
theorem value_eq_iff (v : View) (a b : String) : v.value a = v.value b ↔ v.Agree a b := by
  have hmap {α : Type} {f : α → Value} (hf : Function.Injective f) (x y : Except Failure α) :
      x.map f = y.map f ↔ x = y := by
    cases x <;> cases y <;> simp [Except.map, hf.eq_iff]
  have harray {α : Type} {f : α → Value} (hf : Function.Injective f) :
      Function.Injective fun xs : List α => Value.array (xs.map f) :=
    fun _ _ h => List.map_injective_iff.mpr hf (Value.array.inj h)
  cases v with
  | diagram => exact hmap Diagram.toJson_injective _ _
  | tokens => exact hmap (harray Token.toJson_injective) _ _
  | spans => exact hmap (harray Span.toJson_injective) _ _

private theorem readable_of_mem_spans {ps : List Span} (hps : tokenSpans source = .ok ps)
    (hfits : source.length < 10 ^ Text.maxDigits) {p : Span} (hp : p ∈ ps) :
    p.toJson.Readable := by
  have hstands := Source.standsIn_of_mem_spans hps hp
  have hstop : p.stop ≤ source.length := String.length_toList ▸ hstands.stop_le_length
  exact p.readable_toJson ((hstands.start_lt_stop.trans_le hstop).trans hfits)
    (hstop.trans_lt hfits)

/-- The numbers in a view can be read. -/
theorem readable_of_value (h : v.value source = .ok value) (hfits : v.PlacesFit source) :
    value.Readable := by
  have hitems {α : Type} {f : α → Value} {xs : List α} (hf : ∀ x ∈ xs, (f x).Readable) :
      (Value.array (xs.map f)).Readable :=
    (Json.Value.readable_array _).mpr (List.forall_mem_map.mpr hf)
  cases v with
  | diagram =>
    obtain ⟨d, -, rfl⟩ := of_map_eq_ok h
    exact d.readable_toJson
  | tokens =>
    obtain ⟨ts, -, rfl⟩ := of_map_eq_ok h
    exact hitems fun t _ => t.readable_toJson
  | spans =>
    obtain ⟨ps, hps, rfl⟩ := of_map_eq_ok h
    exact hitems fun p hp => readable_of_mem_spans hps (hfits rfl) hp

/-- A view cannot be indented exactly if there is one, and its indentation is no word. -/
theorem render_eq_indent_iff {indent : Option Int} :
    v.render indent source = .error .indent ↔
      (∃ value, v.value source = .ok value) ∧ ∃ n, indent = some n ∧ Json.isIndent n = false := by
  rw [render]
  cases hvalue : v.value source with
  | error f => simp
  | ok value =>
    cases indent with
    | none => simp [Json.Layout.ofIndent?]
    | some n => cases hn : Json.isIndent n <;> simp [Json.Layout.ofIndent?, hn]

/-- There is no other reason not to render a view that there is. -/
theorem render_of_value (h : v.value source = .ok value) (indent : Option Int) :
    (∃ l, v.render indent source = .ok (value.render l)) ∨
      v.render indent source = .error .indent := by
  rw [render, h]
  cases Json.Layout.ofIndent? indent with
  | some l => exact .inl ⟨l, rfl⟩
  | none => exact .inr rfl

/-- A view that has been rendered has a value, and the rendering is read back as this value. -/
theorem read_of_render {indent : Option Int} {text : String}
    (h : v.render indent source = .ok text) (hfits : v.PlacesFit source) :
    ∃ value, v.value source = .ok value ∧ Json.read text.toList = .ok value := by
  cases hv : v.value source with
  | error f =>
    rw [render, hv] at h
    cases h
  | ok value =>
    rcases render_of_value hv indent with ⟨l, hl⟩ | hl
    · rw [hl] at h
      cases h
      exact ⟨value, rfl, value.read_render l (readable_of_value hv hfits)⟩
    · rw [hl] at h
      cases h

end View

/-- A view of a source is rendered at every indentation that is a word, and what is rendered is read
back as the value of the view, whatever the indentation. Two sources that are rendered at one
indentation have the same rendering exactly if what is shown of them is the same. -/
theorem rendering_read_back {v : View} {source : String} {value : Value}
    (h : v.value source = .ok value) (hfits : v.PlacesFit source) :
    (∀ indent,
      (∃ text, v.render indent source = .ok text ∧ Json.read text.toList = .ok value) ∨
        v.render indent source = .error .indent ∧ ∃ n, indent = some n ∧ Json.isIndent n = false) ∧
    ∀ other, v.PlacesFit other → ∀ indent text text', v.render indent source = .ok text →
      v.render indent other = .ok text' → (text = text' ↔ v.Agree source other) := by
  refine ⟨fun indent => ?_, fun other hother indent text text' htext htext' => ?_⟩
  · rcases View.render_of_value h indent with ⟨l, hl⟩ | hindent
    · exact .inl ⟨_, hl, value.read_render l (View.readable_of_value h hfits)⟩
    · exact .inr ⟨hindent, (View.render_eq_indent_iff.mp hindent).2⟩
  · rw [← View.value_eq_iff]
    constructor
    · rintro rfl
      obtain ⟨x, hx, hread⟩ := View.read_of_render htext hfits
      obtain ⟨y, hy, hread'⟩ := View.read_of_render htext' hother
      obtain rfl : x = y := Except.ok.inj (hread.symm.trans hread')
      rw [hx, hy]
    · intro hsame
      rw [View.render, hsame] at htext
      rw [View.render] at htext'
      exact Except.ok.inj (htext.symm.trans htext')

/-- A source with a quote, a backslash, a tab character and a letter that is not ASCII. -/
def escapedSource : String := "A->B: 'say \"\\\t\u00e9\"'\n"

/-- The spans of this source. -/
def escapedSpans : List Span :=
  [⟨.identifier, "A", 0, 1⟩, ⟨.arrow, "->", 1, 3⟩, ⟨.identifier, "B", 3, 4⟩, ⟨.colon, ":", 4, 5⟩,
    ⟨.string, "'say \"\\\t\u00e9\"'", 6, 17⟩, ⟨.newline, "\n", 17, 18⟩]

/-- The spans are read back from their rendering, and a blank more at the end does not show. -/
theorem rendering_read_back_sample :
    ∃ text, View.render .spans (some 2) escapedSource = .ok text ∧
      Json.read text.toList = .ok (.array (escapedSpans.map Span.toJson)) ∧
      View.render .spans (some 2) (escapedSource ++ " ") = .ok text := by
  have hspans : tokenSpans escapedSource = .ok escapedSpans := by decide +kernel
  have hspans' : tokenSpans (escapedSource ++ " ") = .ok escapedSpans := by decide +kernel
  have hvalue {source : String} (h : tokenSpans source = .ok escapedSpans) :
      View.value .spans source = .ok (.array (escapedSpans.map Span.toJson)) := by
    rw [View.value, h]
    rfl
  have hlimit : 10 ^ 2 ≤ 10 ^ Text.maxDigits := Nat.pow_le_pow_right (by decide) (by decide)
  have hfits : View.PlacesFit .spans escapedSource := fun _ =>
    Nat.lt_of_lt_of_le (by decide) hlimit
  have hfits' : View.PlacesFit .spans (escapedSource ++ " ") := fun _ =>
    Nat.lt_of_lt_of_le (by decide) hlimit
  obtain ⟨hread, halike⟩ := rendering_read_back (hvalue hspans) hfits
  obtain ⟨text, htext, hback⟩ | ⟨-, _, ⟨⟩, hn⟩ := hread (some 2)
  · obtain ⟨text', htext', -⟩ | ⟨-, _, ⟨⟩, hn⟩ :=
      (rendering_read_back (hvalue hspans') hfits').1 (some 2)
    · obtain rfl : text = text' :=
        (halike _ hfits' _ _ _ htext htext').mpr (hspans.trans hspans'.symm)
      exact ⟨text, htext, hback, htext'⟩
    · cases hn
  · cases hn

end Lifeline
