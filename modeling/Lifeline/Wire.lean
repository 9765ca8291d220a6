import Lifeline.Diagram
import Lifeline.Json.Value
import Lifeline.Source

/-!
# Wire shapes

Tokens, spans and diagrams as JSON values, with their members in a fixed order.
-/

namespace Lifeline

open Json (Value)

/-- The members of metadata that are there. -/
def Metadata.toJson (data : Metadata) : Value :=
  .object <|
    (data.system.map fun s => ("system", Value.string s)).toList ++
      (data.version.map fun s => ("version", Value.string s)).toList

/-- A flow. -/
def Flow.toJson (f : Flow) : Value :=
  .object [("id", .string f.id), ("displayName", .string f.displayName),
    ("color", .ofString? f.color)]

/-- A token: its kind, and what it carries. -/
def Token.toJson (t : Token) : Value :=
  .object <| ("type", .string t.kind.word) ::
    match t with
    | .keyword s | .identifier s | .string s | .arrow s | .as s | .comment s =>
      [("value", .string s)]
    | .colon => [("value", .string ":")]
    | .tag a => [("name", .string a.name), ("value", .ofString? a.value)]
    | .metadata data => [("value", data.toJson)]
    | .flow f =>
      [("id", .string f.id), ("displayName", .string f.displayName),
        ("color", .ofString? f.color)]
    | .newline => []

/-- A span: the kind, the text and the place of a token. -/
def Span.toJson (s : Span) : Value :=
  .object [("type", .string s.kind.word), ("text", .string s.text), ("start", .integer s.start),
    ("end", .integer s.stop)]

/-- An arrow: its line and its head. -/
def Arrow.toJson (a : Arrow) : Value :=
  .object [("line", .string a.line.word), ("head", .string a.head.word)]

/-- A payload: its kind, and what that kind carries. -/
def Payload.toJson : Payload → Value
  | .reference url =>
    .object [("type", .string Payload.Kind.reference.word), ("url", .ofString? url)]
  | .inline schema =>
    .object [("type", .string Payload.Kind.inline.word), ("schema", .ofString? schema)]

/-- A payload, or nothing. -/
def Payload.toJson? : Option Payload → Value
  | some p => p.toJson
  | none => .null

/-- A record of annotations, every field of it. -/
def Annotations.toJson (r : Annotations) : Value :=
  .object [("path", .ofString? r.path), ("method", .ofString? r.method),
    ("requestType", .ofString? r.requestType), ("isAsync", .bool r.isAsync),
    ("timeout", .ofString? r.timeout), ("queue", .ofString? r.queue),
    ("flows", .array (r.flows.map .string)), ("request", Payload.toJson? r.request),
    ("response", Payload.toJson? r.response)]

/-- A message. -/
def Message.toJson (m : Message) : Value :=
  .object [("source", .string m.source), ("target", .string m.target), ("text", .string m.text),
    ("arrow", m.arrow.toJson), ("annotations", m.annotations.toJson)]

/-- A participant. There is one type of participant. -/
def Participant.toJson (p : Participant) : Value :=
  .object [("id", .string p.id), ("displayName", .string p.displayName),
    ("participantType", .string "default")]

/-- A diagram. -/
def Diagram.toJson (d : Diagram) : Value :=
  .object [("title", .string d.title), ("description", .string d.description),
    ("system", .string d.system), ("version", .string d.version),
    ("participants", .array (d.participants.map Participant.toJson)),
    ("messages", .array (d.messages.map Message.toJson)),
    ("flows", .array (d.flows.map Flow.toJson))]

end Lifeline
