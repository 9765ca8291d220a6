import Lifeline.Message
import Lifeline.Registry
import Lifeline.Statement

/-!
# Diagrams

A diagram is what the statements of a source leave behind. Messages stand in the
order of their statements; of several titles or other headings the last one
counts; participants and flows are known by their ids. The ends of messages that
nobody declared become participants last, in the order in which they appear.
-/

namespace Lifeline

/-- A participant of a diagram. -/
structure Participant where
  id : String
  displayName : String
  deriving DecidableEq, Repr

/-- A participant that is known only by its id. -/
def Participant.bare (id : String) : Participant := ⟨id, id⟩

/-- A sequence diagram. -/
structure Diagram where
  title : String := ""
  description : String := ""
  system : String := ""
  version : String := ""
  participants : List Participant := []
  messages : List Message := []
  flows : List Flow := []
  deriving DecidableEq, Repr

namespace Statement

/-- The participant that a statement declares. -/
def participant? : Statement → Option Participant
  | participant id displayName => some ⟨id, displayName⟩
  | _ => none

/-- The flow that a statement declares. A flow with an empty display name is shown by its id. -/
def flow? : Statement → Option Flow
  | flow entry =>
    some { entry with
      displayName := if entry.displayName.isEmpty then entry.id else entry.displayName }
  | _ => none

/-- The message that a statement is. -/
def message? : Statement → Option Message
  | message source arrow target text tags =>
    some ⟨source, target, .ofLiteral arrow, text, .ofList tags⟩
  | _ => none

/-- The title that a statement gives. -/
def title? : Statement → Option String
  | title text => some text
  | _ => none

/-- The description that a statement gives. -/
def description? : Statement → Option String
  | description text => some text
  | _ => none

/-- The system that a statement names; an empty name names none. -/
def system? : Statement → Option String
  | metadata data => data.system.filter (!·.isEmpty)
  | _ => none

/-- The version that a statement names; an empty name names none. -/
def version? : Statement → Option String
  | metadata data => data.version.filter (!·.isEmpty)
  | _ => none

end Statement

namespace Diagram

/-- The last text of a list; none is the empty text. -/
def lastText (texts : List String) : String := texts.getLast?.getD ""

/-- What statements say, before the ends of messages are looked at. -/
def ofStatements (statements : List Statement) : Diagram where
  title := lastText (statements.filterMap Statement.title?)
  description := lastText (statements.filterMap Statement.description?)
  system := lastText (statements.filterMap Statement.system?)
  version := lastText (statements.filterMap Statement.version?)
  participants := Registry.addAll Participant.id [] (statements.filterMap Statement.participant?)
  messages := statements.filterMap Statement.message?
  flows := Registry.addAll Flow.id [] (statements.filterMap Statement.flow?)

/-- The ends of a list of messages, source before target. -/
def endpoints (messages : List Message) : List String :=
  messages.flatMap fun m => [m.source, m.target]

/-- Adds every end of a message that is no participant yet. -/
def inferParticipants (d : Diagram) : Diagram :=
  { d with
    participants :=
      Registry.addAll Participant.id d.participants ((endpoints d.messages).map .bare) }

/-- The first participant with an id. -/
def participant? (d : Diagram) (id : String) : Option Participant :=
  d.participants.find? (·.id == id)

end Diagram

end Lifeline
