import Lifeline.Annotations

/-!
# Statements

What the front of a list of tokens is read as: a statement, or a token that has
no effect. A statement never reaches beyond its line. The only thing that cannot
be read is a participant keyword that no name follows.
-/

namespace Lifeline

open Text

/-- A statement of a source. -/
inductive Statement where
  /-- A participant is declared. -/
  | participant (id displayName : String)
  | title (text : String)
  | description (text : String)
  /-- A message, with its arrow and its annotations as they are written. -/
  | message (source arrow target text : String) (tags : List Tag)
  /-- An arrow that leads nowhere. -/
  | dangling (source : String)
  | metadata (data : Metadata)
  | flow (entry : Flow)
  deriving DecidableEq, Repr

namespace Statement

/-- The statement declares a participant with the id. -/
def declares (s : Statement) (id : String) : Bool :=
  match s with
  | participant id' _ => id' == id
  | _ => false

/-- The statement declares a flow with the id. -/
def declaresFlow (s : Statement) (id : String) : Bool :=
  match s with
  | flow entry => entry.id == id
  | _ => false

/-- The text of a run of tokens: its words and quoted texts, a space between each two. -/
def textOf (run : List Token) : String :=
  String.ofList (trim (joinWith [' '] ((run.filterMap Token.text?).map String.toList)))

/-- The tokens up to the end of the line. -/
def thisLine (ts : List Token) : List Token := ts.takeWhile (!·.isNewline)

/-- The tokens from the end of the line on. -/
def afterLine (ts : List Token) : List Token := ts.dropWhile (!·.isNewline)

/-- The token may stand in the text of a message. -/
def isMessageText (t : Token) : Bool := !t.isNewline && t.tag?.isNone

/-- The name that a participant is shown by: the one behind `as`, or else its own. -/
def displayName (id : String) : List Token → String
  | .as _ :: .identifier name :: _ => name
  | .as _ :: .string text :: _ => text
  | _ => id

/-- The tokens behind an optional colon. -/
def afterColon : List Token → List Token
  | .colon :: ts => ts
  | ts => ts

/-- What the front of a list of tokens is read as. -/
inductive Reading where
  /-- A statement, and the tokens behind it. -/
  | statement (s : Statement) (rest : List Token)
  /-- A token without effect, and the tokens behind it. -/
  | skip (rest : List Token)
  /-- A participant keyword that no name follows. -/
  | missingName (keyword : String)
  deriving DecidableEq, Repr

/-- Reads behind a participant keyword. -/
def readParticipant (keyword : String) : List Token → Reading
  | .identifier id :: ts => .statement (.participant id (displayName id ts)) (afterLine ts)
  | _ => .missingName keyword

/-- Reads behind the target of a message: the text and the annotations. -/
def readMessage (source arrow target : String) (ts : List Token) : Reading :=
  let ts := afterColon ts
  let behind := ts.dropWhile isMessageText
  .statement
    (.message source arrow target (textOf (ts.takeWhile isMessageText))
      ((behind.takeWhile (·.tag?.isSome)).filterMap Token.tag?))
    (behind.dropWhile (·.tag?.isSome))

/-- Reads behind an identifier. It starts a message if an arrow follows; an arrow that no
identifier follows leads nowhere. -/
def readIdentifier (source : String) : List Token → Reading
  | .arrow literal :: .identifier target :: ts => readMessage source literal target ts
  | .arrow _ :: ts => .statement (.dangling source) ts
  | ts => .skip ts

/-- Reads behind a reserved word. -/
def readKeyword (word : String) (ts : List Token) : Reading :=
  if word = "participant" ∨ word = "actor" then readParticipant word ts
  else if word = "title" then .statement (.title (textOf (thisLine ts))) (afterLine ts)
  else if word = "description" then
    .statement (.description (textOf (thisLine ts))) (afterLine ts)
  else .skip ts

/-- Reads a token and what belongs to it among the tokens behind it. -/
def next (t : Token) (ts : List Token) : Reading :=
  match t with
  | .keyword word => readKeyword word ts
  | .identifier source => readIdentifier source ts
  | .metadata data => .statement (.metadata data) ts
  | .flow entry => .statement (.flow entry) ts
  | _ => .skip ts

/-- The tokens that a reading leaves. -/
def Reading.rest : Reading → List Token
  | statement _ rest | skip rest => rest
  | missingName _ => []

private theorem length_dropWhile_le (p : Token → Bool) (ts : List Token) :
    (ts.dropWhile p).length ≤ ts.length :=
  (List.dropWhile_sublist p).length_le

/-- A reading leaves no more tokens than stand behind its first one. -/
theorem length_rest_next_le (t : Token) (ts : List Token) :
    (next t ts).rest.length ≤ ts.length := by
  have hline : (afterLine ts).length ≤ ts.length := length_dropWhile_le _ _
  have hparticipant (w : String) : (readParticipant w ts).rest.length ≤ ts.length := by
    unfold readParticipant
    split
    · exact Nat.le_succ_of_le (length_dropWhile_le _ _)
    · exact Nat.zero_le _
  have hmessage (s a t : String) (us : List Token) :
      (readMessage s a t us).rest.length ≤ us.length := by
    have hcolon : (afterColon us).length ≤ us.length := by
      unfold afterColon
      split <;> simp
    exact Nat.le_trans (length_dropWhile_le _ _)
      (Nat.le_trans (length_dropWhile_le _ _) hcolon)
  unfold next
  split
  · unfold readKeyword
    split
    · exact hparticipant _
    split
    · exact hline
    split
    · exact hline
    · exact Nat.le_refl _
  · unfold readIdentifier
    split
    · exact Nat.le_trans (hmessage _ _ _ _) (by simp; omega)
    · simp [Reading.rest]
    · exact Nat.le_refl _
  all_goals exact Nat.le_refl _

end Statement

end Lifeline
