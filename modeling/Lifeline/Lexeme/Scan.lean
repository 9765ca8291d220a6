import Lifeline.Lexeme

/-!
# Scanning a lexeme

The lexeme at the front of a text is found by its first character: no two forms
start alike. Every form takes as much of the text as it can, and the characters
of the lexeme and the text behind it are always the text that was scanned.
-/

namespace Lifeline.Lexeme

open Text

/-- The directive behind `%%`: in braces if it is closed anywhere, or else the rest of the line. -/
def scanDirective (s : List Char) : Lexeme × List Char :=
  match (after? ['\x7b'] s).bind (cut Directive.terminator) with
  | some (body, rest) => (blockDirective body, rest)
  | none => (lineDirective (s.takeWhile (· != '\n')), s.dropWhile (· != '\n'))

/-- The value of a tag, if a bracket opens one. -/
def scanValue (s : List Char) : Option (Bracket × Enclosed) × List Char :=
  match s with
  | [] => (none, [])
  | c :: r =>
    match Bracket.ofOpener? c with
    | some bracket =>
      let (inside, rest) := Enclosed.ofSplit r (bracket.split 0 r)
      (some (bracket, inside), rest)
    | none => (none, s)

/-- The tag behind `@`. -/
def scanTag (s : List Char) : Lexeme × List Char :=
  let (value, rest) := scanValue (s.dropWhile isWordChar)
  (tag (s.takeWhile isWordChar) value, rest)

/-- The quoted text behind an opening quote. -/
def scanQuoted (quote : Quote) (s : List Char) : Lexeme × List Char :=
  let (inside, rest) := Enclosed.ofSplit s (cut [quote.char] s)
  (quoted quote inside, rest)

/-- The lexeme at the front of a text, and the text behind it. No lexeme starts where the text is
empty or starts with a character that is skipped. -/
def scan (s : List Char) : Option (Lexeme × List Char) :=
  match s with
  | [] => none
  | c :: rest =>
    if c = '\n' then some (newline, rest)
    else if c = ':' then some (colon, rest)
    else if c = '@' then some (scanTag rest)
    else if c = '%' then (after? ['%'] rest).map scanDirective
    else if c = '-' then (Arrow.scan s).map fun (a, rest) => (arrow a, rest)
    else if isWordStart c then some (word (s.takeWhile isWordChar), s.dropWhile isWordChar)
    else (Quote.ofChar? c).map fun quote => scanQuoted quote rest

/-- A directive and the rest are the text. -/
theorem scanDirective_append (s : List Char) :
    (scanDirective s).1.text ++ (scanDirective s).2 = '%' :: '%' :: s := by
  rw [scanDirective]
  split
  · next body rest h =>
    obtain ⟨r, hr, hb⟩ := Option.bind_eq_some_iff.mp h
    rw [after?_eq_some_iff.mp hr, ← cut_append hb]
    simp [text]
  · simp [text, List.takeWhile_append_dropWhile]

/-- The value of a tag and the rest are the text. -/
theorem scanValue_append (s : List Char) :
    valueText (scanValue s).1 ++ (scanValue s).2 = s := by
  cases s with
  | nil => rfl
  | cons c s =>
    rw [scanValue]
    split
    · next bracket hb =>
      have he : (Enclosed.ofSplit s (bracket.split 0 s)).1.text bracket.closer ++
          (Enclosed.ofSplit s (bracket.split 0 s)).2 = s :=
        Enclosed.ofSplit_append fun p hp => Bracket.split_append hp
      simp only [valueText, List.cons_append]
      rw [he, Bracket.ofOpener?_eq_some_iff.mp hb]
    · rfl

/-- A tag and the rest are the text. -/
theorem scanTag_append (s : List Char) :
    (scanTag s).1.text ++ (scanTag s).2 = '@' :: s := by
  simp only [scanTag, text, List.cons_append, List.append_assoc]
  rw [scanValue_append, List.takeWhile_append_dropWhile]

/-- Quoted text and the rest are the text. -/
theorem scanQuoted_append (quote : Quote) (s : List Char) :
    (scanQuoted quote s).1.text ++ (scanQuoted quote s).2 = quote.char :: s := by
  have he : (Enclosed.ofSplit s (cut [quote.char] s)).1.text quote.char ++
      (Enclosed.ofSplit s (cut [quote.char] s)).2 = s :=
    Enclosed.ofSplit_append fun p hp => by simpa using cut_append hp
  simp only [scanQuoted, text, List.cons_append]
  rw [he]

/-- A scanned lexeme stands at the front of the text: its characters and the rest are the text. -/
theorem scan_append {s rest : List Char} {l : Lexeme} (h : scan s = some (l, rest)) :
    l.text ++ rest = s := by
  cases s with
  | nil => simp [scan] at h
  | cons c r =>
    rw [scan] at h
    split at h
    · next hc =>
      cases h
      simp [text, hc]
    split at h
    · next hc =>
      cases h
      simp [text, hc]
    split at h
    · next hc =>
      have ha := scanTag_append r
      rw [Option.some.inj h] at ha
      rw [ha, hc]
    split at h
    · next hc =>
      obtain ⟨r', hr, hd⟩ := Option.map_eq_some_iff.mp h
      have ha := scanDirective_append r'
      rw [hd] at ha
      rw [ha, after?_eq_some_iff.mp hr, hc]
      rfl
    split at h
    · obtain ⟨⟨a, r'⟩, ha, he⟩ := Option.map_eq_some_iff.mp h
      cases he
      exact Arrow.scan_append ha
    split at h
    · cases h
      simp [text, List.takeWhile_append_dropWhile]
    · obtain ⟨quote, hq, he⟩ := Option.map_eq_some_iff.mp h
      have ha := scanQuoted_append quote r
      rw [he] at ha
      rw [ha, Quote.char_of_ofChar? hq]

/-- No lexeme is empty where it is scanned. -/
theorem text_ne_nil_of_scan {s rest : List Char} {l : Lexeme} (h : scan s = some (l, rest)) :
    l.text ≠ [] := by
  cases s with
  | nil => simp [scan] at h
  | cons c r =>
    rw [scan] at h
    split at h
    · cases h
      simp [text]
    split at h
    · cases h
      simp [text]
    split at h
    · cases h
      simp [text]
    split at h
    · obtain ⟨r', _, hd⟩ := Option.map_eq_some_iff.mp h
      rw [scanDirective] at hd
      split at hd <;> cases hd <;> simp [text]
    split at h
    · obtain ⟨⟨⟨line, head⟩, r'⟩, _, he⟩ := Option.map_eq_some_iff.mp h
      cases he
      cases line <;> cases head <;> simp [text, Arrow.chars]
    split at h
    · next hw =>
      cases h
      simp [text, isWordChar_of_isWordStart hw]
    · obtain ⟨quote, _, he⟩ := Option.map_eq_some_iff.mp h
      cases he
      simp [text]

/-- Scanning a lexeme leaves less text. -/
theorem length_lt_of_scan {s rest : List Char} {l : Lexeme} (h : scan s = some (l, rest)) :
    rest.length < s.length := by
  have hl := List.length_pos_iff.mpr (text_ne_nil_of_scan h)
  rw [← scan_append h, List.length_append]
  omega

end Lifeline.Lexeme
