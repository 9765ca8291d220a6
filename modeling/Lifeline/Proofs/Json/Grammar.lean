import Lifeline.Json.Reader
import Lifeline.Proofs.Text.Continuation

/-!
# The grammar of JSON

Which texts spell a value, said without the reader: blanks may stand between the
parts, a character of a string may stand for itself or be escaped, and members may
repeat a name. Strings, words and numbers are read as what they spell. A number ends
where a blank, a comma, a closing bracket or nothing follows; that is all a value
needs to know about the text behind it.
-/

namespace Lifeline.Json

open Text

/-- Blanks that may stand between the parts of a text. -/
def Spaces (s : List Char) : Prop := ∀ c ∈ s, isSpace c = true

/-- A hexadecimal digit, in either case, and its value. -/
def HexDigit (c : Char) (d : Nat) : Prop :=
  d < 16 ∧ (c = d.digitChar ∨ c = d.digitChar.toUpper)

/-- Four hexadecimal digits spell a code unit. -/
inductive SpellsUnit : List Char → Nat → Prop
  | intro {a b c d : Char} {w x y z : Nat} (ha : HexDigit a w) (hb : HexDigit b x)
      (hc : HexDigit c y) (hd : HexDigit d z) :
      SpellsUnit [a, b, c, d] (((w * 16 + x) * 16 + y) * 16 + z)

/-- The escapes of one letter, each with the character that it stands for. -/
def letterEscapes : List (Char × Char) :=
  [('"', '"'), ('\\', '\\'), ('/', '/'), ('b', '\x08'), ('f', '\x0c'), ('n', '\n'), ('r', '\r'),
    ('t', '\t')]

/-- How a character may be written in a string: as itself, by a letter, by its code unit, or by two
code units that stand for one character. -/
inductive SpellsChar : List Char → Char → Prop
  | plain {c : Char} (hc : 0x20 ≤ c.toNat) (hq : c ≠ '"') (hb : c ≠ '\\') : SpellsChar [c] c
  | letter {e c : Char} (h : (e, c) ∈ letterEscapes) : SpellsChar ['\\', e] c
  | unit {t : List Char} {c : Char} (h : SpellsUnit t c.toNat) : SpellsChar ('\\' :: 'u' :: t) c
  | pair {t u : List Char} {high low : Nat} {c : Char} (ht : SpellsUnit t high)
      (hu : SpellsUnit u low)
      (hh : 0xD800 ≤ high ∧ high < 0xDC00) (hl : 0xDC00 ≤ low ∧ low < 0xE000)
      (hc : c.toNat = 0x10000 + (high - 0xD800) * 0x400 + (low - 0xDC00)) :
      SpellsChar ('\\' :: 'u' :: t ++ '\\' :: 'u' :: u) c

/-- What stands between the quotes of a string. -/
inductive SpellsText : List Char → List Char → Prop
  | nil : SpellsText [] []
  | cons {t u s : List Char} {c : Char} (hc : SpellsChar t c) (hs : SpellsText u s) :
      SpellsText (t ++ u) (c :: s)

/-- At least one decimal digit. -/
def Digits (s : List Char) : Prop := s ≠ [] ∧ ∀ c ∈ s, c.isDigit = true

/-- The whole part of a number: digits that do not start with a zero, or one zero. -/
def Whole (s : List Char) : Prop := Digits s ∧ (s.head? = some '0' → s = ['0'])

/-- The fraction of a number, which may be missing. -/
inductive Fraction : List Char → Prop
  | missing : Fraction []
  | point {s : List Char} (h : Digits s) : Fraction ('.' :: s)

/-- The exponent of a number, which may be missing. -/
inductive Exponent : List Char → Prop
  | missing : Exponent []
  | mark {e : Char} {sign s : List Char} (he : e = 'e' ∨ e = 'E')
      (hsign : sign = [] ∨ sign = ['+'] ∨ sign = ['-']) (h : Digits s) : Exponent (e :: sign ++ s)

/-- The sign of a number. -/
def minus (negative : Bool) : List Char := if negative then ['-'] else []

/-- The integer that digits spell behind a sign. -/
def spelledInteger (negative : Bool) (digits : List Char) : Int :=
  if negative then -(Nat.ofDigitChars 10 digits 0 : Int) else Nat.ofDigitChars 10 digits 0

/-- What a piece of text may spell: a value, or what stands between the brackets of an array or of
an object that is not empty. -/
inductive Part where
  | value (v : Value)
  | items (vs : List Value)
  | members (ms : List (String × Value))

/-- The text spells the part. The words for the undefined number and the infinities belong to the
grammar, and no integer is longer than those that are converted. -/
inductive Spells : List Char → Part → Prop
  | nullWord : Spells ['n', 'u', 'l', 'l'] (.value .null)
  | trueWord : Spells ['t', 'r', 'u', 'e'] (.value (.bool true))
  | falseWord : Spells ['f', 'a', 'l', 's', 'e'] (.value (.bool false))
  | undefinedWord : Spells ['N', 'a', 'N'] (.value (.real "NaN"))
  | infinityWord : Spells ['I', 'n', 'f', 'i', 'n', 'i', 't', 'y'] (.value (.real "Infinity"))
  | negativeInfinityWord :
      Spells ['-', 'I', 'n', 'f', 'i', 'n', 'i', 't', 'y'] (.value (.real "-Infinity"))
  | integer {ds : List Char} (negative : Bool) (hw : Whole ds) (hl : ds.length ≤ maxDigits) :
      Spells (minus negative ++ ds) (.value (.integer (spelledInteger negative ds)))
  | real {ds fs es : List Char} (negative : Bool) (hw : Whole ds) (hf : Fraction fs)
      (he : Exponent es) (hne : fs ++ es ≠ []) :
      Spells (minus negative ++ (ds ++ fs ++ es))
        (.value (.real (String.ofList (minus negative ++ (ds ++ fs ++ es)))))
  | string {t s : List Char} (h : SpellsText t s) :
      Spells ('"' :: t ++ ['"']) (.value (.string (String.ofList s)))
  | emptyArray {a : List Char} (ha : Spaces a) : Spells ('[' :: a ++ [']']) (.value (.array []))
  | array {t : List Char} {vs : List Value} (h : Spells t (.items vs)) :
      Spells ('[' :: t ++ [']']) (.value (.array vs))
  | emptyObject {a : List Char} (ha : Spaces a) :
      Spells ('\x7b' :: a ++ ['\x7d']) (.value (.object []))
  | object {t : List Char} {ms : List (String × Value)} (h : Spells t (.members ms)) :
      Spells ('\x7b' :: t ++ ['\x7d']) (.value (.object ms))
  | lastItem {a t b : List Char} {v : Value} (ha : Spaces a) (ht : Spells t (.value v))
      (hb : Spaces b) : Spells (a ++ t ++ b) (.items [v])
  | item {a t b u : List Char} {v : Value} {vs : List Value} (ha : Spaces a)
      (ht : Spells t (.value v)) (hb : Spaces b) (hu : Spells u (.items vs)) :
      Spells (a ++ t ++ b ++ ',' :: u) (.items (v :: vs))
  | lastMember {a k name b c t d : List Char} {v : Value} (ha : Spaces a)
      (hk : SpellsText k name) (hb : Spaces b) (hc : Spaces c) (ht : Spells t (.value v))
      (hd : Spaces d) :
      Spells (a ++ '"' :: k ++ '"' :: b ++ ':' :: c ++ t ++ d)
        (.members [(String.ofList name, v)])
  | member {a k name b c t d u : List Char} {v : Value} {ms : List (String × Value)}
      (ha : Spaces a) (hk : SpellsText k name) (hb : Spaces b) (hc : Spaces c)
      (ht : Spells t (.value v)) (hd : Spaces d) (hu : Spells u (.members ms)) :
      Spells (a ++ '"' :: k ++ '"' :: b ++ ':' :: c ++ t ++ d ++ ',' :: u)
        (.members ((String.ofList name, v) :: ms))

/-- The text is a text of the value: the value is spelled between blanks. -/
def TextOf (s : List Char) (v : Value) : Prop :=
  ∃ a t b, Spaces a ∧ Spells t (.value v) ∧ Spaces b ∧ s = a ++ t ++ b

section Strings

variable {t s rest : List Char} {c : Char} {n : Nat}

private theorem hexValue?_of_hexDigit {d : Nat} (h : HexDigit c d) : hexValue? c = some d := by
  have hall : ∀ d < 16, hexValue? d.digitChar = some d ∧
      hexValue? d.digitChar.toUpper = some d := by decide
  obtain ⟨hd, rfl | rfl⟩ := h
  · exact (hall d hd).1
  · exact (hall d hd).2

theorem readCodes_quote (rest : List Char) : readCodes ('"' :: rest) = some ([], rest) := by
  rw [readCodes.eq_def]
  rfl

private theorem codeUnit?_of_spellsUnit (h : SpellsUnit t n) :
    ∃ a b c d, t = [a, b, c, d] ∧ codeUnit? a b c d = some n := by
  obtain ⟨ha, hb, hc, hd⟩ := h
  refine ⟨_, _, _, _, rfl, ?_⟩
  rw [codeUnit?, hexValue?_of_hexDigit ha, hexValue?_of_hexDigit hb, hexValue?_of_hexDigit hc,
    hexValue?_of_hexDigit hd]
  simp only [bind, Option.bind, pure, Option.some.injEq]
  omega

/-- A code unit is the first code of a string that starts with it. -/
theorem readCodes_unit (h : SpellsUnit t n) (s : List Char) :
    readCodes ('\\' :: 'u' :: t ++ s) = (readCodes s).map fun p => (n :: p.1, p.2) := by
  obtain ⟨a, b, c, d, rfl, hn⟩ := codeUnit?_of_spellsUnit h
  have hstep : readCodes ('\\' :: 'u' :: [a, b, c, d] ++ s) =
      (codeUnit? a b c d).bind fun n => (readCodes s).bind fun p => some (n :: p.1, p.2) := by
    rw [List.cons_append, List.cons_append, readCodes.eq_def]
    rfl
  rw [hstep, hn, Option.bind_some, Option.map_eq_bind]
  rfl

private theorem readCodes_letter {e : Char} (h : (e, c) ∈ letterEscapes) (s : List Char) :
    readCodes ('\\' :: e :: s) = (readCodes s).map fun p => (c.toNat :: p.1, p.2) := by
  simp only [letterEscapes, List.mem_cons, List.not_mem_nil, or_false, Prod.mk.injEq] at h
  rcases h with ⟨rfl, rfl⟩ | ⟨rfl, rfl⟩ | ⟨rfl, rfl⟩ | ⟨rfl, rfl⟩ | ⟨rfl, rfl⟩ | ⟨rfl, rfl⟩ |
    ⟨rfl, rfl⟩ | ⟨rfl, rfl⟩ <;>
  · rw [readCodes.eq_def, Option.map_eq_bind]
    rfl

/-- A character that stands for itself is the first code of a string that starts with it. -/
theorem readCodes_plain (hc : 0x20 ≤ c.toNat) (hq : c ≠ '"') (hb : c ≠ '\\') (s : List Char) :
    readCodes (c :: s) = (readCodes s).map fun p => (c.toNat :: p.1, p.2) := by
  rw [readCodes.eq_def, Option.map_eq_bind]
  simp only [if_neg hq, if_neg hb, if_neg (Nat.not_lt.mpr hc)]
  rfl

/-- A character is itself the code that it has. -/
theorem joinSurrogates_cons (c : Char) (ns : List Nat) :
    joinSurrogates (c.toNat :: ns) = c :: joinSurrogates ns := by
  have hvalid : c.toNat.isValidChar := c.valid
  have hself : (if c.toNat.isValidChar then Char.ofNat c.toNat else '\uFFFD') = c := by
    rw [if_pos hvalid, Char.ofNat_toNat]
  cases ns with
  | nil => exact congrArg ([·]) hself
  | cons m ns =>
    have hno : ¬(0xD800 ≤ c.toNat ∧ c.toNat < 0xDC00 ∧ 0xDC00 ≤ m ∧ m < 0xE000) := by
      rintro ⟨hlow, hhigh, -⟩
      rcases hvalid with h | h <;> omega
    rw [joinSurrogates, if_neg hno, hself]

/-- Two code units may stand for one character. -/
theorem joinSurrogates_pair {high low : Nat} (hh : 0xD800 ≤ high ∧ high < 0xDC00)
    (hl : 0xDC00 ≤ low ∧ low < 0xE000)
    (hc : c.toNat = 0x10000 + (high - 0xD800) * 0x400 + (low - 0xDC00)) (ns : List Nat) :
    joinSurrogates (high :: low :: ns) = c :: joinSurrogates ns := by
  rw [joinSurrogates, if_pos ⟨hh.1, hh.2, hl.1, hl.2⟩, ← hc, Char.ofNat_toNat]

/-- A string is read as the characters that are spelled between its quotes. -/
theorem readString_of_spellsText (h : SpellsText t s) (rest : List Char) :
    readString (t ++ '"' :: rest) = .ok (String.ofList s, rest) := by
  have hcodes : ∃ ns, readCodes (t ++ '"' :: rest) = some (ns, rest) ∧ joinSurrogates ns = s := by
    induction h with
    | nil => exact ⟨[], readCodes_quote rest, rfl⟩
    | @cons t u s c hc _ ih =>
      obtain ⟨ns, hread, rfl⟩ := ih
      rw [List.append_assoc]
      cases hc with
      | plain hc hq hb =>
        refine ⟨c.toNat :: ns, ?_, joinSurrogates_cons c ns⟩
        rw [List.singleton_append, readCodes_plain hc hq hb, hread]
        rfl
      | letter h =>
        refine ⟨c.toNat :: ns, ?_, joinSurrogates_cons c ns⟩
        rw [List.cons_append, List.singleton_append, readCodes_letter h, hread]
        rfl
      | unit h =>
        refine ⟨c.toNat :: ns, ?_, joinSurrogates_cons c ns⟩
        rw [readCodes_unit h, hread]
        rfl
      | pair ht hu hh hl hc =>
        refine ⟨_ :: _ :: ns, ?_, joinSurrogates_pair hh hl hc ns⟩
        rw [List.append_assoc, readCodes_unit ht, readCodes_unit hu, hread]
        rfl
  obtain ⟨ns, hread, hs⟩ := hcodes
  rw [readString, hread]
  dsimp only
  rw [hs]

end Strings

/-- What may stand behind a value: a blank, a comma, a closing bracket, or nothing. -/
def Ends (rest : List Char) : Prop :=
  ∀ c ∈ rest.head?, isSpace c = true ∨ c = ',' ∨ c = ']' ∨ c = '\x7d'

section Numbers

variable {ds fs es rest : List Char}

private theorem Ends.continues_no_number (h : Ends rest) :
    ∀ c ∈ rest.head?, c.isDigit = false ∧ c ≠ '.' ∧ c ≠ 'e' ∧ c ≠ 'E' := by
  intro c hc
  have hcases := h c hc
  simp only [isSpace, Bool.or_eq_true, beq_iff_eq, or_assoc] at hcases
  rcases hcases with rfl | rfl | rfl | rfl | rfl | rfl | rfl <;> decide

private theorem wholePart_append (h : Whole ds) (hr : ∀ c ∈ rest.head?, c.isDigit = false) :
    wholePart (ds ++ rest) = (ds, rest) := by
  obtain ⟨⟨hne, hdigits⟩, hzero⟩ := h
  obtain ⟨d, ds, rfl⟩ := List.exists_cons_of_ne_nil hne
  rw [wholePart.eq_def]
  split
  · next s he =>
    obtain ⟨rfl, rfl⟩ := List.cons.inj he
    obtain rfl : ds = [] := by simpa using hzero rfl
    rfl
  · rw [takeWhile_append_eq hdigits hr, dropWhile_append_eq hdigits hr]

private theorem fraction_append (h : Fraction fs)
    (hr : ∀ c ∈ rest.head?, c.isDigit = false ∧ c ≠ '.') :
    fraction (fs ++ rest) = (fs, rest) := by
  cases h with
  | missing =>
    rw [List.nil_append, fraction.eq_def]
    split
    · exact absurd rfl (hr '.' rfl).2
    · rfl
  | @point s h =>
    obtain ⟨hne, hdigits⟩ := h
    have htake := takeWhile_append_eq hdigits fun c hc => (hr c hc).1
    have hdrop := dropWhile_append_eq hdigits fun c hc => (hr c hc).1
    have hempty : s.isEmpty = false := by simpa using hne
    rw [List.cons_append, fraction, htake, hdrop, hempty]
    rfl

private theorem exponentSign_append {sign s : List Char}
    (hsign : sign = [] ∨ sign = ['+'] ∨ sign = ['-']) (hs : ∀ c ∈ s.head?, c.isDigit = true) :
    exponentSign (sign ++ s) = (sign, s) := by
  rcases hsign with rfl | rfl | rfl
  · rw [List.nil_append, exponentSign.eq_def]
    split
    · exact absurd (hs '+' rfl) (by decide)
    · exact absurd (hs '-' rfl) (by decide)
    · rfl
  · rfl
  · rfl

/-- An exponent is read up to what is neither digit nor the mark of an exponent. -/
theorem exponent_append (h : Exponent es)
    (hr : ∀ c ∈ rest.head?, c.isDigit = false ∧ c ≠ 'e' ∧ c ≠ 'E') :
    exponent (es ++ rest) = (es, rest) := by
  cases h with
  | missing =>
    cases rest with
    | nil => rfl
    | cons c rest =>
      have hmark : ¬(c = 'e' ∨ c = 'E') := not_or.mpr (hr c rfl).2
      rw [List.nil_append, exponent]
      simp only [hmark, false_and, if_false]
  | @mark e sign s he hsign h =>
    obtain ⟨hne, hdigits⟩ := h
    have htake := takeWhile_append_eq hdigits fun c hc => (hr c hc).1
    have hdrop := dropWhile_append_eq hdigits fun c hc => (hr c hc).1
    have hempty : s.isEmpty = false := by simpa using hne
    have hread : exponentSign (sign ++ (s ++ rest)) = (sign, s ++ rest) := by
      refine exponentSign_append hsign fun c hc => ?_
      cases s with
      | nil => exact absurd rfl hne
      | cons d s =>
        cases hc
        exact hdigits _ List.mem_cons_self
    rw [List.append_assoc, List.cons_append, exponent, hread]
    dsimp only
    rw [htake, hdrop, hempty]
    simp [he]

/-- A number is read from its parts. -/
theorem readUnsigned_append (negative : Bool) (hw : Whole ds) (hf : Fraction fs)
    (he : Exponent es) (hr : Ends rest) :
    readUnsigned negative (ds ++ fs ++ es ++ rest) =
      if fs ++ es = [] then
        if ds.length ≤ maxDigits then .ok (.integer (spelledInteger negative ds), rest)
        else .error (.numeralTooLong ds.length)
      else .ok (.real (String.ofList (minus negative ++ (ds ++ fs ++ es))), rest) := by
  have hends := hr.continues_no_number
  have hmarks : ∀ c ∈ (es ++ rest).head?, c.isDigit = false ∧ c ≠ '.' := by
    cases he with
    | missing => exact fun c hc => ⟨(hends c hc).1, (hends c hc).2.1⟩
    | mark he =>
      rintro c ⟨⟩
      rcases he with rfl | rfl <;> decide
  have hpoint : ∀ c ∈ (fs ++ (es ++ rest)).head?, c.isDigit = false := by
    cases hf with
    | missing => exact fun c hc => (hmarks c hc).1
    | point =>
      rintro c ⟨⟩
      rfl
  have hexponent : exponent (es ++ rest) = (es, rest) :=
    exponent_append he fun c hc => ⟨(hends c hc).1, (hends c hc).2.2⟩
  have hdigits : ds.isEmpty = false := by simpa using hw.1.1
  have hvalue : (ofDigits (ds.map fun c => c.toNat - '0'.toNat) : Int) =
      Nat.ofDigitChars 10 ds 0 := by
    rw [ofDigits, List.foldl_map]
    rfl
  have hnone : (fs.isEmpty && es.isEmpty) = true ↔ fs ++ es = [] := by simp
  rw [List.append_assoc, List.append_assoc, readUnsigned, wholePart_append hw hpoint]
  dsimp only
  rw [fraction_append hf hmarks]
  dsimp only
  rw [hexponent]
  dsimp only
  rw [hdigits, if_neg (by decide)]
  by_cases hplain : fs ++ es = []
  · rw [if_pos (hnone.mpr hplain), if_pos hplain]
    simp only [hvalue, spelledInteger]
  · rw [if_neg (mt hnone.mp hplain), if_neg hplain, minus]
    simp only [List.append_assoc]

/-- No word starts with a digit, so what starts with one is a number. -/
theorem readAtom_digit {d : Char} (hd : d.isDigit = true) (s : List Char) :
    readAtom (d :: s) = readUnsigned false (d :: s) ∧
      readAtom ('-' :: d :: s) = readUnsigned true (d :: s) := by
  have hne (c : Char) (hc : c.isDigit = false) : c ≠ d := by
    rintro rfl
    rw [hc] at hd
    cases hd
  have hwords : words.find? (fun w => w.1.isPrefixOf (d :: s)) = none := by
    simp [words, hne 'n' rfl, hne 't' rfl, hne 'f' rfl, hne 'N' rfl, hne 'I' rfl, hne '-' rfl]
  have hwords' : words.find? (fun w => w.1.isPrefixOf ('-' :: d :: s)) = none := by
    simp [words, hne 'I' rfl]
  rw [readAtom.eq_def, readAtom.eq_def, hwords, hwords']
  refine ⟨?_, rfl⟩
  dsimp only
  split
  · next he => exact absurd (List.cons.inj he).1.symm (hne '-' rfl)
  · rfl

/-- A number is read behind its sign, whatever may stand behind a value. -/
theorem readAtom_number (negative : Bool) (hw : Whole ds) (hf : Fraction fs) (he : Exponent es)
    (hr : Ends rest) :
    readAtom (minus negative ++ (ds ++ fs ++ es) ++ rest) =
      if fs ++ es = [] then
        if ds.length ≤ maxDigits then .ok (.integer (spelledInteger negative ds), rest)
        else .error (.numeralTooLong ds.length)
      else .ok (.real (String.ofList (minus negative ++ (ds ++ fs ++ es))), rest) := by
  rw [← readUnsigned_append negative hw hf he hr]
  obtain ⟨⟨hne, hdigits⟩, -⟩ := hw
  cases ds with
  | nil => exact absurd rfl hne
  | cons d ds =>
    have hatom := readAtom_digit (hdigits d List.mem_cons_self) (ds ++ fs ++ es ++ rest)
    cases negative
    · exact hatom.1
    · exact hatom.2

end Numbers

end Lifeline.Json
