import Lifeline.Proofs.Command.Limits
import Lifeline.Proofs.Rendering

/-!
# How a run ends

A run ends in order if it succeeds, if its command line is refused, or if it says what
stood in the way. Within the limits that every machine keeps, two things end a run
otherwise, since nothing catches them: an input that is not valid UTF-8, and a result
that is to be indented by more than a word holds. Beyond the limits nothing is said
about a run.
-/

namespace Lifeline

open Text

namespace Command

/-- The run ends with a result, with a refused command line, or with a diagnostic that stands behind
the notices. -/
structure Outcome.Orderly (o : Outcome) : Prop where
  caught : o.ending.isUncaught = false
  ending : o.ending.exitCode = 0 ∨ o.ending.exitCode = 2 ∨
    o.ending.exitCode = 1 ∧ ∃ notices text, o.stderr = report notices ++ text ∧
      ("error:".toList <+: text.toList ∨ "parse error:".toList <+: text.toList)

/-- Bytes are decoded exactly if they are valid. -/
theorem decode_eq_none_iff {bytes : ByteArray} : decode bytes = none ↔ ¬bytes.IsValidUTF8 := by
  rw [decode, Option.map_eq_none_iff, String.fromUTF8?]
  split
  · next hvalid => simp [hvalid]
  · next hvalid => simp [hvalid]

private theorem Options.exists_log (o : Options) (source : String) :
    ∃ notices, o.log source = report notices := by
  rw [log]
  cases o.verbose
  · exact ⟨[], rfl⟩
  · exact ⟨_, rfl⟩

/-- A diagnostic starts as its text does, up to the first escape character. -/
theorem prefix_diagnostic {start text : String} (hstart : '\x1b' ∉ start.toList)
    (h : start.toList <+: text.toList) : start.toList <+: (diagnostic text).toList := by
  obtain ⟨rest, hrest⟩ := h
  rw [diagnostic, String.toList_append, String.toList_ofList, ← hrest,
    withoutControls_append hstart, List.append_assoc]
  exact List.prefix_append _ _

private theorem prefix_fileReport (action path : String) (f : FileFault) :
    "error:".toList <+: (fileReport action path f).toList := by
  refine prefix_diagnostic (by decide) ?_
  simp only [String.toList_append, List.append_assoc]
  exact (by decide : "error:".toList <+: "error: cannot ".toList).trans (List.prefix_append _ _)

private theorem prefix_parseReport (message : String) :
    "parse error:".toList <+: (diagnostic ("parse error:\n" ++ message)).toList := by
  refine prefix_diagnostic (by decide) ?_
  rw [String.toList_append]
  exact (by decide : "parse error:".toList <+: "parse error:\n".toList).trans
    (List.prefix_append _ _)

/-- A failure ends in order if it is reported behind the notices. -/
theorem Outcome.Orderly.of_failure {notices : List Notice} {stdout text : String}
    (h : "error:".toList <+: text.toList ∨ "parse error:".toList <+: text.toList) :
    Outcome.Orderly ⟨.failure, stdout, report notices ++ text⟩ :=
  ⟨rfl, .inr (.inr ⟨rfl, notices, text, rfl, h⟩)⟩

/-- A run that keeps to the limits ends in order exactly if the bytes that it reads, if it reads
any, are valid UTF-8, and the result, if there is one, can be indented as far as it should. -/
theorem orderly_iff (d : Directory) (stdin : ByteArray) (arguments : List String) :
    KeepsToLimits d stdin arguments →
      ((runIn d stdin arguments).1.Orderly ↔
        ∀ options bytes, ReadsBytes d stdin arguments options bytes →
          bytes.IsValidUTF8 ∧ ∀ source, decode bytes = some source →
            (∃ value, options.view.value source = .ok value) →
              ∀ n, options.indent = some n → Json.isIndent n = true) := by
  -- The limits only say which runs are meant: no run of the model knows of them.
  intro _
  constructor
  · intro horderly options bytes hbytes
    have hcaught := horderly.caught
    have hvalid : bytes.IsValidUTF8 := Classical.byContradiction fun hinvalid => by
      rw [hbytes.runIn_eq, process, decode_eq_none_iff.mpr hinvalid] at hcaught
      cases hcaught
    refine ⟨hvalid, fun source hdecode hvalue n hn => ?_⟩
    cases hindent : Json.isIndent n with
    | true => rfl
    | false =>
      have hsource : ReadsSource d stdin arguments options source := ⟨bytes, hbytes, hdecode⟩
      rw [hsource.runIn_eq, View.render_eq_indent_iff.mpr ⟨hvalue, n, hn, hindent⟩] at hcaught
      cases hcaught
  · intro h
    have hruns := runs d stdin arguments
    generalize runIn d stdin arguments = result at hruns ⊢
    cases hruns with
    | refused | missing => exact ⟨rfl, .inr (.inl rfl)⟩
    | printed | written => exact ⟨rfl, .inl rfl⟩
    | @unreadable _ path f =>
      have hreport : fileReport "read" path f = report [] ++ fileReport "read" path f := by
        simp [report]
      rw [hreport]
      exact .of_failure (.inl (prefix_fileReport "read" path f))
    | undecodable hbytes hdecode =>
      exact absurd (h _ _ hbytes).1 (decode_eq_none_iff.mp hdecode)
    | @refusedSource options source f =>
      obtain ⟨notices, hlog⟩ := options.exists_log source
      rw [hlog]
      exact .of_failure (.inr (prefix_parseReport f.message))
    | @unwritable options source _ path f =>
      obtain ⟨notices, hlog⟩ := options.exists_log source
      rw [hlog]
      exact .of_failure (.inl (prefix_fileReport "write" path f))
    | unindentable hsource hrender =>
      obtain ⟨bytes, hbytes, hdecode⟩ := hsource
      obtain ⟨hvalue, n, hn, hindent⟩ := View.render_eq_indent_iff.mp hrender
      rw [(h _ _ hbytes).2 _ hdecode hvalue n hn] at hindent
      cases hindent

/-- An object with a bracket and a pair of surrogates in a string. -/
def pairedSource : String :=
  "%%\x7binit: \x7b\"system\": \"[\\ud83d\\ude00\", \"tags\": []\x7d\x7d%%\nA->B"

theorem read_indent_four :
    Options.read ["--indent", "4"] = .ok ⟨.diagram, some 4, false, none, none⟩ := by
  decide +kernel

private theorem keepsToLimits_pairedSource :
    KeepsToLimits {} pairedSource.toUTF8 ["--indent", "4"] := by
  have hsource : decode pairedSource.toUTF8 = some pairedSource := by decide +kernel
  have hobjects : Source.objects pairedSource.toList =
      ["\x7b\"system\": \"[\\ud83d\\ude00\", \"tags\": []\x7d".toList] := by decide +kernel
  have hlength : (View.diagram.value pairedSource).toOption.map
      (fun value => (value.write (.indented 4) 0).length) = some 920 := by decide +kernel
  refine ⟨by decide +kernel, ?_⟩
  rintro options source ⟨bytes, ⟨hasked, hheld⟩, hdecode⟩
  obtain rfl := Except.ok.inj (read_indent_four.symm.trans hasked)
  obtain rfl := Except.ok.inj hheld
  obtain rfl := Option.some.inj (hsource.symm.trans hdecode)
  refine ⟨by decide +kernel, ?_, fun _ => ?_, fun n hn _ => ?_, fun text htext => ?_⟩
  · rw [hobjects]
    decide +kernel
  · rw [hobjects]
    decide +kernel
  · cases hn
    decide
  · rw [View.render] at htext
    cases hvalue : View.diagram.value pairedSource with
    | error f =>
      rw [hvalue] at htext
      cases htext
    | ok value =>
      rw [hvalue] at hlength htext
      cases htext
      have hwrite : (value.write (.indented 4) 0).length = 920 := Option.some.inj hlength
      rw [Json.Value.render, String.length_ofList, List.length_append]
      exact (congrArg (· + 1) hwrite).trans_le (by decide : 920 + 1 ≤ maxLength)

/-- The run ends in order. -/
theorem orderly_iff_sample :
    KeepsToLimits {} pairedSource.toUTF8 ["--indent", "4"] ∧
      (runIn {} pairedSource.toUTF8 ["--indent", "4"]).1.Orderly := by
  refine ⟨keepsToLimits_pairedSource, (orderly_iff _ _ _ keepsToLimits_pairedSource).mpr ?_⟩
  rintro options bytes ⟨hasked, hheld⟩
  obtain rfl := Except.ok.inj (read_indent_four.symm.trans hasked)
  obtain rfl := Except.ok.inj hheld
  refine ⟨pairedSource.isValidUTF8, fun _ _ _ n hn => ?_⟩
  cases hn
  decide

/-- A single byte that is no UTF-8 ends a run that reads it. -/
theorem not_orderly_invalidByte : ¬(runIn {} ⟨#[0xff]⟩ []).1.Orderly := by
  intro h
  have hinvalid : ¬(⟨#[0xff]⟩ : ByteArray).IsValidUTF8 := by
    rw [← ByteArray.validateUTF8_eq_true_iff]
    decide +kernel
  have hbytes : ReadsBytes {} ⟨#[0xff]⟩ [] ⟨.diagram, some 2, false, none, none⟩ ⟨#[0xff]⟩ :=
    ⟨rfl, rfl⟩
  have hcaught := h.caught
  rw [hbytes.runIn_eq, process, decode_eq_none_iff.mpr hinvalid] at hcaught
  cases hcaught

end Command

end Lifeline
