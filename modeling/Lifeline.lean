import Lifeline.Edit
import Lifeline.Main
import Lifeline.Proofs.EditRun
import Lifeline.Proofs.LineComposition
import Lifeline.Proofs.MessageLine
import Lifeline.Proofs.MessageIndex
import Lifeline.Proofs.NumeralFaults
import Lifeline.Proofs.Regeneration
import Lifeline.Proofs.Scan.LineByLine
import Lifeline.Proofs.Script.MessageRuns
import Lifeline.Proofs.Script.StatementPosition
import Lifeline.Proofs.MissingName
import Lifeline.Proofs.Declarations
import Lifeline.Proofs.Scan.Tiling
import Lifeline.Proofs.Scan.Cuts
import Lifeline.Proofs.EditLaws
import Lifeline.Proofs.Json.Grammar
import Lifeline.Proofs.Json.ReadBack
import Lifeline.Proofs.Command.Files
import Lifeline.Proofs.MetadataReading
import Lifeline.Proofs.Command.Cases
import Lifeline.Proofs.Command.Atomicity
import Lifeline.Proofs.Command.Endings
import Lifeline.Proofs.FieldCodecs
import Lifeline.Proofs.LineRecognition
import Lifeline.Proofs.WrittenTags
import Lifeline.Proofs.Degradations
import Lifeline.Proofs.Command.Verbosity
import Lifeline.Proofs.LastAnnotation
import Lifeline.Proofs.Scan.LongestMatch
import Lifeline.Proofs.PlainComments
import Lifeline.Proofs.FlowLegend
import Lifeline.Proofs.CarriageReturns
import Lifeline.Proofs.Rendering
import Lifeline.Proofs.Inference
