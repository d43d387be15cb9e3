import FormLetter.Main
import FormLetter.Proofs.Batch.Faithful
import FormLetter.Proofs.Engine.Finished
import FormLetter.Proofs.Engine.Injection
import FormLetter.Proofs.Engine.Leftover
import FormLetter.Proofs.Engine.Termination
import FormLetter.Proofs.Package.Saving
import FormLetter.Proofs.Tag.Grammar
import FormLetter.Proofs.Tag.Listing
import FormLetter.Proofs.Template.Expansion
import FormLetter.Proofs.Xml.Splitting
import FormLetter.Proofs.Context.Session
import FormLetter.Proofs.Filter.Registration
import FormLetter.Proofs.Tag.Printing
import FormLetter.Proofs.Json.Token
import FormLetter.Proofs.Json.Written
import FormLetter.Proofs.CommandLine.Status
import FormLetter.Proofs.Batch.Failing
import FormLetter.Proofs.Loop.Counting
import FormLetter.Proofs.Tag.Pass
import FormLetter.Proofs.Engine.Unrolling
import FormLetter.Proofs.Engine.LoopFree
import FormLetter.Proofs.Engine.Binding
import FormLetter.Proofs.Tag.Missing
import FormLetter.Proofs.Filter.Number
import FormLetter.Proofs.Filter.Date
import FormLetter.Proofs.Converter.Program
import FormLetter.Proofs.Config.Omission
import FormLetter.Proofs.Tree.Visiting
import FormLetter.Proofs.Tree.Flattening
import FormLetter.Proofs.Loop.Reading
