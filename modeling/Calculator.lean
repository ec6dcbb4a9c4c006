import Calculator.Main
import Calculator.Proofs.Evaluation.Exact
import Calculator.Proofs.Grammar.Height
import Calculator.Proofs.Grammar.Printing
import Calculator.Proofs.Scan.Spacing
import Calculator.Proofs.Evaluation.Placeless
import Calculator.Proofs.Evaluation.Composition
import Calculator.Proofs.Reading.Reports
import Calculator.Proofs.Grammar.Repetition
import Calculator.Proofs.Grammar.Sentences
import Calculator.Proofs.Reading.Track
import Calculator.Proofs.Grammar.Locating
import Calculator.Proofs.Scan.Order
import Calculator.Proofs.Binding.Nodes
import Calculator.Proofs.Binding.Reuse
import Calculator.Proofs.Session.Answers
import Calculator.Proofs.Session.Runs
import Calculator.Proofs.Binding.Shape
import Calculator.Proofs.Evaluation.Checked
import Calculator.Proofs.Evaluation.Numerals
import Calculator.Proofs.Grammar.Tallest
import Calculator.Proofs.Binding.Readability
import Calculator.Proofs.Session.Bytes
import Calculator.Proofs.Session.Piping
import Calculator.Proofs.Evaluation.Subjects
import Calculator.Proofs.Scan.Buffer
import Calculator.Proofs.Scan.Scanner
import Calculator.Proofs.Session.Messages
import Calculator.Proofs.Descent.Progress
import Calculator.Proofs.Scan.Counters
