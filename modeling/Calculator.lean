import Calculator.Grammar
import Calculator.Main
import Calculator.Proofs.Runs
import Calculator.Proofs.Unambiguity
import Calculator.Proofs.Reading
import Calculator.Proofs.Acceptance
import Calculator.Proofs.Applications
import Calculator.Proofs.CorrectPrefix
import Calculator.Proofs.Mending
import Calculator.Proofs.Operators
import Calculator.Proofs.History
import Calculator.Proofs.Truth
import Calculator.Proofs.Calls
import Calculator.Proofs.Correspondence
import Calculator.Proofs.Restart
import Calculator.Proofs.Spacing
import Calculator.Proofs.Order
import Calculator.Proofs.Tokenization
import Calculator.Proofs.Pulling
import Calculator.Proofs.Passages
import Calculator.Proofs.Continuation
import Calculator.Proofs.DeepGroups
import Calculator.Proofs.Concatenation
import Calculator.Proofs.Log
import Calculator.Proofs.Binary64
import Calculator.Proofs.Exactness
