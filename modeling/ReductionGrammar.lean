import ReductionGrammar.Grammar.Action
import ReductionGrammar.Parser.Basic
import ReductionGrammar.Proofs.Pattern.Prefixes
import ReductionGrammar.Proofs.Pattern.RoundTrip
import ReductionGrammar.Proofs.Run.Derivation
import ReductionGrammar.Trace.Tracer
import ReductionGrammar.Value.Tagged
import ReductionGrammar.Proofs.Run.History
import ReductionGrammar.Proofs.Run.Selection
import ReductionGrammar.Proofs.Run.Sequence
import ReductionGrammar.Proofs.Run.Nullable
import ReductionGrammar.Proofs.Run.Termination
import ReductionGrammar.Proofs.Run.Erasure
import ReductionGrammar.Proofs.Grammar.Registry
import ReductionGrammar.Proofs.Run.Ceilings
import ReductionGrammar.Proofs.Run.Transcript
import ReductionGrammar.Proofs.Run.Safety
import ReductionGrammar.Proofs.Trace.Session
import ReductionGrammar.Proofs.Buffer.Greedy
import ReductionGrammar.Proofs.Buffer.Language
import ReductionGrammar.Proofs.Run.Leftmost
import ReductionGrammar.Proofs.Arithmetic.Calculator
import ReductionGrammar.Proofs.Arithmetic.Precedence
import ReductionGrammar.Proofs.Grammar.Validation
import ReductionGrammar.Proofs.Number.Digits
import ReductionGrammar.Proofs.Run.Mirror
import ReductionGrammar.Proofs.Arithmetic.Acceptance
import ReductionGrammar.Proofs.Trace.JsonGrammar
import ReductionGrammar.Proofs.Trace.JsonRecords
import ReductionGrammar.Proofs.Pattern.Concatenation
import ReductionGrammar.Proofs.Pattern.CharSetRanges
import ReductionGrammar.Proofs.Buffer.Classification
import ReductionGrammar.Proofs.Value.TreeRoundTrip
import ReductionGrammar.Proofs.Number.IntegerTexts
import ReductionGrammar.Proofs.Trace.ParseNumbers
