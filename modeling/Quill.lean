import Quill.Main
import Quill.Source.Directory
import Quill.Proofs.Lexical.FirstFault
import Quill.Proofs.Lexical.Joining
import Quill.Proofs.RoundTrip.Tokens
import Quill.Proofs.Parsing.EndOfInput
import Quill.Proofs.Parsing.Chains
import Quill.Proofs.Parsing.ErrorKinds
import Quill.Proofs.Parsing.Kinds
import Quill.Proofs.Report.Outlines
import Quill.Proofs.Report.Tables
import Quill.Proofs.Canonical.Types
import Quill.Proofs.Canonical.Nesting
import Quill.Proofs.Descent.Agreement
import Quill.Proofs.Positions.Range
