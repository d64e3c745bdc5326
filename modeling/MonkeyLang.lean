import MonkeyLang.Json.Read
import MonkeyLang.Main
import MonkeyLang.Program.Dump
import MonkeyLang.Proofs.Parsing.Printed
import MonkeyLang.Proofs.Running.Agreement
import MonkeyLang.Proofs.Running.FirstError
import MonkeyLang.Proofs.Running.Sequence
import MonkeyLang.Value.Dump
import MonkeyLang.Proofs.Running.Consoles
import MonkeyLang.Proofs.Running.Invariants
import MonkeyLang.Proofs.Running.Authority
import MonkeyLang.Proofs.Parsing.Layout
import MonkeyLang.Proofs.Running.Layout
import MonkeyLang.Proofs.Data.Datum
import MonkeyLang.Proofs.Data.Reach
import MonkeyLang.Proofs.Data.Unfolds
import MonkeyLang.Proofs.Data.Literals
import MonkeyLang.Proofs.Data.ReadBack
import MonkeyLang.Proofs.Scoping.Closed
import MonkeyLang.Proofs.Scoping.Local
import MonkeyLang.Proofs.Scoping.Scoped
import MonkeyLang.Proofs.Scoping.Frames
import MonkeyLang.Proofs.Scoping.Bound
import MonkeyLang.Proofs.Scoping.Coincidence
import MonkeyLang.Proofs.Json.Grammar
import MonkeyLang.Proofs.Json.Reads
import MonkeyLang.Proofs.Json.Writes
import MonkeyLang.Proofs.Json.Programs
import MonkeyLang.Proofs.Data.Renderings
import MonkeyLang.Proofs.Running.Plans
import MonkeyLang.Proofs.Running.CallOrder
import MonkeyLang.Proofs.Running.Ledger
import MonkeyLang.Proofs.Parsing.Lookahead
import MonkeyLang.Proofs.Parsing.Unlimited
import MonkeyLang.Proofs.Parsing.Viable
import MonkeyLang.Proofs.Parsing.Parts
import MonkeyLang.Proofs.Parsing.Limit
import MonkeyLang.Proofs.Data.Tables
import MonkeyLang.Proofs.Running.IdleLines
import MonkeyLang.Proofs.Data.Displays
import MonkeyLang.Proofs.Running.Entries
import MonkeyLang.Proofs.Running.FailedCalls
import MonkeyLang.Proofs.Running.Arithmetic
import MonkeyLang.Proofs.Scanning.Lines
import MonkeyLang.Proofs.Scanning.StringLiterals
import MonkeyLang.Proofs.Scoping.Histories
import MonkeyLang.Proofs.Running.Comparisons
import MonkeyLang.Proofs.Scanning.Spaced
import MonkeyLang.Proofs.Running.Arrays
import MonkeyLang.Proofs.Running.Bytes
