import ClojureLayout.Handoff.Interleaving
import ClojureLayout.Server.Diagnostic
import ClojureLayout.Tree.Outline
import ClojureLayout.Tree.Format
import ClojureLayout.Main
import ClojureLayout.Proofs.Scanner.MaximalMunch
import ClojureLayout.Proofs.Tree.Meaning
import ClojureLayout.Proofs.Tree.Idempotence
import ClojureLayout.Proofs.Tree.Comments
import ClojureLayout.Proofs.Scanner.Accounting
import ClojureLayout.Proofs.Scanner.Lossless
import ClojureLayout.Proofs.Scanner.Places
import ClojureLayout.Proofs.Scanner.Relayout
import ClojureLayout.Proofs.Scanner.Cut
import ClojureLayout.Proofs.Scanner.Rebase
import ClojureLayout.Proofs.Handoff.History
import ClojureLayout.Proofs.Handoff.Interleaving
import ClojureLayout.Proofs.Handoff.Safety
import ClojureLayout.Proofs.Scanner.Calls
import ClojureLayout.Proofs.Scanner.Halting
import ClojureLayout.Proofs.Scanner.FailedRead
import ClojureLayout.Proofs.Scanner.Snippet
import ClojureLayout.Proofs.Scanner.LineEnds
import ClojureLayout.Proofs.Text.Utf8
import ClojureLayout.Proofs.Server.Agreement
import ClojureLayout.Proofs.Tree.NormalForm
import ClojureLayout.Proofs.Tree.Arrangement
import ClojureLayout.Proofs.CommandLine.Outcome
import ClojureLayout.Proofs.CommandLine.Breakdown
import ClojureLayout.Proofs.Tree.Repeated
import ClojureLayout.Proofs.Tree.Faultless
import ClojureLayout.Proofs.Tree.LayoutOrder
import ClojureLayout.Proofs.Server.Diagnostics
import ClojureLayout.Proofs.Text.Quoted
import ClojureLayout.Proofs.Tree.Outline
import ClojureLayout.Proofs.Config.Precedence
import ClojureLayout.Proofs.Scanner.EmptyRead
import ClojureLayout.Proofs.Scanner.Listing
import ClojureLayout.Proofs.Tree.NewlineRuns
import ClojureLayout.Proofs.Scanner.Operations
import ClojureLayout.Proofs.Handoff.Progress
