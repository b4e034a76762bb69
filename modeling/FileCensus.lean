import FileCensus.Json.Reader
import FileCensus.Main
import FileCensus.Proofs.Acceptance
import FileCensus.Proofs.Advance
import FileCensus.Proofs.Stack
import FileCensus.Proofs.Agenda
import FileCensus.Proofs.Termination
import FileCensus.Proofs.Coverage
import FileCensus.Proofs.Conservation
import FileCensus.Proofs.Cancellation
import FileCensus.Proofs.Solitude
import FileCensus.Proofs.Interruption
import FileCensus.Proofs.Moves
import FileCensus.Proofs.Order
import FileCensus.Proofs.Traffic
import FileCensus.Proofs.Countdown
import FileCensus.Proofs.Balance
import FileCensus.Proofs.Sealing
import FileCensus.Proofs.Stopping
import FileCensus.Proofs.Stages
import FileCensus.Proofs.Handling
import FileCensus.Proofs.Reception
import FileCensus.Proofs.Requests
import FileCensus.Proofs.Roster
import FileCensus.Proofs.Ownership
import FileCensus.Proofs.Custody
import FileCensus.Proofs.Report
import FileCensus.Proofs.Numerals
import FileCensus.Proofs.RoundTrip
import FileCensus.Proofs.ArrayWriting
import FileCensus.Proofs.Changes
import FileCensus.Proofs.Filtering
import FileCensus.Proofs.Ledger
import FileCensus.Proofs.Toil
import FileCensus.Proofs.Fairness
import FileCensus.Proofs.Calm
import FileCensus.Proofs.Shares
import FileCensus.Proofs.Settlement
import FileCensus.Proofs.Output
import FileCensus.Proofs.Front
import FileCensus.Proofs.Release
import FileCensus.Proofs.Breakdown
import FileCensus.Proofs.Refusal
import FileCensus.Proofs.Signals
import FileCensus.Proofs.BraceLanguage
import FileCensus.Proofs.Reuse
import FileCensus.Proofs.Spelling
import FileCensus.Proofs.Likeness
import FileCensus.Proofs.Respelling
import FileCensus.Proofs.Matching
import FileCensus.Proofs.Alternatives
import FileCensus.Proofs.PatternFaults
import FileCensus.Proofs.Segments
import FileCensus.Proofs.Quoting
import FileCensus.Proofs.Anchoring
import FileCensus.Proofs.Recognition
import FileCensus.Proofs.Callbacks
import FileCensus.Proofs.Postings
import FileCensus.Proofs.Monitoring
import FileCensus.Proofs.Reckoning
import FileCensus.Proofs.ScanFaults
import FileCensus.Proofs.TokenFaults
import FileCensus.Proofs.NodeFaults
import FileCensus.Proofs.FileFaults
import FileCensus.Proofs.DepthLimits
import FileCensus.Proofs.Throttling
import FileCensus.Proofs.LogLines
import FileCensus.Proofs.RootFiles
import FileCensus.Proofs.Durations
