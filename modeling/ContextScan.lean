import ContextScan.Host
import ContextScan.Json.Stored
import ContextScan.Proofs.Admissible
import ContextScan.Proofs.CodePoints
import ContextScan.Proofs.Conditional
import ContextScan.Proofs.Dispatch
import ContextScan.Proofs.Extension
import ContextScan.Proofs.Independence
import ContextScan.Proofs.Intervals
import ContextScan.Proofs.Json.ReadBack
import ContextScan.Proofs.LineEndingSpans
import ContextScan.Proofs.LiteralRuns
import ContextScan.Proofs.LongestRun
import ContextScan.Proofs.Record
import ContextScan.Proofs.Snapping
import ContextScan.Proofs.Suppression
import ContextScan.Proofs.Walk
import ContextScan.Snapshot
