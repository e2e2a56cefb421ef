import LogRelay.Backlog.Action
import LogRelay.Backlog.Timed
import LogRelay.Failure.Outline
import LogRelay.Proofs.Acceptance
import LogRelay.Proofs.Admission
import LogRelay.Proofs.Awaiting
import LogRelay.Proofs.Boundaries
import LogRelay.Proofs.Capacity
import LogRelay.Proofs.Chapters
import LogRelay.Proofs.Chronology
import LogRelay.Proofs.Grammar
import LogRelay.Proofs.Greedy
import LogRelay.Proofs.Headroom
import LogRelay.Proofs.Healing
import LogRelay.Proofs.Limits
import LogRelay.Proofs.Lookup
import LogRelay.Proofs.Overtime
import LogRelay.Proofs.Pieces
import LogRelay.Proofs.Provision
import LogRelay.Proofs.Resolution
import LogRelay.Proofs.Retries
import LogRelay.Proofs.Settling
import LogRelay.Proofs.Tokens
import LogRelay.Proofs.Traffic
import LogRelay.Proofs.Tuning
import LogRelay.Proofs.Unavailable
import LogRelay.Proofs.Unwinding
import LogRelay.Proofs.Windows
import LogRelay.Settings.Document
import LogRelay.Simulation.Rehearsal
import LogRelay.Simulation.Trial
