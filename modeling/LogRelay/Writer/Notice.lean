import LogRelay.Journal
import LogRelay.Statistics

/-!
# Notices

What a writer has to say about its work. A notice is recorded in the statistics and in the journal
at the time it is given.
-/

namespace LogRelay

inductive Notice
  /-- A message of `size` bytes is cut to `limit`. -/
  | truncating (size limit : Nat)
  /-- A message of `size` bytes is dropped. -/
  | discarding (size : Nat)
  /-- The destination is available. -/
  | available
  /-- The destination cannot be made available. -/
  | unavailable (e : Failure)
  /-- A batch was sent, and some of it goes back to the backlog. -/
  | sent (delivered requeued : Nat)
  /-- A batch goes back to the backlog whole. -/
  | refused (count : Nat) (e : Failure)
  /-- A panic broke off the sending of a message on the caller's thread. -/
  | passPanicked (p : Panic)
  /-- A panic ended the writer. -/
  | writerPanicked (p : Panic)
  /-- Time is up with messages left. -/
  | overdue (unsent : Nat)
  | stopping
  | stopped

/-- The journal and the statistics. -/
structure Diagnostics where
  journal : Array Entry := #[]
  statistics : Statistics := {}

namespace Diagnostics

def log (e : Entry) (d : Diagnostics) : Diagnostics := { d with journal := d.journal.push e }

def count (f : Statistics → Statistics) (d : Diagnostics) : Diagnostics :=
  { d with statistics := f d.statistics }

/-- A failure is the last error from now on. -/
def fail (message : String) (e : Failure) (now : Timestamp) (d : Diagnostics) : Diagnostics :=
  (d.count (·.setError message e now)).log (.error message (some e))

def record (now : Timestamp) (n : Notice) (d : Diagnostics) : Diagnostics :=
  match n with
  | .truncating size limit =>
    (d.count Statistics.addOversize).log
      (.debug ("truncating oversize message from " ++ toString size ++ " to " ++ toString limit
        ++ " bytes"))
  | .discarding size =>
    (d.count Statistics.addOversize).log
      (.warn ("discarding oversize message of " ++ toString size ++ " bytes"))
  | .available => d.log (.debug ("log writer initialized for " ++ d.statistics.destinationName))
  | .unavailable e =>
    d.fail "unable to configure destination, discarding all messages" e now
  | .sent delivered requeued =>
    let d := d.count (·.addBatch delivered requeued)
    if requeued = 0 then d
    else d.log (.debug ("requeueing " ++ toString requeued ++ " of "
      ++ toString (delivered + requeued) ++ " messages"))
  | .refused count e => (d.count (·.addBatch 0 count)).fail "failed to send batch" e now
  | .passPanicked p =>
    (d.count Statistics.addFailure).fail "synchronous send panicked" p.toFailure now
  | .writerPanicked p => (d.count Statistics.addFailure).fail "log writer failed" p.toFailure now
  | .overdue unsent =>
    d.log (.warn ("shutdown deadline passed with " ++ toString unsent ++ " unsent messages"))
  | .stopping => d.log (.debug ("stopping log writer for " ++ d.statistics.destinationName))
  | .stopped => d.log (.debug ("log writer stopped for " ++ d.statistics.destinationName))

def recordAll (now : Timestamp) (ns : List Notice) (d : Diagnostics) : Diagnostics :=
  ns.foldl (fun d n => d.record now n) d

end Diagnostics

end LogRelay
