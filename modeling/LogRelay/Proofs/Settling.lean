import LogRelay.Proofs.Building
import LogRelay.Proofs.Conservation

/-!
# The answer to a batch

An answer lists positions of the batch, in any order and as often as it likes, or it is a failure.
What is listed stands in front of the backlog afterwards, ahead of all that came meanwhile, and the
statistics tell it from the rest. A failure lists the whole batch, as it were, and is the last error.
-/

namespace LogRelay

namespace Writer

variable {batch : List Message} {w : Writer}

theorem turn_aside (progressed last : Bool) (w : Writer) : ∀ n ∈ (w.turn progressed last).2, n.isAside = true := by
  unfold turn
  repeat' split
  all_goals simp [Notice.isAside]

theorem record_sent (delivered requeued : Nat) (wall : Timestamp) (d : Diagnostics) :
    (d.record wall (.sent delivered requeued)).statistics = d.statistics.addBatch delivered requeued := by
  unfold Diagnostics.record
  dsimp only
  split <;> rfl

end Writer

namespace Course

/-- An answer gave `back` to the backlog and counted `delivered` messages of the batch; the writer goes
on as one that has or has not got on with its work. The counters before the batch are those of `c`, and
what has come since is in the backlog of `c₁`. -/
structure Settled (c c₁ : Course) (last : Bool) (back : List Message) (delivered : Nat) (progressed : Bool)
    (lastError : Option LastError) (c₂ : Course) : Prop where
  queue : c₂.writer.backlog.toList = back ++ c₁.writer.backlog.toList
  sent : c₂.diagnostics.statistics.sent = c.diagnostics.statistics.sent + delivered.toUInt64
  sentLastBatch : c₂.diagnostics.statistics.sentLastBatch = delivered.toUInt64
  requeuedLastBatch : c₂.diagnostics.statistics.requeuedLastBatch = back.length.toUInt64
  lastError : c₂.diagnostics.statistics.lastError = lastError
  goesOn : c₂.writer = ({ c₁.writer with backlog := c₁.writer.backlog.requeue back }.turn progressed last).1

variable {μ : Measure} {c c₁ : Course} {es : List Moment} {batch : List Message} {last : Bool}

theorem Builds.step_sent (h : Builds μ c es c₁ batch last) (now : Instant) (wall : Timestamp)
    (result : Except Panic (Except Failure (List Nat))) :
    ∃ c₂, c₁.step μ ⟨now, wall, .sent result⟩ = some c₂ ∧
      c₂.writer = (c₁.writer.sent batch last result).1 ∧
      c₂.diagnostics = c₁.diagnostics.recordAll wall (c₁.writer.sent batch last result).2 := by
  have hnext : c₁.writer.next μ now = .send batch last := by simp [Writer.next, h.sending]
  exact ⟨⟨(c₁.writer.sent batch last result).1, c₁.diagnostics.recordAll wall (c₁.writer.sent batch last result).2,
    c₁.ledger.enter c₁.writer (c₁.writer.sent batch last result).1 (.sent result)⟩,
    by simp [step, Writer.respond, hnext], rfl, rfl⟩

/-- The notice `n` says what becomes of the batch; what follows it says nothing of that. -/
theorem Builds.settled (h : Builds μ c es c₁ batch last) {back : List Message} {delivered : Nat} {progressed : Bool}
    {lastError : Option LastError} {n : Notice} {wall : Timestamp} {c₂ : Course}
    (hw : c₂.writer = ({ c₁.writer with backlog := c₁.writer.backlog.requeue back }.turn progressed last).1)
    (hd : c₂.diagnostics = c₁.diagnostics.recordAll wall
      (n :: ({ c₁.writer with backlog := c₁.writer.backlog.requeue back }.turn progressed last).2))
    (hn : (c₁.diagnostics.record wall n).statistics =
      { c₁.diagnostics.statistics.addBatch delivered back.length with lastError := lastError }) :
    Settled c c₁ last back delivered progressed lastError c₂ := by
  have hreport : (c₁.diagnostics.record wall n).statistics.SameReport c₂.diagnostics.statistics := by
    rw [hd]
    exact .recordAll (Writer.turn_aside progressed last _) wall (c₁.diagnostics.record wall n)
  rw [hn] at hreport
  refine ⟨?_, ?_, hreport.sentLastBatch, hreport.requeuedLastBatch, hreport.lastError, hw⟩
  · rw [hw, (Writer.turn_letsGo progressed last _).backlog]
    exact Backlog.toList_requeue c₁.writer.backlog back
  · rw [hreport.sent, ← h.sameReport.sent]
    rfl

/-- Whatever is answered to a batch, with the positions listed in any order, more than once or beyond
its end: those of its messages that are listed, or all of them on a failure, come back in their order
to the front of what is queued by then, and the counters say how many they are and how many are not.
The writer has got on with its work if and only if there is one that is not among them. -/
theorem batch_settled (h : Builds μ c es c₁ batch last) (now : Instant) (wall : Timestamp)
    (result : Except Panic (Except Failure (List Nat))) :
    ∃ c₂, c₁.step μ ⟨now, wall, .sent result⟩ = some c₂ ∧
      match result with
      | .ok (.ok failed) =>
        Settled c c₁ last (Ledger.listed failed batch) (batch.length - (Ledger.listed failed batch).length)
          (decide (∃ i < batch.length, i ∉ failed)) c.diagnostics.statistics.lastError c₂
      | .ok (.error e) =>
        Settled c c₁ last batch 0 false (some ⟨"failed to send batch", e.text :: e.chains, wall⟩) c₂
      | .error p =>
        Settled c c₁ last batch 0 false
          (some ⟨"failed to send batch", p.toFailure.text :: p.toFailure.chains, wall⟩) c₂ := by
  obtain ⟨c₂, hx, hw, hd⟩ := h.step_sent now wall result
  refine ⟨c₂, hx, ?_⟩
  rcases result with p | e | failed
  · exact h.settled hw hd rfl
  · exact h.settled hw hd rfl
  · have hprogressed : decide (∃ i < batch.length, i ∉ failed) =
        decide ((Writer.retained failed batch).length < batch.length) := by
      rw [decide_eq_decide, Ledger.retained_eq_listed]
      exact (Ledger.length_listed_lt_iff failed batch).symm
    dsimp only
    rw [hprogressed, ← Ledger.retained_eq_listed, ← h.sameReport.lastError]
    exact h.settled hw hd (Writer.record_sent _ _ wall _)

def halved : List Moment :=
  [.go, .go, .add ⟨⟨0⟩, "d"⟩].map (⟨0, ⟨0⟩, ·⟩)

theorem batch_settled_halved :
    ∃ c c₁ c₂, Builds pairs c halved c₁ [⟨⟨0⟩, "a"⟩, ⟨⟨0⟩, "b"⟩] false ∧
      c₁.step pairs ⟨7, ⟨7⟩, .sent (.ok (.ok [5, 1, 1]))⟩ = some c₂ ∧
      Settled c c₁ false [⟨⟨0⟩, "b"⟩] 1 true none c₂ ∧
      c₂.writer.backlog.toList.map (·.text) = ["b", "c", "d"] := by
  obtain ⟨c, c₁, hc, hphase, hqueue, hrun, hbuilding, hsending, hrest, herror⟩ : ∃ c c₁,
      (new { target := .sns {} } 8 {}).run pairs ([.start, .checked (.ok (.ok ())), .go, .add ⟨⟨0⟩, "a"⟩,
        .add ⟨⟨0⟩, "b"⟩, .add ⟨⟨0⟩, "c"⟩].map (⟨0, ⟨0⟩, ·⟩)) = some c ∧
      c.writer.phase = .waiting none false ∧ c.writer.backlog.toList ≠ [] ∧ c.run pairs halved = some c₁ ∧
      Throughout pairs (fun c x => c.writer.isBuilding = true ∧ x.event.isSent = false) halved c ∧
      c₁.writer.phase = .sending [⟨⟨0⟩, "a"⟩, ⟨⟨0⟩, "b"⟩] false ∧
      c₁.writer.backlog.toList.map (·.text) = ["c", "d"] ∧ c.diagnostics.statistics.lastError = none :=
    ⟨_, _, rfl, rfl, by decide, rfl, by decide, rfl, rfl, rfl⟩
  have hbuilds : Builds pairs c halved c₁ [⟨⟨0⟩, "a"⟩, ⟨⟨0⟩, "b"⟩] false :=
    ⟨⟨none, hphase⟩, hqueue, hrun, hbuilding, hsending⟩
  obtain ⟨c₂, hx, hs⟩ := batch_settled hbuilds 7 ⟨7⟩ (.ok (.ok [5, 1, 1]))
  have hs' : Settled c c₁ false [⟨⟨0⟩, "b"⟩] 1 true none c₂ := herror ▸ hs
  refine ⟨c, c₁, c₂, hbuilds, hx, hs', ?_⟩
  rw [hs'.queue, List.map_append, hrest]
  rfl

end Course

end LogRelay
