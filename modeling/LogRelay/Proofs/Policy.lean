import LogRelay.Proofs.Stages

/-!
# What a writer keeps of its settings

How long a writer collects a batch and what it discards are settings that may be changed at any time. A
writer changes them by itself in one case only: when it is told that its destination is not available.
-/

namespace LogRelay

structure Backlog.SamePolicy (q q' : Backlog) : Prop where
  threshold : q'.threshold = q.threshold
  action : q'.action = q.action

namespace Backlog

theorem SamePolicy.refl (q : Backlog) : SamePolicy q q := ⟨rfl, rfl⟩

theorem SamePolicy.trans {q₁ q₂ q₃ : Backlog} (h : SamePolicy q₁ q₂) (h' : SamePolicy q₂ q₃) : SamePolicy q₁ q₃ :=
  ⟨h'.threshold.trans h.threshold, h'.action.trans h.action⟩

theorem SameSettings.samePolicy {q q' : Backlog} (h : SameSettings q q') : SamePolicy q q' :=
  ⟨h.threshold, h.action⟩

theorem enqueue_samePolicy (q : Backlog) (m : Message) : SamePolicy q (q.enqueue m) :=
  (enqueue_sameSettings q m).samePolicy

end Backlog

namespace Writer

variable {μ : Measure} {now : Instant} {w : Writer} {r : Writer × List Notice}

structure SameTuning (w w' : Writer) : Prop where
  batchDelay : w'.batchDelay = w.batchDelay
  policy : w.backlog.SamePolicy w'.backlog

theorem SameTuning.refl (w : Writer) : SameTuning w w := ⟨rfl, .refl _⟩

theorem SameTuning.trans {w₁ w₂ w₃ : Writer} (h : SameTuning w₁ w₂) (h' : SameTuning w₂ w₃) : SameTuning w₁ w₃ :=
  ⟨h'.batchDelay.trans h.batchDelay, h.policy.trans h'.policy⟩

theorem turn_sameTuning (progressed last : Bool) (w : Writer) : SameTuning w (w.turn progressed last).1 := by
  unfold turn
  repeat' split
  all_goals exact ⟨rfl, rfl, rfl⟩

theorem panicked_sameTuning (p : Panic) (w : Writer) : SameTuning w (w.panicked p).1 := by
  unfold panicked
  repeat' split
  all_goals exact ⟨rfl, rfl, rfl⟩

theorem add_sameTuning (m : Message) (now : Instant) (w : Writer) : SameTuning w (w.add m now).1 := by
  rw [add_fst]
  split
  · refine ⟨?_, ?_⟩
    · unfold queue
      dsimp only
      split <;> rfl
    · rw [queue_backlog]
      exact Backlog.enqueue_samePolicy _ _
  · exact .refl w

theorem stop_sameTuning (now : Instant) (w : Writer) : SameTuning w (w.stop now).1 := by
  unfold stop
  dsimp only
  repeat' split
  all_goals exact ⟨rfl, rfl, rfl⟩

theorem start_sameTuning (w : Writer) : SameTuning w w.start := by
  unfold start
  split <;> exact ⟨rfl, rfl, rfl⟩

theorem Move.sameTuning (h : w.Move μ now r) : SameTuning w r.1 := by
  cases h with
  | begin _ hq _ => exact ⟨rfl, (Backlog.pop?_eq_some hq).2.samePolicy⟩
  | @balk _ _ _ q _ _ hq _ =>
    have hpop : SameTuning w { w with backlog := q } := ⟨rfl, (Backlog.pop?_eq_some hq).2.samePolicy⟩
    exact hpop.trans (panicked_sameTuning _ _)
  | interrupted _ _ _ =>
    have hclear : SameTuning w { w with backlog := w.backlog.clearInterrupt } := ⟨rfl, rfl, rfl⟩
    exact hclear.trans (turn_sameTuning _ _ _)
  | expire _ _ _ _ => exact turn_sameTuning _ _ _
  | @spill _ _ _ _ left _ _ =>
    have hleft : SameTuning w { w with backlog := w.backlog.withMessages left } := ⟨rfl, rfl, rfl⟩
    exact hleft.trans (panicked_sameTuning _ _)
  | _ => exact ⟨rfl, rfl, rfl⟩

theorem sent_sameTuning (batch : List Message) (last : Bool)
    (result : Except Panic (Except Failure (List Nat))) (w : Writer) :
    SameTuning w (w.sent batch last result).1 := by
  have hback : SameTuning w { w with backlog := w.backlog.requeue (returned batch result) } := ⟨rfl, rfl, rfl⟩
  rw [sent_fst]
  exact hback.trans (turn_sameTuning _ _ _)

theorem checked_sameTuning {result : Except Panic (Except Failure Unit)} (h : ∀ e, result ≠ .ok (.error e))
    (w : Writer) : SameTuning w (w.checked result).1 := by
  rcases result with p | e | _
  · exact ⟨rfl, rfl, rfl⟩
  · exact absurd rfl (h e)
  · exact ⟨rfl, rfl, rfl⟩

theorem closed_sameTuning (result : Except Panic Unit) (w : Writer) : SameTuning w (w.closed result).1 := by
  cases result with
  | ok _ => exact ⟨rfl, rfl, rfl⟩
  | error p => exact panicked_sameTuning p w

end Writer

end LogRelay
