import LogRelay.Proofs.Stages

/-!
# Messages pending

What a writer has in its batch and in its backlog only moves from one to the other. Without a message
from outside there is never more of it, and there is less after a batch of which something was
delivered.
-/

namespace LogRelay

namespace Writer

def pending (w : Writer) : Nat := w.held.length + w.backlog.size

variable {μ : Measure} {now : Instant} {w w' : Writer} {r : Writer × List Notice}

theorem pending_eq (hh : w'.held = w.held) (hq : w'.backlog.toList = w.backlog.toList) :
    w'.pending = w.pending := by
  unfold pending
  rw [hh, ← Backlog.length_toList, hq, Backlog.length_toList]

theorem Advances.pending_le (h : Advances μ w r) : r.1.pending ≤ w.pending := by
  obtain ⟨taken, hq, hh⟩ := h.taken
  have hsize := congrArg List.length hq
  rw [List.length_append, Backlog.length_toList, Backlog.length_toList] at hsize
  unfold Writer.pending
  rcases hh with hh | ⟨hh, -⟩
  · rw [hh, List.length_append]
    omega
  · rw [hh, List.length_nil]
    omega

theorem sent_pending {batch : List Message} {last : Bool} (hp : w.phase = .sending batch last)
    (result : Except Panic (Except Failure (List Nat))) :
    (w.sent batch last result).1.pending + batch.length = w.pending + (returned batch result).length := by
  have hl := turn_letsGo (decide ((returned batch result).length < batch.length)) last
    { w with backlog := w.backlog.requeue (returned batch result) }
  have hheld : w.held = batch := by simp [held, hp]
  rw [sent_fst]
  unfold pending
  rw [held_of_isBare hl.bare, hl.backlog, hheld]
  simp only [List.length_nil, Backlog.requeue]
  omega

theorem length_returned_le (batch : List Message) (result : Except Panic (Except Failure (List Nat))) :
    (returned batch result).length ≤ batch.length := by
  unfold returned
  split
  · rw [Ledger.retained_eq_listed]
    exact (Ledger.listed_sublist _ batch).length_le
  · exact Nat.le_refl _

theorem length_retained_lt {batch : List Message} {failed : List Nat} {i : Nat} (hi : i < batch.length)
    (hf : i ∉ failed) : (retained failed batch).length < batch.length := by
  rw [Ledger.retained_eq_listed]
  exact (Ledger.length_listed_lt_iff failed batch).mpr ⟨i, hi, hf⟩

theorem respond_pending_le {e : Event} (hadd : e.isAdd = false) (hr : w.respond μ now e = some r) :
    r.1.pending ≤ w.pending := by
  by_cases hsent : ∃ result, e = .sent result
  · obtain ⟨result, rfl⟩ := hsent
    obtain ⟨batch, last, hp, rfl⟩ := respond_sent hr
    have h := sent_pending hp result
    have hle := length_returned_le batch result
    omega
  · cases change_of_respond hr with
    | ignore _ _ _ | enqueue _ _ _ => cases hadd
    | call _ hk hq => exact Nat.le_of_eq (pending_eq hk.held hq)
    | go hm => exact hm.advances.pending_le
    | clear _ hc =>
      unfold pending
      rw [held_of_isBare hc.bare, ← Backlog.length_toList, hc.backlog]
      exact Nat.zero_le _
    | settle _ _ | giveBack _ _ _ => exact absurd ⟨_, rfl⟩ hsent
    | check _ hk hq | close hk hq => exact Nat.le_of_eq (pending_eq hk.held (by rw [hq]))

end Writer

end LogRelay
