import LogRelay.Proofs.Conservation
import LogRelay.Proofs.Pending
import LogRelay.Proofs.Policy

/-!
# How much a writer ever holds

The policy of a backlog looks at the messages that come, not at those that are given back, so a backlog
may grow beyond its threshold. It does so by a batch at most: what is queued and what is in the batch at
hand are together never more than the threshold and the largest batch, however often batches fail while
messages keep coming.
-/

namespace LogRelay

structure Backlog.Caps (n : Nat) (q : Backlog) : Prop where
  threshold : q.threshold ≤ n
  action : q.action ≠ .none

/-- The event leaves a policy under which no more than `n` messages are kept. -/
def Event.Caps (n : Nat) : Event → Prop
  | .setThreshold t => t ≤ n
  | .setAction a => a ≠ .none
  | _ => True

instance (n : Nat) : (e : Event) → Decidable (e.Caps n)
  | .setThreshold t => inferInstanceAs (Decidable (t ≤ n))
  | .setAction a => inferInstanceAs (Decidable (a ≠ .none))
  | .add _ | .stop | .setBatchDelay _ | .setFailure _ | .start | .go | .checked _ | .sent _ | .closed _ =>
    isTrue trivial

namespace Backlog

variable {n : Nat} {q q' : Backlog}

theorem Caps.same (h : q.Caps n) (hs : SamePolicy q q') : q'.Caps n :=
  ⟨hs.threshold ▸ h.threshold, hs.action ▸ h.action⟩

theorem Caps.enqueue (h : q.Caps n) (m : Message) : (q.enqueue m).Caps n ∧ (q.enqueue m).size ≤ n := by
  refine ⟨h.same (enqueue_samePolicy q m), ?_⟩
  rw [← length_toList, toList_enqueue]
  exact Nat.le_trans (DiscardAction.length_keep_le _ h.action _) h.threshold

end Backlog

namespace Writer

variable {μ : Measure} {now : Instant} {n b : Nat} {w : Writer} {r : Writer × List Notice}

theorem respond_caps {e : Event} (he : e.Caps n) (hr : w.respond μ now e = some r) (h : w.backlog.Caps n) :
    r.1.backlog.Caps n := by
  have hsame : ∀ {w'}, SameTuning w w' → w'.backlog.Caps n := fun hs => h.same hs.policy
  cases e with
  | add m =>
    simp only [respond] at hr
    split at hr
    · cases hr
    · cases hr
      exact hsame (add_sameTuning m now w)
  | stop =>
    simp only [respond] at hr
    split at hr
    · cases hr
    · cases hr
      exact hsame (stop_sameTuning now w)
  | start =>
    cases hr
    exact hsame (start_sameTuning w)
  | setBatchDelay _ | setFailure _ => cases hr; exact h
  | setThreshold t => cases hr; exact ⟨he, h.action⟩
  | setAction a => cases hr; exact ⟨h.threshold, he⟩
  | go => exact hsame (respond_go hr).sameTuning
  | checked result =>
    obtain ⟨-, rfl⟩ := respond_checked hr
    by_cases hrefused : ∃ e, result = .ok (.error e)
    · obtain ⟨e, rfl⟩ := hrefused
      exact ⟨Nat.zero_le n, DiscardAction.noConfusion⟩
    · exact hsame (checked_sameTuning (fun e heq => hrefused ⟨e, heq⟩) w)
  | sent result =>
    obtain ⟨batch, last, -, rfl⟩ := respond_sent hr
    exact hsame (sent_sameTuning batch last result w)
  | closed result =>
    obtain ⟨-, rfl⟩ := respond_closed hr
    exact hsame (closed_sameTuning result w)

theorem Move.held_le (hb : 1 ≤ b) (hlimit : ∀ bytes count, μ.withinLimits bytes count = .ok true → count ≤ b)
    (hm : w.Move μ now r) (h : w.held.length ≤ b) : r.1.held.length ≤ b := by
  have hnone : ∀ {w' : Writer} {r : Writer × List Notice}, LetsGo w' r → r.1.held.length ≤ b := by
    intro w' r hl
    rw [held_of_isBare hl.bare]
    exact Nat.zero_le b
  cases hm with
  | resume _ _ | leave _ _ _ _ | await _ _ _ => exact Nat.zero_le b
  | begin _ _ _ => exact hb
  | balk _ _ _ | spill _ _ => exact hnone (panicked_letsGo _ _)
  | interrupted _ _ _ | expire _ _ _ _ => exact hnone (turn_letsGo _ _ _)
  | @fill batch limit last f hp hf _ =>
    have hheld : w.held = batch.messages := by simp [held, hp]
    have hle : (batch.messages ++ f.taken).length ≤ b := by
      rw [List.length_append]
      by_cases ht : f.taken.length = 0
      · rw [ht, ← hheld]
        exact h
      · have hgrows := Measure.fill_grows hf (n := f.taken.length - 1) (by omega)
        have := hlimit _ _ hgrows
        omega
    cases hfull : f.full <;> simpa [held, hfull] using hle
  | cut hp _ _ | lapse hp _ _ => simpa [held, hp] using h

structure Within (n b : Nat) (w : Writer) : Prop where
  backlog : w.backlog.Caps n
  held : w.held.length ≤ b
  pending : w.pending ≤ n + b

theorem respond_within (hb : 1 ≤ b) (hlimit : ∀ bytes count, μ.withinLimits bytes count = .ok true → count ≤ b)
    {e : Event} (he : e.Caps n) (hr : w.respond μ now e = some r) (h : w.Within n b) : r.1.Within n b := by
  have hc : w.Change μ now r e := change_of_respond hr
  refine ⟨respond_caps he hr h.backlog, ?_, ?_⟩
  · cases hc with
    | ignore _ hk _ | enqueue _ hk _ | call _ hk _ | check _ hk _ | close hk _ => rw [hk.held]; exact h.held
    | go hm => exact hm.held_le hb hlimit h.held
    | clear _ hc => rw [held_of_isBare hc.bare]; exact Nat.zero_le b
    | settle _ hs | giveBack _ _ hs => rw [held_of_isBare hs.bare]; exact Nat.zero_le b
  · cases hadd : e.isAdd with
    | false => exact Nat.le_trans (respond_pending_le hadd hr) h.pending
    | true =>
      cases hc with
      | ignore _ hk hq => exact Nat.le_trans (Nat.le_of_eq (pending_eq hk.held (by rw [hq]))) h.pending
      | @enqueue m m' _ hk hq =>
        -- whatever had been queued, there is no more of it now than the threshold
        have hsize := (h.backlog.enqueue m').2
        have hheld := h.held
        unfold Writer.pending
        rw [hk.held, hq]
        omega
      | call he _ _ =>
        have hcall : e.isAdd = false := by cases e <;> first | rfl | cases he
        rw [hadd] at hcall
        cases hcall
      | _ => cases hadd

end Writer

/-! ## Whole courses -/

namespace Course

variable {μ : Measure} {s : Settings} {limit n b : Nat} {d : Diagnostics} {es : List Moment} {c : Course}

/-- For as long as the policy leaves `n` messages at most, and a batch takes `b` at most, there are never
more than `n + b` messages queued and in the batch at hand; and whenever a message has just been queued,
there are `n` at most in the queue. -/
theorem pending_bounded (hn : s.discardThreshold ≤ n) (ha : s.discardAction ≠ .none) (hb : 1 ≤ b)
    (hlimit : ∀ bytes count, μ.withinLimits bytes count = .ok true → count ≤ b)
    (hes : ∀ x ∈ es, x.event.Caps n) (h : (new s limit d).run μ es = some c) :
    c.writer.held.length + c.writer.backlog.toList.length ≤ n + b ∧
    ∀ now wall m c', c.writer.admitted? m ≠ none → c.step μ ⟨now, wall, .add m⟩ = some c' →
      c'.writer.backlog.toList.length ≤ n := by
  have hw : c.writer.Within n b := by
    have hnew : (new s limit d).writer.Within n b := ⟨⟨hn, ha⟩, Nat.zero_le b, Nat.zero_le _⟩
    have hend : (∀ x ∈ ([] : List Moment), x.event.Caps n) ∧ c.writer.Within n b := by
      refine run_keeps (J := fun es c => (∀ x ∈ es, x.event.Caps n) ∧ c.writer.Within n b) ?_ h
        ⟨by rwa [List.append_nil], hnew⟩
      intro x es c c' hx hJ
      obtain ⟨r, hr, hw, -⟩ := step_respond hx
      refine ⟨fun y hy => hJ.1 y (List.mem_cons_of_mem x hy), ?_⟩
      rw [hw]
      exact Writer.respond_within hb hlimit (hJ.1 x List.mem_cons_self) hr hJ.2
    exact hend.2
  refine ⟨?_, fun now wall m c' hadmitted hx => ?_⟩
  · rw [Backlog.length_toList]
    exact hw.pending
  · obtain ⟨r, hr, hw', -⟩ := step_respond hx
    rw [hw', Backlog.length_toList]
    cases Writer.change_of_respond hr with
    | ignore hnone _ _ => exact absurd hnone hadmitted
    | enqueue _ _ hq =>
      rw [hq]
      exact (hw.backlog.enqueue _).2
    | call he _ _ => cases he

def crowded : List Moment :=
  [.start, .checked (.ok (.ok ())), .go, .add ⟨⟨0⟩, "a"⟩, .add ⟨⟨0⟩, "b"⟩, .add ⟨⟨0⟩, "c"⟩, .go, .go, .add ⟨⟨0⟩, "d"⟩,
    .setBatchDelay 5, .go, .add ⟨⟨0⟩, "e"⟩, .add ⟨⟨0⟩, "f"⟩, .sent (.error ⟨none⟩), .go].map (⟨0, ⟨0⟩, ·⟩)

theorem pending_bounded_crowded :
    ∃ c, (new { target := .sns {}, discardThreshold := 2 } 8 {}).run pairs crowded = some c ∧
      c.writer.backlog.toList.map (·.text) = ["b", "c", "e", "f"] ∧
      c.writer.held.length + c.writer.backlog.toList.length ≤ 2 + 2 ∧
      ∃ c', c.step pairs ⟨0, ⟨0⟩, .add ⟨⟨0⟩, "g"⟩⟩ = some c' ∧
        c'.writer.backlog.toList.map (·.text) = ["f", "g"] ∧ c'.writer.backlog.toList.length ≤ 2 := by
  obtain ⟨c, c', hc, hc', hqueued, hkept, hadmitted⟩ : ∃ c c',
      (new { target := .sns {}, discardThreshold := 2 } 8 {}).run pairs crowded = some c ∧
      c.step pairs ⟨0, ⟨0⟩, .add ⟨⟨0⟩, "g"⟩⟩ = some c' ∧
      c.writer.backlog.toList.map (·.text) = ["b", "c", "e", "f"] ∧
      c'.writer.backlog.toList.map (·.text) = ["f", "g"] ∧ c.writer.admitted? ⟨⟨0⟩, "g"⟩ ≠ none :=
    ⟨_, _, rfl, rfl, rfl, rfl, by decide⟩
  have hlimit : ∀ bytes count, pairs.withinLimits bytes count = .ok true → count ≤ 2 := by
    intro bytes count h
    simp only [pairs, Except.ok.injEq, Bool.and_eq_true, decide_eq_true_eq] at h
    exact h.2
  obtain ⟨hle, hnext⟩ := pending_bounded (Nat.le_refl 2) DiscardAction.noConfusion (by decide) hlimit
    (by decide) hc
  exact ⟨c, hc, hqueued, hle, c', hc', hkept, hnext 0 ⟨0⟩ _ c' hadmitted hc'⟩

end Course

end LogRelay
