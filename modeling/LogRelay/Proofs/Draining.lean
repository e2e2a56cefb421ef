import LogRelay.Proofs.Conservation
import LogRelay.Proofs.Pending
import LogRelay.Proofs.Stopping

/-!
# Stopping drains the queue while there is progress

When every batch sent after the request to stop gets something delivered, each send leaves fewer
messages pending, so the writer comes to its end; and it does not do so while it has any message left,
whatever the deadline. What was pending at the request has then been delivered, each message once.
-/

namespace LogRelay

namespace Writer

variable {μ : Measure} {now : Instant} {starts : Nat} {w w' : Writer} {r : Writer × List Notice}

def Thorough (w : Writer) : Prop := w.phase = .closing ∨ w.finished = true → w.backlog.isEmpty = true

theorem turn_thorough (hf : w.finished = false) (last : Bool) : (w.turn true last).1.Thorough := by
  intro h
  unfold turn at h ⊢
  by_cases hs : w.synchronous = true
  · by_cases hd : w.isStopped = true
    · by_cases he : w.backlog.isEmpty = true
      · simp [hs, hd, he]
      · simp [hs, hd, he, hf] at h
    · simp [hs, hd, hf] at h
  · simp [hs, hf] at h

theorem Move.not_finished (h : w.InOrder starts) (hm : w.Move μ now r) : w.finished = false := by
  have hphase := h.phase
  cases hm with
  | resume hp _ | leave hp _ _ _ | await hp _ _ =>
    rw [hp] at hphase
    exact hphase.1
  | begin hp _ _ | balk hp _ _ | interrupted hp _ _ | expire hp _ _ _ =>
    rw [hp] at hphase
    exact hphase.1.1
  | fill hp _ _ | spill hp _ | cut hp _ _ | lapse hp _ _ =>
    rw [hp] at hphase
    exact hphase.1.1

theorem Move.thorough (ht : μ.Total) (h : w.InOrder starts) (hm : w.Move μ now r) : r.1.Thorough := by
  have hf : w.finished = false := hm.not_finished h
  have hbusy : ∀ w' : Writer, w'.finished = w.finished → w'.phase ≠ .closing → w'.Thorough := by
    intro w' hf' hp' hw'
    rcases hw' with hw' | hw'
    · exact absurd hw' hp'
    · rw [hf', hf] at hw'
      cases hw'
  cases hm with
  | leave _ _ _ he => exact fun _ => he
  | interrupted _ _ _ => exact turn_thorough (w := { w with backlog := w.backlog.clearInterrupt }) hf _
  | expire _ _ _ _ => exact turn_thorough hf _
  | balk _ _ hb =>
    obtain ⟨n, hn⟩ := ht.size _
    rw [hn] at hb
    cases hb
  | spill _ hf => exact absurd ht (Measure.fill_error hf).2
  | fill _ _ _ =>
    refine hbusy _ rfl ?_
    dsimp only
    split <;> exact Phase.noConfusion
  | _ => exact hbusy _ rfl Phase.noConfusion

def Progresses (batch : List Message) (result : Except Panic (Except Failure (List Nat))) : Prop :=
  ∃ failed, result = .ok (.ok failed) ∧ ∃ i < batch.length, i ∉ failed

instance (batch : List Message) : (result : Except Panic (Except Failure (List Nat))) →
    Decidable (Progresses batch result)
  | .ok (.ok failed) => decidable_of_iff (∃ i < batch.length, i ∉ failed) (by simp [Progresses])
  | .ok (.error _) => isFalse (by rintro ⟨_, h, _⟩; cases h)
  | .error _ => isFalse (by rintro ⟨_, h, _⟩; cases h)

theorem Progresses.length_returned_lt {batch : List Message} {result : Except Panic (Except Failure (List Nat))}
    (h : Progresses batch result) : (returned batch result).length < batch.length := by
  obtain ⟨failed, rfl, i, hi, hf⟩ := h
  exact length_retained_lt hi hf

theorem respond_thorough (ht : μ.Total) (h : w.InOrder starts) (hd : w.isStopped = true) {e : Event}
    (hadd : e.isAdd = false) (havailable : ∀ result, e = .checked result → result = .ok (.ok ()))
    (hprogress : ∀ result, e = .sent result → Progresses w.held result) (hr : w.respond μ now e = some r)
    (hw : w.Thorough) : r.1.Thorough := by
  cases e with
  | add _ => cases hadd
  | stop =>
    simp only [respond] at hr
    split at hr
    · cases hr
    · cases hr
      simpa only [stop, hd, if_true] using hw
  | start =>
    cases hr
    unfold start
    split
    · rename_i hp
      rintro (h | h)
      · cases h
      · exact hw (Or.inr h)
    · exact hw
  | setBatchDelay _ | setThreshold _ | setAction _ | setFailure _ =>
    cases hr
    exact hw
  | go => exact (respond_go hr).thorough ht h
  | checked result =>
    obtain rfl := havailable result rfl
    obtain ⟨hp, rfl⟩ := respond_checked hr
    rintro (h | h)
    · simp only [checked] at h
      split at h <;> cases h
    · exact hw (Or.inr h)
  | sent result =>
    obtain ⟨batch, last, hp, rfl⟩ := respond_sent hr
    have hlt := (hprogress result rfl).length_returned_lt
    have hheld : w.held = batch := by simp [held, hp]
    have hphase := h.phase
    rw [hp] at hphase
    rw [hheld] at hlt
    rw [sent_fst, decide_eq_true hlt]
    exact turn_thorough (w := { w with backlog := w.backlog.requeue (returned batch result) }) hphase.1.1 last
  | closed result =>
    obtain ⟨hp, rfl⟩ := respond_closed hr
    intro _
    cases result with
    | ok _ => exact hw (Or.inl hp)
    | error p =>
      rw [closed, (panicked_letsGo p w).backlog]
      exact hw (Or.inl hp)

theorem stop_thorough (h : w.InOrder starts) (hd : w.isStopped = false)
    (hready : w.synchronous = true → w.initialized = true) : (w.stop now).1.Thorough := by
  have hf : w.finished = false := h.not_finished hd
  have hphase := h.phase
  intro hw
  unfold stop at hw ⊢
  simp only [hd, Bool.false_eq_true, if_false] at hw ⊢
  by_cases hs : w.synchronous = true
  · by_cases he : w.backlog.isEmpty = true
    · simp [hs, he]
    · simp [hs, he, hready hs, hf] at hw
  · simp only [hs, Bool.not_false, if_true] at hw
    rcases hw with hp | hp
    · rw [show w.phase = .closing from hp] at hphase
      rw [hphase.2] at hd
      cases hd
    · rw [show w.finished = true from hp] at hf
      cases hf

end Writer

/-! ## Whole courses -/

theorem Ledger.enter_unmoved {e : Event} (hadd : e.isAdd = false)
    (havailable : ∀ result, e = .checked result → result = .ok (.ok ())) (l : Ledger) (w w' : Writer) :
    (l.enter w w' e).admitted = l.admitted ∧ (l.enter w w' e).discarded = l.discarded := by
  cases e with
  | add _ => cases hadd
  | go =>
    simp only [Ledger.enter]
    split <;> exact ⟨rfl, rfl⟩
  | checked result =>
    obtain rfl := havailable result rfl
    exact ⟨rfl, rfl⟩
  | sent result => rcases result with p | e | failed <;> exact ⟨rfl, rfl⟩
  | _ => exact ⟨rfl, rfl⟩

namespace Course

/-- An answer to a batch reports some of it delivered. -/
def Delivers (c : Course) (y : Moment) : Prop :=
  ∀ result, y.event = .sent result → Writer.Progresses c.writer.held result

instance (c : Course) (y : Moment) : Decidable (Delivers c y) :=
  match he : y.event with
  | .sent result => decidable_of_iff (Writer.Progresses c.writer.held result) (by simp [Delivers, he])
  | .add _ | .stop | .setBatchDelay _ | .setThreshold _ | .setAction _ | .setFailure _ | .start | .go
  | .checked _ | .closed _ => isTrue (by simp [Delivers, he])

structure Draining (μ : Measure) (starts : Nat) (es : List Moment) (c : Course) : Prop
    extends Stopped starts es c where
  thorough : c.writer.Thorough
  available : ∀ y ∈ es, ∀ result, y.event = .checked result → result = .ok (.ok ())
  delivers : Throughout μ Delivers es c

variable {μ : Measure} {starts : Nat} {x : Moment} {es : List Moment} {c c' : Course}

theorem run_unmoved (hadd : ∀ y ∈ es, y.event.isAdd = false)
    (havailable : ∀ y ∈ es, ∀ result, y.event = .checked result → result = .ok (.ok ()))
    (h : c.run μ es = some c') :
    c'.ledger.admitted = c.ledger.admitted ∧ c'.ledger.discarded = c.ledger.discarded := by
  induction es generalizing c with
  | nil =>
    rw [run, Option.some.injEq] at h
    rw [h]
    exact ⟨rfl, rfl⟩
  | cons x es ih =>
    obtain ⟨c₁, h₁, h₂⟩ := run_cons h
    obtain ⟨r, -, -, hl⟩ := step_respond h₁
    obtain ⟨ha, hd⟩ := c.ledger.enter_unmoved (hadd x (by simp)) (havailable x (by simp)) c.writer r.1
    obtain ⟨ha', hd'⟩ := ih (fun y hy => hadd y (List.mem_cons_of_mem x hy))
      (fun y hy => havailable y (List.mem_cons_of_mem x hy)) h₂
    rw [ha', hd', hl]
    exact ⟨ha, hd⟩

section
variable {s : Settings} {limit : Nat} {d : Diagnostics} {before after : List Moment} {c₀ : Course} (ht : μ.Total)
include ht

theorem Draining.step (h : Draining μ starts (x :: es) c) (hx : c.step μ x = some c') :
    Draining μ (starts + if x.event.isStart then 1 else 0) es c' ∧
      c'.writer.pending + (if x.event.isSent then 1 else 0) ≤ c.writer.pending := by
  obtain ⟨r, hr, hw, -⟩ := step_respond hx
  have hadd := h.quiet x (by simp)
  constructor
  · refine ⟨h.toStopped.step ht hx, ?_, fun y hy => h.available y (List.mem_cons_of_mem x hy), h.delivers.2 c' hx⟩
    rw [hw]
    exact Writer.respond_thorough ht h.inOrder h.stopped hadd (h.available x (by simp)) h.delivers.1 hr h.thorough
  · rw [hw]
    cases he : x.event with
    | sent result =>
      rw [he] at hr
      have hlt := (h.delivers.1 result he).length_returned_lt
      obtain ⟨batch, last, hp, rfl⟩ := Writer.respond_sent hr
      have hheld : c.writer.held = batch := by simp [Writer.held, hp]
      have hpending := Writer.sent_pending hp result
      rw [hheld] at hlt
      simp only [Event.isSent, if_true]
      omega
    | _ =>
      have hle := Writer.respond_pending_le hadd hr
      simpa [Event.isSent] using hle

theorem run_draining (h : Draining μ starts es c) (hrun : c.run μ es = some c') :
    ∃ starts', Draining μ starts' [] c' := by
  refine run_keeps (J := fun es c => ∃ starts, Draining μ starts es c) ?_ hrun
    ⟨starts, by rwa [List.append_nil]⟩
  intro x es c c₁ hx hd
  obtain ⟨starts, hd⟩ := hd
  exact ⟨_, (hd.step ht hx).1⟩

theorem new_parts (h : (new s limit d).run μ es = some c) :
    (c.ledger.delivered ++ c.ledger.held ++ c.ledger.queued ++ c.ledger.discarded).Perm c.ledger.admitted ∧
      c.ledger.Describes c.writer ∧ c.ledger.delivered.Nodup := by
  have hs : c.ledger.Sound := run_sound h Ledger.sound_empty
  have hl : c.ledger.lost = [] := run_none_lost ht h (new_describes s limit d) rfl
  have hp := hs.parts
  rw [Ledger.places, hl, List.append_nil] at hp
  refine ⟨hp, run_describes h (new_describes s limit d), ?_⟩
  have hn := hp.nodup_iff.mpr hs.nodup
  rw [List.append_assoc, List.append_assoc] at hn
  exact (List.nodup_append.mp hn).1

/-- What there is to say of a writer right after the request to stop, if something of every batch is
delivered from then on. -/
theorem Shutdown.draining (h : Shutdown μ (new s limit d) before x after c₀ c)
    (hready : s.synchronous = true → c₀.writer.initialized = true)
    (havailable : ∀ y ∈ before ++ after, ∀ result, y.event = .checked result → result = .ok (.ok ()))
    (hdelivers : Throughout μ Delivers (x :: after) c₀) :
    ∃ c₁, c₀.step μ x = some c₁ ∧ c₁.run μ after = some c ∧ c₁.ledger = c₀.ledger ∧
      Draining μ (before.countP (·.event.isStart)) after c₁ ∧
      after.countP (·.event.isStep) ≤ 5 * c₀.writer.pending + 10 := by
  have hcalm : ∀ y ∈ before ++ after, ∀ p, y.event ≠ .checked (.error p) := by
    intro y hy p he
    cases havailable y hy _ he
  have hafter : ∀ y ∈ after, ∀ result, y.event = .checked result → result = .ok (.ok ()) :=
    fun y hy => havailable y (List.mem_append_right _ hy)
  obtain ⟨c₁, h₁, h₂, hs, hw, hl, hi, -⟩ := h.stopped ht hcalm
  have hdraining : Draining μ (before.countP (·.event.isStart)) after c₁ := by
    refine ⟨hs, ?_, hafter, hdelivers.2 c₁ h₁⟩
    rw [hw]
    exact Writer.stop_thorough hi h.running fun hs => hready (h.synchronous.1 ▸ hs)
  have hpending : c₁.writer.pending ≤ c₀.writer.pending := by
    obtain ⟨r, hr, hw', -⟩ := step_respond h₁
    rw [hw']
    exact Writer.respond_pending_le (by rw [h.stop]; rfl) hr
  refine ⟨c₁, h₁, h₂, hl, hdraining, ?_⟩
  obtain ⟨-, hsteps⟩ := run_bounded
    (J := fun n es c => ∃ starts, Draining μ starts es c ∧ c.writer.pending = n) ht
    (fun n x es c c' hx hn => by
      obtain ⟨starts, hd, rfl⟩ := hn
      obtain ⟨hd', hle⟩ := hd.step ht hx
      exact ⟨_, ⟨_, hd', rfl⟩, hle⟩)
    hs h₂ ⟨_, hdraining, rfl⟩
  have hle := Writer.stepsLeft_le (before.countP (·.event.isStart)) c₁.writer.pending c₁.writer
  omega

theorem stopped_drains (h : Shutdown μ (new s limit d) before x after c₀ c)
    (hready : s.synchronous = true → c₀.writer.initialized = true)
    (havailable : ∀ y ∈ before ++ after, ∀ result, y.event = .checked result → result = .ok (.ok ()))
    (hdelivers : Throughout μ Delivers (x :: after) c₀) :
    after.countP (·.event.isStep) ≤ 5 * c₀.writer.pending + 10 ∧
    ((s.synchronous = false → (before ++ after).countP (·.event.isStart) = 1) →
      c.writer.IsOver ∨ ∃ t, c.writer.GoesOn μ t) ∧
    (c.writer.IsOver →
      c.writer.backlog.toList = [] ∧ c.writer.held = [] ∧ c₀.ledger.Describes c₀.writer ∧
      (c₀.ledger.delivered ++ c₀.ledger.held ++ c₀.ledger.queued).Perm c.ledger.delivered ∧
      c.ledger.delivered.Nodup ∧ ClosesOnce μ (before ++ x :: after) (new s limit d)) := by
  have hcalm : ∀ y ∈ before ++ after, ∀ p, y.event ≠ .checked (.error p) := by
    intro y hy p he
    cases havailable y hy _ he
  obtain ⟨c₁, h₁, h₂, hl, hdraining, hsteps⟩ := h.draining ht hready havailable hdelivers
  refine ⟨hsteps, h.over_or_goes_on ht hcalm, fun hover => ?_⟩
  obtain ⟨_, hd⟩ := run_draining ht hdraining h₂
  have hempty : c.writer.backlog.toList = [] := (Backlog.isEmpty_iff _).mp (hd.thorough (Or.inr hover.1))
  have hheld : c.writer.held = [] := Writer.held_of_isBare hover.bare
  obtain ⟨hparts₀, hdesc₀, -⟩ := new_parts ht h.past
  obtain ⟨hparts, hdesc, hnodup⟩ := new_parts ht (run_trans h.past h.future)
  obtain ⟨hadmitted, hdiscarded⟩ := run_unmoved h.quiet hdraining.available h₂
  have hheld' : c.ledger.held = [] := List.map_eq_nil_iff.mp (hdesc.held.trans hheld)
  have hqueued : c.ledger.queued = [] := List.map_eq_nil_iff.mp (hdesc.queued.trans hempty)
  refine ⟨hempty, hheld, hdesc₀, ?_, hnodup, h.closes_once ht hcalm hover⟩
  -- nothing is admitted or discarded any more, so what is accounted for is the same
  rw [hheld', hqueued, List.append_nil, List.append_nil, hadmitted, hdiscarded, hl] at hparts
  exact (List.perm_append_right_iff _).mp (hparts₀.trans hparts.symm)

end

def busy : List Moment :=
  [.start, .checked (.ok (.ok ())), .go, .add ⟨⟨0⟩, "a"⟩, .go, .add ⟨⟨0⟩, "b"⟩, .add ⟨⟨0⟩, "c"⟩, .go].map
    (⟨0, ⟨0⟩, ·⟩)

def belated : List Moment :=
  [.sent (.ok (.ok [0])), .go, .go, .go, .go, .sent (.ok (.ok [1, 7])), .go, .go, .go, .sent (.ok (.ok [])), .go,
    .closed (.ok ())].map (⟨90000000000, ⟨90⟩, ·⟩)

theorem stopped_drains_belated :
    ∃ c₀ c, Shutdown pairs (new { target := .sns {} } 8 {}) busy ⟨0, ⟨0⟩, .stop⟩ belated c₀ c ∧ c.writer.IsOver ∧
      c₀.ledger.held.map (·.message.text) = ["a", "b"] ∧ c₀.ledger.queued.map (·.message.text) = ["c"] ∧
      c.ledger.delivered.map (·.message.text) = ["b", "a", "c"] ∧ c.writer.backlog.toList = [] ∧
      (c₀.ledger.delivered ++ c₀.ledger.held ++ c₀.ledger.queued).Perm c.ledger.delivered ∧
      belated.countP (·.event.isStep) ≤ 5 * c₀.writer.pending + 10 ∧
      ClosesOnce pairs (busy ++ ⟨0, ⟨0⟩, .stop⟩ :: belated) (new { target := .sns {} } 8 {}) := by
  have ht : pairs.Total := ⟨fun m => ⟨m.size, rfl⟩, fun _ _ => ⟨_, rfl⟩⟩
  obtain ⟨c₀, c, h, hover, hheld, hqueued, hall, hd⟩ : ∃ c₀ c,
      Shutdown pairs (new { target := .sns {} } 8 {}) busy ⟨0, ⟨0⟩, .stop⟩ belated c₀ c ∧ c.writer.IsOver ∧
      c₀.ledger.held.map (·.message.text) = ["a", "b"] ∧ c₀.ledger.queued.map (·.message.text) = ["c"] ∧
      c.ledger.delivered.map (·.message.text) = ["b", "a", "c"] ∧
      Throughout pairs Delivers (⟨0, ⟨0⟩, .stop⟩ :: belated) c₀ :=
    ⟨_, _, ⟨rfl, rfl, rfl, rfl, by decide, by decide⟩, ⟨rfl, Or.inl rfl⟩, rfl, rfl, rfl, by decide⟩
  obtain ⟨hsteps, -, hend⟩ := stopped_drains ht h (fun hs => by cases hs) (by simp [busy, belated]) hd
  obtain ⟨hempty, -, -, hperm, -, honce⟩ := hend hover
  exact ⟨c₀, c, h, hover, hheld, hqueued, hall, hempty, hperm, hsteps, honce⟩

def shaky : Measure := ⟨fun _ => .error ⟨some "size"⟩, fun _ _ => .ok true⟩

def brokenOff : List Moment := [.start, .checked (.ok (.ok ())), .go, .go].map (⟨0, ⟨0⟩, ·⟩)

/-- A panic in sizing ends the writer without its message and without a word to the destination. -/
theorem panic_loses_pending :
    ∃ c₀ c, Shutdown shaky (new { target := .sns {} } 8 {}) [⟨0, ⟨0⟩, .add ⟨⟨0⟩, "a"⟩⟩] ⟨0, ⟨0⟩, .stop⟩
        brokenOff c₀ c ∧
      Throughout shaky Delivers (⟨0, ⟨0⟩, .stop⟩ :: brokenOff) c₀ ∧ c.writer.IsOver ∧
      c₀.ledger.queued.map (·.message.text) = ["a"] ∧ c.ledger.delivered = [] ∧ c.ledger.lost = c₀.ledger.queued ∧
      brokenOff.countP (·.event.isClosed) = 0 :=
  ⟨_, _, ⟨rfl, rfl, rfl, rfl, by decide, by decide⟩, by decide, ⟨rfl, Or.inl rfl⟩, rfl, rfl, rfl, rfl⟩

end Course

end LogRelay
