import LogRelay.Proofs.Appointments
import LogRelay.Proofs.Draining

/-!
# The window of a batch

The time for collecting a batch is fixed when its first message is taken. The writer then waits again
and again, but always for the same instant: it takes what comes before that, and sends the batch at that
instant, or before it if the batch is full or the writer is interrupted.
-/

namespace LogRelay

namespace Writer

variable {μ : Measure} {now : Instant} {w : Writer} {r : Writer × List Notice}

theorem Move.interrupted_of (hm : w.Move μ now r) (hi : r.1.backlog.interrupted = true) :
    w.backlog.interrupted = true := by
  cases hm with
  | begin _ hq _ => exact (Backlog.pop?_eq_some hq).2.interrupted ▸ hi
  | balk _ hq _ =>
    rw [(panicked_letsGo _ _).backlog] at hi
    exact (Backlog.pop?_eq_some hq).2.interrupted ▸ hi
  | interrupted _ _ _ =>
    rw [(turn_letsGo _ _ _).backlog] at hi
    cases hi
  | expire _ _ _ _ =>
    rw [(turn_letsGo _ _ _).backlog] at hi
    exact hi
  | spill _ _ =>
    rw [(panicked_letsGo _ _).backlog] at hi
    exact hi
  | cut _ _ _ => cases hi
  | _ => exact hi

theorem interrupted_of_respond {e : Event} (hr : w.respond μ now e = some r) (hi : r.1.backlog.interrupted = true) :
    w.backlog.interrupted = true ∨ w.isStopped = false ∧ e = .stop := by
  cases e with
  | stop =>
    by_cases hd : w.isStopped = true
    · simp [respond, stop, hd] at hr
      subst hr
      exact Or.inl hi
    · exact Or.inr ⟨by simpa using hd, rfl⟩
  | add m =>
    simp only [respond] at hr
    split at hr
    · cases hr
    · cases hr
      rw [add_fst] at hi
      split at hi
      · rw [queue_backlog, (Backlog.enqueue_sameSettings _ _).interrupted] at hi
        exact Or.inl hi
      · exact Or.inl hi
  | start =>
    cases hr
    rw [(start_keeps w).2] at hi
    exact Or.inl hi
  | setBatchDelay _ | setThreshold _ | setAction _ | setFailure _ =>
    cases hr
    exact Or.inl hi
  | go => exact Or.inl ((respond_go hr).interrupted_of hi)
  | checked result =>
    obtain ⟨-, rfl⟩ := respond_checked hr
    rcases result with p | e | ⟨⟨⟩⟩ <;> exact Or.inl hi
  | sent result =>
    obtain ⟨batch, last, -, rfl⟩ := respond_sent hr
    rw [sent_fst, (turn_letsGo _ _ _).backlog] at hi
    exact Or.inl hi
  | closed result =>
    obtain ⟨-, rfl⟩ := respond_closed hr
    cases result with
    | ok _ => exact Or.inl hi
    | error p =>
      rw [closed, (panicked_letsGo p w).backlog] at hi
      exact Or.inl hi

end Writer

namespace Course

variable {μ : Measure} {c c₁ : Course} {es es' : List Moment}

def Interrupts (c : Course) (es : List Moment) : Prop :=
  c.writer.backlog.interrupted = true ∨ c.writer.isStopped = false ∧ ∃ x ∈ es, x.event = .stop

theorem Interrupts.of_run (hrun : c.run μ es = some c₁) (h : c₁.Interrupts es') : c.Interrupts (es ++ es') := by
  induction es generalizing c with
  | nil =>
    rw [run, Option.some.injEq] at hrun
    subst hrun
    exact h
  | cons x es ih =>
    obtain ⟨c₂, h₁, h₂⟩ := run_cons hrun
    obtain ⟨r, hr, hw, -⟩ := step_respond h₁
    rcases ih h₂ with hi | ⟨hd, y, hy, hstop⟩
    · rw [hw] at hi
      rcases Writer.interrupted_of_respond hr hi with hi | ⟨hd, hstop⟩
      · exact Or.inl hi
      · exact Or.inr ⟨hd, x, by simp, hstop⟩
    · refine Or.inr ⟨?_, y, List.mem_cons_of_mem x hy, hstop⟩
      -- once stopped it would be stopped still
      by_cases hd' : c.writer.isStopped = true
      · have hdeadline := Writer.respond_deadline hd' hr
        rw [hw, isStopped_of_deadline hdeadline hd'] at hd
        cases hd
      · simpa using hd'

end Course

namespace World

variable {A : Api} {σ : Type} {env : Environment A σ} {w w₁ w₂ : World A σ} {id : Nat} {dest : Destination A}
  {c c₁ : Course} {limit : Instant} {last : Bool}

/-! ## Steps of a run -/

def Comes (env : Environment A σ) (id : Nat) (w w' : World A σ) : Prop :=
  ∃ k, ∀ n, drive env (n + k) id w = drive env n id w'

theorem Comes.trans (h : Comes env id w w₁) (h' : Comes env id w₁ w₂) : Comes env id w w₂ := by
  obtain ⟨k, hk⟩ := h
  obtain ⟨k', hk'⟩ := h'
  refine ⟨k' + k, fun n => ?_⟩
  rw [← Nat.add_assoc, hk, hk']

theorem comes_go (env : Environment A σ) (hseat : w.Seats id dest c.writer) (hb : c.writer.isBuilding = true) {x : Writer}
    {ns : List Notice} (hn : c.writer.next dest.toMeasure w.now = .go x ns) :
    ∃ w' c', Comes env id w w' ∧ Passed dest.toMeasure w c [] [⟨w.now, w.wall, .go⟩] w' c' ∧ c'.writer = x ∧
      w'.Seats id dest c'.writer ∧ Still w w' := by
  have hr : c.writer.respond dest.toMeasure w.now .go = some (x, ns) := by simp [Writer.respond, hn]
  obtain ⟨c', hx, hw, hseat'⟩ := hseat.respond (x := ⟨w.now, w.wall, .go⟩) hr
  refine ⟨w.put id (x, ns), c', ⟨1, fun n => ?_⟩, ?_, hw, hseat', .put _ _ _⟩
  · obtain ⟨cell, hc, rfl, hcw⟩ := hseat
    rw [← hcw] at hn
    exact drive_go hc hn n
  · exact ⟨rfl, rfl, Nat.le_refl _, by simp, Course.run_singleton hx, ⟨⟨hb, rfl⟩, fun _ _ => trivial⟩, rfl⟩

theorem comes_wait {t : Instant} (hseat : w.Seats id dest c.writer)
    (hn : c.writer.next dest.toMeasure w.now = .wait (some t))
    (hawait : ∀ run : Nat → World A σ → World A σ, w.awaitMessage run id (some t) = w₁) : Comes env id w w₁ := by
  refine ⟨1, fun n => ?_⟩
  obtain ⟨cell, hc, rfl, hcw⟩ := hseat
  rw [← hcw] at hn
  have hleft : w₁.isLeft id (some t) = false := by simp [isLeft]
  simp only [drive, hc, hn, hawait, hleft, if_false, Bool.false_eq_true]

/-! ## To the sending of the batch -/

/-- The writer comes to send its batch, which ends with the backlog or before a message that does not
fit: at `limit` at the latest unless that is over, and not before it unless messages are left or there
is an interrupt. -/
structure Dispatch (env : Environment A σ) (id : Nat) (dest : Destination A) (limit : Instant) (last : Bool)
    (w : World A σ) (c : Course) (kept : List (Appointment σ)) (es : List Moment) (w' : World A σ) (c' : Course)
    (batch : List Message) : Prop where
  comes : Comes env id w w'
  passed : Passed dest.toMeasure w c kept es w' c'
  ahead : ∀ a ∈ w'.agenda, w'.now ≤ a.due
  seat : w'.Seats id dest c'.writer
  sending : c'.writer.phase = .sending batch last
  stops : dest.toMeasure.Stops batch c'.writer.backlog.toList
  late : w'.now ≤ max w.now limit
  early : w'.now < limit → c'.writer.backlog.toList ≠ [] ∨ c.Interrupts es

def Dispatches (env : Environment A σ) (id : Nat) (dest : Destination A) (limit : Instant) (last : Bool)
    (w : World A σ) (c : Course) : Prop :=
  ∃ kept es w' c' batch, Dispatch env id dest limit last w c kept es w' c' batch

theorem Dispatches.after {kept : List (Appointment σ)} {es : List Moment}
    (h : Dispatches env id dest limit last w₁ c₁) (hcomes : Comes env id w w₁)
    (hpassed : Passed dest.toMeasure w c kept es w₁ c₁) (hle : w₁.now ≤ max w.now limit) :
    Dispatches env id dest limit last w c := by
  obtain ⟨kept', es', w', c', batch, h⟩ := h
  refine ⟨kept ++ kept', es ++ es', w', c', batch, hcomes.trans h.comes, hpassed.trans h.passed, h.ahead, h.seat,
    h.sending, h.stops, ?_, fun hlt => ?_⟩
  · exact Nat.le_trans h.late (Nat.max_le.mpr ⟨hle, Nat.le_max_right _ _⟩)
  · rcases h.early hlt with hne | hi
    · exact Or.inl hne
    · exact Or.inr (hi.of_run hpassed.run)

structure Collecting (id : Nat) (dest : Destination A) (limit : Instant) (last : Bool) (w : World A σ)
    (c : Course) : Prop where
  scheduled : w.Scheduled id
  seat : w.Seats id dest c.writer
  asynchronous : c.writer.synchronous = false
  counted : c.writer.phase.Counted dest.toMeasure
  phase : ∃ batch, c.writer.phase = .collecting batch limit last

theorem Collecting.building (h : Collecting id dest limit last w c) : c.writer.isBuilding = true := by
  obtain ⟨batch, hp⟩ := h.phase
  simp [Writer.isBuilding, hp]

theorem Collecting.still (h : Collecting id dest limit last w c) {batch : Batch} {kept : List (Appointment σ)}
    {es : List Moment} (hpassed : Passed dest.toMeasure w c kept es w₁ c₁) (hscheduled : w₁.Scheduled id)
    (hseat : w₁.Seats id dest c₁.writer) (hp : c₁.writer.phase = .collecting batch limit last) :
    Collecting id dest limit last w₁ c₁ := by
  have hs : c₁.writer.synchronous = false := Course.run_asynchronous hpassed.run h.asynchronous
  exact ⟨hscheduled, hseat, hs, Course.run_phase_counted hpassed.run h.counted, batch, hp⟩

theorem Collecting.dispatches_of_go (h : Collecting id dest limit last w c) {x : Writer} {ns : List Notice}
    {batch : List Message} (hn : c.writer.next dest.toMeasure w.now = .go x ns) (hp : x.phase = .sending batch last)
    (hearly : w.now < limit → x.backlog.toList ≠ [] ∨ c.writer.backlog.interrupted = true) :
    Dispatches env id dest limit last w c := by
  obtain ⟨w', c', hcomes, hpassed, rfl, hseat, hstill⟩ := comes_go env h.seat h.building hn
  have hahead : ∀ a ∈ w'.agenda, w'.now ≤ a.due := (h.scheduled.still hstill).ahead
  have hmove : c.writer.Move dest.toMeasure w.now (c'.writer, ns) := Writer.move_of_next hn
  refine ⟨_, _, w', c', batch, hcomes, hpassed, hahead, hseat, hp, hmove.stops h.counted hp, ?_, fun hlt => ?_⟩
  · rw [hstill.now]
    exact Nat.le_max_left _ _
  · rw [hstill.now] at hlt
    rcases hearly hlt with hne | hi
    · exact Or.inl hne
    · exact Or.inr (Or.inl hi)

/-- The writer takes all that is queued if that fits into the batch, and goes on collecting. -/
theorem Collecting.filled (env : Environment A σ) (h : Collecting id dest limit last w c) {batch : Batch} {f : Filling}
    (hp : c.writer.phase = .collecting batch limit last) (he : c.writer.backlog.isEmpty = false)
    (hf : dest.toMeasure.fill batch.bytes batch.messages.length c.writer.backlog.toList = .ok f)
    (hfull : f.full = false) :
    ∃ es w₁ c₁, Comes env id w w₁ ∧ Passed dest.toMeasure w c [] es w₁ c₁ ∧ Collecting id dest limit last w₁ c₁ ∧
      c₁.writer.backlog.isEmpty = true ∧ Still w w₁ := by
  obtain ⟨w₁, c₁, hcomes, hpassed, hw, hseat, hstill⟩ :=
    comes_go env h.seat h.building (Writer.next_fill hp he hf)
  have hp₁ : c₁.writer.phase = .collecting ⟨batch.messages ++ f.taken, f.bytes⟩ limit last := by
    rw [hw]
    simp [hfull]
  refine ⟨_, w₁, c₁, hcomes, hpassed, h.still hpassed (h.scheduled.still hstill) hseat hp₁, ?_, hstill⟩
  rw [hw, Backlog.isEmpty_iff, Backlog.toList_withMessages]
  exact Measure.fill_left hf hfull

section
variable (h : Collecting id dest limit last w c)
include h

/-- With nothing more to take, the batch is ready when there is an interrupt or the limit has come. -/
theorem Collecting.dispatches_of_ready (he : c.writer.backlog.isEmpty = true)
    (hready : c.writer.backlog.interrupted = true ∨ limit ≤ w.now) : Dispatches env id dest limit last w c := by
  obtain ⟨batch, hp⟩ := h.phase
  by_cases hi : c.writer.backlog.interrupted = true
  · exact h.dispatches_of_go (Writer.next_cut hp he hi) rfl fun _ => Or.inr hi
  · have hl : limit ≤ w.now := hready.resolve_left hi
    refine h.dispatches_of_go (Writer.next_lapse hp he (by simpa using hi) hl) rfl fun hlt => ?_
    exact absurd hlt (Nat.not_lt.mpr hl)

/-- With nothing more to take, the writer waits, and has something to take or is ready after that. -/
theorem Collecting.dispatches_of_empty (he : c.writer.backlog.isEmpty = true)
    (ih : ∀ (w₁ : World A σ) (c₁ : Course), Collecting id dest limit last w₁ c₁ →
      w₁.agenda.length < w.agenda.length → Dispatches env id dest limit last w₁ c₁) :
    Dispatches env id dest limit last w c := by
  by_cases hready : c.writer.backlog.interrupted = true ∨ limit ≤ w.now
  · exact h.dispatches_of_ready he hready
  · obtain ⟨batch, hp⟩ := h.phase
    have hi : c.writer.backlog.interrupted = false := by
      simpa using fun hi => hready (Or.inl hi)
    have hlt : w.now < limit := Nat.lt_of_not_le fun hl => hready (Or.inr hl)
    have hasleep : c.writer.isAwake = false := by simp [Writer.isAwake, Backlog.isAwake, he, hi]
    obtain ⟨kept, es, w₁, c₁, hawait, hwaited⟩ :=
      h.scheduled.awaitMessage_wakes h.asynchronous h.seat h.building hasleep hlt
    have hcomes : Comes env id w w₁ := comes_wait h.seat (Writer.next_wait hp he hi hlt) hawait
    have hnext : Collecting id dest limit last w₁ c₁ :=
      h.still hwaited.passed hwaited.scheduled hwaited.seat (hwaited.phase.trans hp)
    refine Dispatches.after ?_ hcomes hwaited.passed (Nat.le_trans hwaited.now (Nat.le_max_right _ _))
    rcases hwaited.ended with ⟨-, hkept⟩ | ⟨hasleep₁, hnow⟩
    · apply ih w₁ c₁ hnext
      rw [hwaited.passed.agenda, List.length_append]
      have := List.length_pos_iff.mpr hkept
      omega
    · simp only [Writer.isAwake, Backlog.isAwake, Bool.or_eq_false_iff, Bool.not_eq_false'] at hasleep₁
      exact hnext.dispatches_of_ready hasleep₁.1 (Or.inr (Nat.le_of_eq hnow.symm))

end

theorem Collecting.dispatches (ht : dest.toMeasure.Total) (h : Collecting id dest limit last w c) :
    Dispatches env id dest limit last w c := by
  -- each wait that something ends before the limit has taken an appointment off the agenda
  induction hm : w.agenda.length using Nat.strongRecOn generalizing w c with
  | ind m ih =>
    by_cases he : c.writer.backlog.isEmpty = true
    · exact h.dispatches_of_empty he fun w₁ c₁ h₁ hlt => ih _ (hm ▸ hlt) h₁ rfl
    · simp only [Bool.not_eq_true] at he
      obtain ⟨batch, hp⟩ := h.phase
      cases hf : dest.toMeasure.fill batch.bytes batch.messages.length c.writer.backlog.toList with
      | error e => exact absurd ht (Measure.fill_error hf).2
      | ok f =>
        have hn : c.writer.next dest.toMeasure w.now = _ := Writer.next_fill hp he hf
        by_cases hfull : f.full = true
        · obtain ⟨m, rest, hleft, -⟩ := Measure.fill_stops hf hfull
          refine h.dispatches_of_go hn (if_pos hfull) fun _ => Or.inl ?_
          show f.left ≠ []
          simp [hleft]
        · simp only [Bool.not_eq_true] at hfull
          obtain ⟨es, w₁, c₁, hcomes, hpassed, hnext, he₁, hstill⟩ := h.filled env hp he hf hfull
          refine Dispatches.after ?_ hcomes hpassed ?_
          · apply hnext.dispatches_of_empty he₁
            intro w₂ c₂ h₂ hlt
            rw [hstill.agenda] at hlt
            exact ih _ (hm ▸ hlt) h₂ rfl
          · rw [hstill.now]
            exact Nat.le_max_left _ _

/-- A writer that is about to take the first message of a batch comes to send it within its window. -/
theorem dispatches_of_waiting (ht : dest.toMeasure.Total) (h : w.Scheduled id) (hseat : w.Seats id dest c.writer)
    (hs : c.writer.synchronous = false) {until? : Option Instant} (hp : c.writer.phase = .waiting until? last)
    (hq : c.writer.backlog.toList ≠ []) : Dispatches env id dest (c.writer.window w.now) last w c := by
  cases hpop : c.writer.backlog.pop? with
  | none => exact absurd (Backlog.pop?_eq_none hpop) hq
  | some mq =>
    obtain ⟨m, q⟩ := mq
    obtain ⟨bytes, hbytes⟩ := ht.size m
    have hb : c.writer.isBuilding = true := by simp [Writer.isBuilding, hp]
    have hcounted : c.writer.phase.Counted dest.toMeasure := by
      rw [hp]
      trivial
    obtain ⟨w₁, c₁, hcomes, hpassed, hw, hseat₁, hstill⟩ :=
      comes_go env hseat hb (Writer.next_begin hp hpop hbytes)
    have hwindow : ({ c.writer with backlog := q } : Writer).window w.now = c.writer.window w.now := rfl
    have hcollecting : Collecting id dest (c.writer.window w.now) last w₁ c₁ := by
      refine ⟨h.still hstill, hseat₁, ?_, Course.run_phase_counted hpassed.run hcounted, ⟨[m], bytes⟩,
        by rw [hw, hwindow]⟩
      rw [hw]
      exact hs
    refine (hcollecting.dispatches ht).after hcomes hpassed ?_
    rw [hstill.now]
    exact Nat.le_max_left _ _

end World

/-! ## What is in the batch -/

/-- When the batch that a writer begins at the time `t` is due: when the batch delay is over or, if the
writer has been stopped by then, at the deadline if that comes first; but not before `t`. -/
def Writer.due (t : Instant) (w : Writer) : Instant :=
  match w.deadline with
  | none => t + Duration.ofMillis w.batchDelay
  | some d => max t (min (t + Duration.ofMillis w.batchDelay) d)

theorem Writer.max_window {w : Writer} (hs : w.synchronous = false) (t : Instant) :
    max t (w.window t) = w.due t := by
  unfold window due
  simp only [hs, if_false, Bool.false_eq_true]
  cases w.deadline with
  | none =>
    show max t (t + _) = t + _
    exact Nat.max_eq_right (Nat.le_add_right _ _)
  | some d => simp only

namespace Course

variable {μ : Measure} {c c' : Course} {es : List Moment} {batch : List Message} {last : Bool}

theorem Builds.delivered (h : Builds μ c es c' batch last) : c'.ledger.delivered = c.ledger.delivered := by
  refine h.induct (P := fun c' => c'.ledger.delivered = c.ledger.delivered) (fun x _ c₁ c₂ hx hsent _ _ hc => ?_) rfl
  obtain ⟨r, -, -, hl⟩ := step_respond hx
  rw [hl, ← hc]
  cases he : x.event with
  | add m =>
    simp only [Ledger.enter]
    split <;> rfl
  | go =>
    simp only [Ledger.enter]
    split <;> rfl
  | checked result => rcases result with p | e | _ <;> rfl
  | sent result =>
    rw [he] at hsent
    cases hsent
  | _ => rfl

/-- The message is queued, and it or one that is queued before it does not fit into the batch. -/
def LeftOut (μ : Measure) (batch : List Message) (l : Ledger) (x : Submission) : Prop :=
  x ∈ l.queued ∧ ∃ y ∈ l.queued, y.number ≤ x.number ∧
    μ.withinLimits (μ.totalWeight batch + μ.weight y.message) (batch.length + 1) = .ok false

theorem leftOut_of_stops {l : Ledger} {w : Writer} (hsound : l.Sound) (hdesc : l.Describes w)
    (hstops : μ.Stops batch w.backlog.toList) {x : Submission} (hx : x ∈ l.queued) : LeftOut μ batch l x := by
  refine ⟨hx, ?_⟩
  obtain ⟨-, hordered, -⟩ := List.pairwise_append.mp hsound.ordered
  cases hq : l.queued with
  | nil => simp [hq] at hx
  | cons y rest =>
    rw [hq] at hx hordered
    have hhead : w.backlog.toList.head? = some y.message := by
      rw [← hdesc.queued, hq]
      rfl
    refine ⟨y, by simp, ?_, hstops _ hhead⟩
    rcases List.mem_cons.mp hx with rfl | hx
    · exact Nat.le_refl _
    · exact Nat.le_of_lt ((List.pairwise_cons.mp hordered).1 x hx)

/-- While a batch is built nothing is delivered, so what is neither discarded nor in the batch by the end
of that is queued. -/
theorem Builds.held_or_leftOut {s : Settings} {size : Nat} {d : Diagnostics} {past : List Moment} (ht : μ.Total)
    (hpast : (new s size d).run μ past = some c) (h : Builds μ c es c' batch last)
    (hstops : μ.Stops batch c'.writer.backlog.toList) {x : Submission} (hx : x ∈ c'.ledger.admitted)
    (hnew : x ∉ c.ledger.delivered) (hkept : x ∉ c'.ledger.discarded) :
    x ∈ c'.ledger.held ∨ LeftOut μ batch c'.ledger x := by
  have hrun : (new s size d).run μ (past ++ es) = some c' := run_trans hpast h.run
  obtain ⟨hparts, hdesc, -⟩ := new_parts ht hrun
  have hsound : c'.ledger.Sound := run_sound hrun Ledger.sound_empty
  have hplaces := hparts.mem_iff.mpr hx
  simp only [List.mem_append] at hplaces
  rcases hplaces with ((hdelivered | hheld) | hqueued) | hdiscarded
  · rw [h.delivered] at hdelivered
    exact absurd hdelivered hnew
  · exact Or.inl hheld
  · exact Or.inr (leftOut_of_stops hsound hdesc hstops hqueued)
  · exact absurd hdiscarded hkept

end Course

theorem Appointment.filterMap_admitted {σ : Type} {epoch : Timestamp} {kept : List (Appointment σ)} {es : List Moment}
    (h : es.filter (fun x => !x.event.isStep) = kept.flatMap (·.moments epoch)) (w : Writer) :
    es.filterMap (·.event.admitted? w) = (kept.flatMap (·.moments epoch)).filterMap (·.event.admitted? w) := by
  have hstep : ∀ x : Moment, (if !x.event.isStep then x.event.admitted? w else none) = x.event.admitted? w := by
    intro x
    cases he : x.event <;> simp [Event.isStep, Event.admitted?]
  rw [← h, List.filterMap_filter]
  simp only [hstep]

namespace World

/-- An asynchronous writer that takes the first message of a batch comes to send it when the batch is due,
whatever is on the agenda: neither later nor, unless a message is left that does not fit or there is an
interrupt, any earlier. By then it has got what was on the agenda, and no message that it has admitted and
not delivered or discarded is missing from the batch but one that does not fit, or stands behind one. -/
theorem batch_sent_when_due {A : Api} {σ : Type} {env : Environment A σ} {w : World A σ} {id : Nat} {cell : Cell A}
    {s : Settings} {size : Nat} {d : Diagnostics} {past : List Moment} {c : Course} {until? : Option Instant}
    {last : Bool} (ht : cell.destination.toMeasure.Total)
    (hpast : (Course.new s size d).run cell.destination.toMeasure past = some c) (hc : w.cells[id]? = some cell)
    (hw : cell.writer = c.writer) (hs : s.synchronous = false) (hp : c.writer.phase = .waiting until? last)
    (hq : c.writer.backlog.toList ≠ []) (hscheduled : w.Scheduled id) :
    ∃ k w' cell' c' batch kept es,
      (∀ n, drive env (n + k) id w = drive env n id w') ∧ w'.cells[id]? = some cell' ∧
      cell'.destination = cell.destination ∧ cell'.writer = c'.writer ∧
      Course.Builds cell.destination.toMeasure c es c' batch last ∧
      (w.agenda = kept ++ w'.agenda ∧ (∀ a ∈ kept, a.due ≤ w'.now) ∧ (∀ a ∈ w'.agenda, w'.now ≤ a.due) ∧
        es.filter (fun x => !x.event.isStep) = kept.flatMap (·.moments w.epoch)) ∧
      (w.now ≤ w'.now ∧ w'.now ≤ c.writer.due w.now ∧ (w'.now < c.writer.due w.now →
        (∃ m, c'.writer.backlog.toList.head? = some m ∧ cell.destination.withinLimits
          (cell.destination.totalWeight batch + cell.destination.weight m) (batch.length + 1) = .ok false) ∨
        c.writer.backlog.interrupted = true ∨
        c.writer.isStopped = false ∧ ∃ a ∈ kept, a.stimulus = .stop)) ∧
      c'.ledger.held.map (·.message) = batch ∧
      c'.ledger.admitted.map (·.message) =
        (past ++ kept.flatMap (·.moments w.epoch)).filterMap (·.event.admitted? (Writer.create s size)) ∧
      ∀ x ∈ c'.ledger.admitted, x ∉ c.ledger.delivered → x ∉ c'.ledger.discarded →
        x ∈ c'.ledger.held ∨ Course.LeftOut cell.destination.toMeasure batch c'.ledger x := by
  have hsync : c.writer.synchronous = false := Course.run_asynchronous hpast hs
  obtain ⟨kept, es, w', c', batch, h⟩ : Dispatches env id cell.destination (c.writer.window w.now) last w c :=
    dispatches_of_waiting ht hscheduled ⟨cell, hc, rfl, hw⟩ hsync hp hq
  have hbuilds : Course.Builds cell.destination.toMeasure c es c' batch last :=
    ⟨⟨until?, hp⟩, hq, h.passed.run, h.passed.building, h.sending⟩
  have hrun : (Course.new s size d).run cell.destination.toMeasure (past ++ es) = some c' :=
    Course.run_trans hpast h.passed.run
  have hdesc : c'.ledger.Describes c'.writer := (Course.new_parts ht hrun).2.1
  obtain ⟨k, hk⟩ := h.comes
  obtain ⟨cell', hc', hd', hw'⟩ := h.seat
  refine ⟨k, w', cell', c', batch, kept, es, hk, hc', hd', hw', hbuilds,
    ⟨h.passed.agenda, h.passed.past, h.ahead, h.passed.calls⟩, ⟨h.passed.now, ?_, fun hlt => ?_⟩, ?_, ?_,
    fun x => hbuilds.held_or_leftOut ht hpast h.stops⟩
  · rw [← Writer.max_window hsync]
    exact h.late
  · have hlt : w'.now < c.writer.window w.now := by
      apply Nat.lt_of_not_le
      intro hle
      rw [← Writer.max_window hsync] at hlt
      exact Nat.not_le.mpr hlt (Nat.max_le.mpr ⟨h.passed.now, hle⟩)
    rcases h.early hlt with hne | hi | ⟨hd, hstop⟩
    · obtain ⟨m, hm⟩ := Option.isSome_iff_exists.mp (List.isSome_head?.mpr hne)
      exact Or.inl ⟨m, hm, h.stops m hm⟩
    · exact Or.inr (Or.inl hi)
    · exact Or.inr (Or.inr ⟨hd, h.passed.stopped hstop⟩)
  · rw [hdesc.held]
    simp [Writer.held, h.sending]
  · rw [Course.run_admitted hrun, List.filterMap_append, List.filterMap_append,
      Appointment.filterMap_admitted h.passed.calls]
    rfl

def patient : Destination ⟨Empty, fun _ => Unit⟩ where
  toMeasure := Course.pairs
  name _ := "patient"
  maxMessageSize := .ok 8
  makeAvailable := .done (.ok ())
  send _ := .done (.ok [])
  shutdown := .done ()

def office : Environment ⟨Empty, fun _ => Unit⟩ Unit where
  ask _ r := nomatch r
  draw o := (0, o)
  connect _ _ o := (.ok patient, o)
  spawn o := (.ok (), o)

def morning (x : Writer) : World ⟨Empty, fun _ => Unit⟩ Unit where
  now := 1000000
  epoch := ⟨0⟩
  host := { startup := ⟨0⟩, process := 1 }
  outside := ()
  agenda := [⟨3000000, 0, .add [{ text := "b" }]⟩, ⟨7000000, 0, .add [{ text := "c" }]⟩, ⟨9000000, 0, .stop⟩]
  cells := #[{ writer := x, destination := patient }]

theorem batch_sent_when_due_crowded :
    ∃ c, (Course.new { target := .sns {}, batchDelay := 10 } 8 {}).run Course.pairs
        ([.start, .checked (.ok (.ok ())), .go, .add ⟨⟨0⟩, "a"⟩].map (⟨0, ⟨0⟩, ·⟩)) = some c ∧
      c.writer.phase = .waiting none false ∧ c.writer.backlog.toList.map (·.text) = ["a"] ∧
      (morning c.writer).Scheduled 0 ∧
      ∃ k w' c' batch es, (∀ n, drive office (n + k) 0 (morning c.writer) = drive office n 0 w') ∧
        Course.Builds Course.pairs c es c' batch false ∧ 1000000 ≤ w'.now ∧ w'.now ≤ 11000000 ∧
        ∀ x ∈ c'.ledger.admitted, x ∉ c'.ledger.discarded →
          x ∈ c'.ledger.held ∨ Course.LeftOut Course.pairs batch c'.ledger x := by
  obtain ⟨c, hc, hp, hq, hnone, hdue⟩ : ∃ c, (Course.new { target := .sns {}, batchDelay := 10 } 8 {}).run Course.pairs
      ([.start, .checked (.ok (.ok ())), .go, .add ⟨⟨0⟩, "a"⟩].map (⟨0, ⟨0⟩, ·⟩)) = some c ∧
      c.writer.phase = .waiting none false ∧ c.writer.backlog.toList.map (·.text) = ["a"] ∧
      c.ledger.delivered = [] ∧ c.writer.due 1000000 = 11000000 := ⟨_, rfl, rfl, rfl, rfl, rfl⟩
  have ht : Course.pairs.Total := ⟨fun m => ⟨m.size, rfl⟩, fun _ _ => ⟨_, rfl⟩⟩
  have hscheduled : (morning c.writer).Scheduled 0 := by
    refine ⟨?_, ?_, ?_, ?_, ?_⟩ <;> simp [morning, Stimulus.isBrief]
  have hne : c.writer.backlog.toList ≠ [] := by
    intro hnil
    simp [hnil] at hq
  have hcell : (morning c.writer).cells[0]? = some { writer := c.writer, destination := patient } := rfl
  obtain ⟨k, w', _, c', batch, _, es, (hk : ∀ n, drive office (n + k) 0 _ = _), -, -, -, hbuilds, -,
    ⟨hle, hlate, -⟩, -, -, hall⟩ := batch_sent_when_due ht hc hcell rfl rfl hp hne hscheduled
  refine ⟨c, hc, hp, hq, hscheduled, k, w', c', batch, es, hk, hbuilds, hle, hdue ▸ hlate, fun x hx hkept => ?_⟩
  exact hall x hx (by simp [hnone]) hkept

end World

end LogRelay
