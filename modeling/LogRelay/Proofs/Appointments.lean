import LogRelay.Proofs.Building
import LogRelay.Proofs.Passes

/-!
# Appointments with an asynchronous writer

A writer with a thread of its own is only called by the application, and does its work when it gets to
it. So what is on the agenda while such a writer waits makes calls in its course, each at the time at
which it is due, and the wait ends with the first of them that wakes the writer, or at its limit.
-/

namespace LogRelay

section
variable {σ : Type}

def Stimulus.events (wall : Timestamp) : Stimulus σ → List Event
  | .add drafts => drafts.map fun d => .add (d.message wall)
  | .stop => [.stop]
  | .setBatchDelay d => [.setBatchDelay d]
  | .setThreshold n => [.setThreshold n]
  | .setAction a => [.setAction a]
  | .awaitInitialized _ | .awaitStopped _ | .pass _ | .disturb _ => []

def Stimulus.isBrief : Stimulus σ → Bool
  | .awaitInitialized _ | .awaitStopped _ | .pass _ => false
  | _ => true

/-- The calls of an appointment that is kept when it is due. -/
def Appointment.moments (epoch : Timestamp) (a : Appointment σ) : List Moment :=
  (a.stimulus.events (epoch.after a.due)).map (⟨a.due, epoch.after a.due, ·⟩)

theorem Stimulus.calls {wall : Timestamp} {s : Stimulus σ} {e : Event} (h : e ∈ s.events wall) :
    e.isStep = false ∧ e.isStart = false := by
  unfold events at h
  split at h
  · obtain ⟨d, -, rfl⟩ := List.mem_map.mp h
    exact ⟨rfl, rfl⟩
  all_goals simp at h
  all_goals subst h; exact ⟨rfl, rfl⟩

theorem Appointment.calls {epoch : Timestamp} {a : Appointment σ} {x : Moment} (h : x ∈ a.moments epoch) :
    x.event.isStep = false ∧ x.event.isStart = false := by
  obtain ⟨e, he, rfl⟩ := List.mem_map.mp h
  exact Stimulus.calls he

theorem Appointment.stops {epoch : Timestamp} {a : Appointment σ} {x : Moment} (h : x ∈ a.moments epoch)
    (hx : x.event = .stop) : a.stimulus = .stop := by
  obtain ⟨e, he, rfl⟩ := List.mem_map.mp h
  subst hx
  unfold Stimulus.events at he
  split at he
  · simp at he
  · assumption
  all_goals simp at he

end

/-! ## Calls in a course -/

namespace Course

variable {μ : Measure} {c c' : Course} {xs : List Moment}

theorem run_asynchronous (h : c.run μ xs = some c') (hs : c.writer.synchronous = false) :
    c'.writer.synchronous = false := by
  rw [(run_make h).synchronous]
  exact hs

theorem run_calls (hs : c.writer.synchronous = false)
    (hxs : ∀ x ∈ xs, x.event.isStep = false ∧ x.event.isStart = false) (h : c.run μ xs = some c') :
    c'.writer.phase = c.writer.phase ∧ (c.writer.isBuilding = true →
      Throughout μ (fun c x => c.writer.isBuilding = true ∧ x.event.isSent = false) xs c) := by
  induction xs generalizing c with
  | nil =>
    rw [run, Option.some.injEq] at h
    subst h
    exact ⟨rfl, fun _ => trivial⟩
  | cons x xs ih =>
    obtain ⟨c₁, h₁, h₂⟩ := run_cons h
    obtain ⟨hstep, hstart⟩ := hxs x (by simp)
    obtain ⟨r, hr, hw, -⟩ := step_respond h₁
    have hphase : c₁.writer.phase = c.writer.phase := by
      rw [hw]
      exact Writer.call_phase hs hstep hstart hr
    have hs₁ : c₁.writer.synchronous = false := run_asynchronous (run_singleton h₁) hs
    obtain ⟨hphase', hrest⟩ := ih hs₁ (fun y hy => hxs y (List.mem_cons_of_mem x hy)) h₂
    refine ⟨hphase'.trans hphase, fun hb => ⟨⟨hb, ?_⟩, fun c₂ hx => ?_⟩⟩
    · cases he : x.event <;> simp [he, Event.isStep] at hstep <;> rfl
    · rw [h₁, Option.some.injEq] at hx
      subst hx
      exact hrest (Writer.isBuilding_of_phase hphase hb)

end Course

namespace World

variable {A : Api} {σ : Type} {w w' : World A σ} {id : Nat} {dest : Destination A} {x : Writer} {μ : Measure}
  {c : Course}

/-! ## The writer in its place -/

def Seats (id : Nat) (dest : Destination A) (x : Writer) (w : World A σ) : Prop :=
  ∃ cell, w.cells[id]? = some cell ∧ cell.destination = dest ∧ cell.writer = x

theorem Seats.put (h : w.Seats id dest x) (r : Writer × List Notice) : (w.put id r).Seats id dest r.1 := by
  obtain ⟨cell, hc, hd, -⟩ := h
  exact ⟨_, getElem?_put_self hc r, hd, rfl⟩

theorem Seats.change (h : w.Seats id dest x) (f : Writer → Writer × List Notice) : w.change id f = w.put id (f x) := by
  obtain ⟨cell, hc, -, rfl⟩ := h
  exact change_of_cell hc f

theorem Seats.holds (h : w.Seats id dest x) (p : Writer → Bool) : w.holds id p = p x := by
  obtain ⟨cell, hc, -, rfl⟩ := h
  exact holds_of_cell hc p

theorem Seats.settle (h : w.Seats id dest x) (hs : x.synchronous = false) (run : Nat → World A σ → World A σ) :
    w.settle run id = w := by
  unfold World.settle
  simp [h.holds, hs]

theorem Seats.respond (h : w.Seats id dest c.writer) {x : Moment} {r : Writer × List Notice}
    (hr : c.writer.respond μ x.now x.event = some r) :
    ∃ c', c.step μ x = some c' ∧ c'.writer = r.1 ∧ (w.put id r).Seats id dest c'.writer := by
  obtain ⟨c', hx, hw⟩ : ∃ c', c.step μ x = some c' ∧ c'.writer = r.1 := by simp [Course.step, hr]
  exact ⟨c', hx, hw, hw ▸ h.put r⟩

structure Still (w w' : World A σ) : Prop where
  now : w'.now = w.now
  epoch : w'.epoch = w.epoch
  agenda : w'.agenda = w.agenda
  threads : w'.threads = w.threads
  runsStopped : w'.runsStopped = w.runsStopped

theorem Still.refl (w : World A σ) : Still w w := ⟨rfl, rfl, rfl, rfl, rfl⟩

theorem Still.put (id : Nat) (r : Writer × List Notice) (w : World A σ) : Still w (w.put id r) :=
  ⟨rfl, rfl, rfl, rfl, rfl⟩

theorem Still.trans {w₁ w₂ w₃ : World A σ} (h : Still w₁ w₂) (h' : Still w₂ w₃) : Still w₁ w₃ :=
  ⟨h'.now.trans h.now, h'.epoch.trans h.epoch, h'.agenda.trans h.agenda, h'.threads.trans h.threads,
    h'.runsStopped.trans h.runsStopped⟩

/-! ## Keeping an appointment -/

section
variable (hs : c.writer.synchronous = false) (h : w.Seats id dest c.writer)
include hs h

theorem addAll_calls (wall : Timestamp) (drafts : List Draft) :
    ∃ w' c', (∀ run : Nat → World A σ → World A σ,
        drafts.foldl (fun v d => v.add run id (d.message wall)) w = w') ∧
      c.run μ (drafts.map fun d => ⟨w.now, wall, .add (d.message wall)⟩) = some c' ∧
      w'.Seats id dest c'.writer ∧ Still w w' := by
  induction drafts generalizing w c with
  | nil => exact ⟨w, c, fun _ => rfl, rfl, h, .refl w⟩
  | cons d drafts ih =>
    have hr : c.writer.respond μ w.now (.add (d.message wall)) = some (c.writer.add (d.message wall) w.now) := by
      simp [Writer.respond, Writer.isEngaged, hs]
    obtain ⟨c₁, hx, -, hseat⟩ := h.respond (x := ⟨w.now, wall, .add (d.message wall)⟩) hr
    have hs₁ : c₁.writer.synchronous = false := Course.run_asynchronous (Course.run_singleton hx) hs
    obtain ⟨w', c', hfold, hrun, hseat', hstill⟩ := ih hs₁ hseat
    refine ⟨w', c', fun run => ?_, ?_, hseat', (Still.put _ _ _).trans hstill⟩
    · have hadd : w.add run id (d.message wall) = w.put id (c.writer.add (d.message wall) w.now) := by
        unfold World.add
        rw [h.change]
        exact hseat.settle hs₁ run
      rw [List.foldl_cons, hadd]
      exact hfold run
    · exact Option.bind_eq_some_iff.mpr ⟨c₁, hx, hrun⟩

theorem keep_calls {a : Appointment σ} (hid : a.writer = id) (hbrief : a.stimulus.isBrief = true)
    (hdue : a.due = w.now) :
    ∃ w' c', (∀ (run : Nat → World A σ → World A σ) (n : Nat), w.keep run (n + 1) a = w') ∧
      c.run μ (a.moments w.epoch) = some c' ∧ w'.Seats id dest c'.writer ∧ Still w w' := by
  obtain ⟨due, writer, stimulus⟩ := a
  simp only at hid hdue hbrief
  subst hid hdue
  have hcall : ∀ (e : Event) (r : Writer × List Notice), c.writer.respond μ w.now e = some r →
      ∃ c', c.run μ [⟨w.now, w.epoch.after w.now, e⟩] = some c' ∧ (w.put writer r).Seats writer dest c'.writer := by
    intro e r hr
    obtain ⟨c', hx, -, hseat⟩ := h.respond (x := ⟨w.now, w.epoch.after w.now, e⟩) hr
    exact ⟨c', Course.run_singleton hx, hseat⟩
  cases stimulus with
  | add drafts =>
    obtain ⟨w', c', hfold, hrun, hseat, hstill⟩ := addAll_calls hs h (w.epoch.after w.now) drafts
    refine ⟨w', c', fun run n => hfold run, ?_, hseat, hstill⟩
    rw [Appointment.moments, Stimulus.events, List.map_map]
    exact hrun
  | stop =>
    obtain ⟨c', hrun, hseat⟩ := hcall .stop (c.writer.stop w.now) (by simp [Writer.respond, Writer.isEngaged, hs])
    refine ⟨_, c', fun run n => ?_, hrun, hseat, .put _ _ _⟩
    have hs' : c'.writer.synchronous = false := Course.run_asynchronous hrun hs
    show w.stop run writer = _
    unfold World.stop
    rw [h.change]
    exact hseat.settle hs' run
  | setBatchDelay d =>
    obtain ⟨c', hrun, hseat⟩ := hcall (.setBatchDelay d) _ rfl
    exact ⟨_, c', fun run n => h.change _, hrun, hseat, .put _ _ _⟩
  | setThreshold t =>
    obtain ⟨c', hrun, hseat⟩ := hcall (.setThreshold t) _ rfl
    exact ⟨_, c', fun run n => h.change _, hrun, hseat, .put _ _ _⟩
  | setAction a =>
    obtain ⟨c', hrun, hseat⟩ := hcall (.setAction a) _ rfl
    exact ⟨_, c', fun run n => h.change _, hrun, hseat, .put _ _ _⟩
  | disturb f => exact ⟨w.disturb f, c, fun run n => rfl, rfl, h, ⟨rfl, rfl, rfl, rfl, rfl⟩⟩
  | awaitInitialized _ | awaitStopped _ | pass _ => cases hbrief

end

/-! ## Waiting -/

/-- The agenda is in order, and nothing on it is over or has the application wait. All of it is for one
writer, and none has to be run before a wait. -/
structure Scheduled (id : Nat) (w : World A σ) : Prop where
  own : ∀ a ∈ w.agenda, a.writer = id
  brief : ∀ a ∈ w.agenda, a.stimulus.isBrief = true
  ahead : ∀ a ∈ w.agenda, w.now ≤ a.due
  sorted : w.agenda.Pairwise (·.due ≤ ·.due)
  undisturbed : w.runsStopped = true → w.threads = []

theorem Scheduled.still (h : w.Scheduled id) (hs : Still w w') : w'.Scheduled id := by
  refine ⟨?_, ?_, ?_, ?_, ?_⟩
  · rw [hs.agenda]; exact h.own
  · rw [hs.agenda]; exact h.brief
  · rw [hs.agenda, hs.now]; exact h.ahead
  · rw [hs.agenda]; exact h.sorted
  · rw [hs.runsStopped, hs.threads]; exact h.undisturbed

theorem Scheduled.tail {a : Appointment σ} {rest : List (Appointment σ)} (h : w.Scheduled id)
    (ha : w.agenda = a :: rest) : ({ w with agenda := rest, now := a.due } : World A σ).Scheduled id := by
  have hsorted := h.sorted
  rw [ha, List.pairwise_cons] at hsorted
  refine ⟨?_, ?_, hsorted.1, hsorted.2, h.undisturbed⟩
  · intro b hb
    exact h.own b (by rw [ha]; exact List.mem_cons_of_mem a hb)
  · intro b hb
    exact h.brief b (by rw [ha]; exact List.mem_cons_of_mem a hb)

theorem Scheduled.lapse {t : Instant} (h : w.Scheduled id) (hle : w.now ≤ t) (ht : ∀ a ∈ w.agenda, t ≤ a.due) :
    ({ w with now := max w.now t } : World A σ).Scheduled id := by
  refine ⟨h.own, h.brief, ?_, h.sorted, h.undisturbed⟩
  intro a ha
  show max w.now t ≤ a.due
  rw [Nat.max_eq_right hle]
  exact ht a ha

structure Passed (μ : Measure) (w : World A σ) (c : Course) (kept : List (Appointment σ)) (es : List Moment)
    (w' : World A σ) (c' : Course) : Prop where
  agenda : w.agenda = kept ++ w'.agenda
  epoch : w'.epoch = w.epoch
  now : w.now ≤ w'.now
  past : ∀ a ∈ kept, a.due ≤ w'.now
  run : c.run μ es = some c'
  building : Course.Throughout μ (fun c x => c.writer.isBuilding = true ∧ x.event.isSent = false) es c
  calls : es.filter (fun x => !x.event.isStep) = kept.flatMap (·.moments w.epoch)

theorem Passed.trans {w₁ w₂ : World A σ} {c₁ c₂ : Course} {kept kept' : List (Appointment σ)}
    {es es' : List Moment} (h : Passed μ w c kept es w₁ c₁) (h' : Passed μ w₁ c₁ kept' es' w₂ c₂) :
    Passed μ w c (kept ++ kept') (es ++ es') w₂ c₂ := by
  refine ⟨?_, h'.epoch.trans h.epoch, Nat.le_trans h.now h'.now, ?_, Course.run_trans h.run h'.run,
    h.building.append h.run h'.building, ?_⟩
  · rw [h.agenda, h'.agenda, List.append_assoc]
  · intro a ha
    rcases List.mem_append.mp ha with ha | ha
    · exact Nat.le_trans (h.past a ha) h'.now
    · exact h'.past a ha
  · rw [List.filter_append, h.calls, h'.calls, h.epoch, List.flatMap_append]

theorem Passed.stopped {w' : World A σ} {c' : Course} {kept : List (Appointment σ)} {es : List Moment}
    (h : Passed μ w c kept es w' c') (hstop : ∃ x ∈ es, x.event = .stop) : ∃ a ∈ kept, a.stimulus = .stop := by
  obtain ⟨x, hx, he⟩ := hstop
  have hcall : x ∈ kept.flatMap (·.moments w.epoch) := by
    rw [← h.calls, List.mem_filter]
    exact ⟨hx, by simp [he, Event.isStep]⟩
  obtain ⟨a, ha, hxa⟩ := List.mem_flatMap.mp hcall
  exact ⟨a, ha, Appointment.stops hxa he⟩

theorem passed_of_keep {a : Appointment σ} {rest : List (Appointment σ)} {c' : Course} (h : w.Scheduled id)
    (ha : w.agenda = a :: rest) (hs : c.writer.synchronous = false) (hb : c.writer.isBuilding = true)
    (hstill : Still { w with agenda := rest, now := a.due } w') (hrun : c.run μ (a.moments w.epoch) = some c') :
    Passed μ w c [a] (a.moments w.epoch) w' c' := by
  have hnow : w'.now = a.due := hstill.now
  refine ⟨?_, hstill.epoch, ?_, ?_, hrun, (Course.run_calls hs (fun x => Appointment.calls) hrun).2 hb, ?_⟩
  · rw [ha, hstill.agenda]
    rfl
  · rw [hnow]
    exact h.ahead a (by rw [ha]; simp)
  · simp [hnow]
  · rw [List.flatMap_singleton, List.filter_eq_self]
    intro x hx
    simp [(Appointment.calls hx).1]

theorem nextDue?_of_due {a : Appointment σ} {rest : List (Appointment σ)} {t : Instant} (h : w.Scheduled id)
    (ha : w.agenda = a :: rest) (hle : a.due ≤ t) :
    w.nextDue? (some t) = some (a, { w with agenda := rest, now := a.due }) := by
  have hahead : max w.now a.due = a.due := Nat.max_eq_right (h.ahead a (by rw [ha]; simp))
  unfold nextDue?
  rw [ha]
  simp [hle, hahead]

theorem nextDue?_of_later {t : Instant} (h : ∀ a ∈ w.agenda, t < a.due) : w.nextDue? (some t) = none := by
  unfold nextDue?
  cases ha : w.agenda with
  | nil => rfl
  | cons a rest =>
    rw [ha] at h
    simp [Nat.not_le.mpr (h a (by simp))]

theorem Scheduled.later {t : Instant} (h : w.Scheduled id)
    (hdue : ¬ ∃ a rest, w.agenda = a :: rest ∧ a.due ≤ t) : ∀ a ∈ w.agenda, t < a.due := by
  intro b hb
  cases ha : w.agenda with
  | nil => simp [ha] at hb
  | cons a rest =>
    have hlt : t < a.due := Nat.lt_of_not_le fun hat => hdue ⟨a, rest, ha, hat⟩
    have hsorted := h.sorted
    rw [ha] at hb hsorted
    rcases List.mem_cons.mp hb with rfl | hb
    · exact hlt
    · exact Nat.lt_of_lt_of_le hlt ((List.pairwise_cons.mp hsorted).1 b hb)

structure Waited (μ : Measure) (id : Nat) (dest : Destination A) (t : Instant) (w : World A σ) (c : Course)
    (kept : List (Appointment σ)) (es : List Moment) (w' : World A σ) (c' : Course) : Prop where
  passed : Passed μ w c kept es w' c'
  scheduled : w'.Scheduled id
  seat : w'.Seats id dest c'.writer
  phase : c'.writer.phase = c.writer.phase
  now : w'.now ≤ t
  ended : c'.writer.isAwake = true ∧ kept ≠ [] ∨ c'.writer.isAwake = false ∧ w'.now = t

section
variable {t : Instant} (h : w.Scheduled id) (hs : c.writer.synchronous = false)
include h

theorem Scheduled.waited_of_later (hseat : w.Seats id dest c.writer) (hasleep : c.writer.isAwake = false)
    (hle : w.now ≤ t) (hlater : ∀ a ∈ w.agenda, t < a.due) :
    Waited μ id dest t w c [] [] { w with now := max w.now t } c := by
  have hmax : max w.now t = t := Nat.max_eq_right hle
  have hpassed : Passed μ w c [] [] { w with now := max w.now t } c :=
    ⟨rfl, rfl, Nat.le_max_left _ _, by simp, rfl, trivial, rfl⟩
  refine ⟨hpassed, h.lapse hle ?_, hseat, rfl, Nat.le_of_eq hmax, Or.inr ⟨hasleep, hmax⟩⟩
  intro a ha
  exact Nat.le_of_lt (hlater a ha)

variable (hseat : w.Seats id dest c.writer) (hb : c.writer.isBuilding = true)
include hs hseat hb

/-- The writer goes on waiting after the first appointment, unless that has woken it. -/
theorem Scheduled.keep_first {a : Appointment σ} {rest : List (Appointment σ)} (ha : w.agenda = a :: rest)
    (hat : a.due ≤ t) :
    ∃ w₁ c₁, (∀ (run : Nat → World A σ → World A σ) (n : Nat),
        ({ w with agenda := rest, now := a.due } : World A σ).keep run (n + 1) a = w₁) ∧ w₁.agenda = rest ∧
      w₁.Scheduled id ∧ w₁.Seats id dest c₁.writer ∧ c₁.writer.synchronous = false ∧
      c₁.writer.isBuilding = true ∧ w₁.now ≤ t ∧
      (c₁.writer.isAwake = true → Waited μ id dest t w c [a] (a.moments w.epoch) w₁ c₁) ∧
      ∀ kept es w' c', Waited μ id dest t w₁ c₁ kept es w' c' →
        Waited μ id dest t w c ([a] ++ kept) (a.moments w.epoch ++ es) w' c' := by
  have hmem : a ∈ w.agenda := by simp [ha]
  obtain ⟨w₁, c₁, hkeep, hrun, hseat₁, hstill⟩ := keep_calls (w := { w with agenda := rest, now := a.due })
    hs hseat (h.own a hmem) (h.brief a hmem) rfl
  have hpassed : Passed μ w c [a] (a.moments w.epoch) w₁ c₁ := passed_of_keep h ha hs hb hstill hrun
  have hscheduled : w₁.Scheduled id := (h.tail ha).still hstill
  have hphase : c₁.writer.phase = c.writer.phase := (Course.run_calls hs (fun x => Appointment.calls) hrun).1
  have hnow : w₁.now ≤ t := Nat.le_trans (Nat.le_of_eq hstill.now) hat
  refine ⟨w₁, c₁, hkeep, hstill.agenda, hscheduled, hseat₁, Course.run_asynchronous hrun hs,
    Writer.isBuilding_of_phase hphase hb, hnow, ?_, ?_⟩
  · intro hawake
    exact ⟨hpassed, hscheduled, hseat₁, hphase, hnow, Or.inl ⟨hawake, by simp⟩⟩
  · intro kept es w' c' hrest
    refine ⟨hpassed.trans hrest.passed, hrest.scheduled, hrest.seat, hrest.phase.trans hphase, hrest.now, ?_⟩
    rcases hrest.ended with ⟨hawake, -⟩ | hover
    · exact Or.inl ⟨hawake, by simp⟩
    · exact Or.inr hover

variable (hasleep : c.writer.isAwake = false)
include hasleep

/-- A wait of a writer that is asleep ends when it is woken, or else at the limit. -/
theorem Scheduled.attend_wakes {n : Nat} (f : Nat) (hle : w.now ≤ t) (hn : w.agenda.length ≤ n)
    (hf : w.agenda.length < f) :
    ∃ kept es w' c', (∀ (run : Nat → World A σ → World A σ) (giveUp : World A σ → World A σ),
        attend (World.keep run n) giveUp (·.holds id Writer.isAwake) (some t) f w = w') ∧
      Waited μ id dest t w c kept es w' c' := by
  induction f generalizing w c with
  | zero => omega
  | succ f ih =>
    by_cases hdue : ∃ a rest, w.agenda = a :: rest ∧ a.due ≤ t
    · obtain ⟨a, rest, ha, hat⟩ := hdue
      -- there is fuel for this appointment and for each of the rest
      rw [ha, List.length_cons] at hn hf
      obtain ⟨n, rfl⟩ : ∃ n', n = n' + 1 := ⟨n - 1, by omega⟩
      obtain ⟨w₁, c₁, hkeep, hagenda, hscheduled, hseat₁, hs₁, hb₁, hnow, hwaited, hafter⟩ :=
        h.keep_first hs hseat hb ha hat
      by_cases hawake : c₁.writer.isAwake = true
      · refine ⟨_, _, w₁, c₁, fun run giveUp => ?_, hwaited hawake⟩
        unfold attend
        rw [nextDue?_of_due h ha hat]
        simp only [hkeep, hseat₁.holds, hawake, if_true]
      · obtain ⟨kept, es, w', c', hattend, hrest⟩ := ih hscheduled hs₁ hseat₁ hb₁ (by simpa using hawake) hnow
          (by rw [hagenda]; omega) (by rw [hagenda]; omega)
        refine ⟨_, _, w', c', fun run giveUp => ?_, hafter kept es w' c' hrest⟩
        unfold attend
        rw [nextDue?_of_due h ha hat]
        simp only [hkeep, hseat₁.holds, hawake, if_false, Bool.false_eq_true]
        exact hattend run giveUp
    · have hlater : ∀ a ∈ w.agenda, t < a.due := h.later hdue
      refine ⟨[], [], _, c, fun run giveUp => ?_, h.waited_of_later hseat hasleep hle hlater⟩
      unfold attend
      rw [nextDue?_of_later hlater]

theorem Scheduled.awaitMessage_wakes (hlt : w.now < t) :
    ∃ kept es w' c', (∀ run : Nat → World A σ → World A σ, w.awaitMessage run id (some t) = w') ∧
      Waited μ id dest t w c kept es w' c' := by
  obtain ⟨kept, es, w', c', hattend, hwaited⟩ := h.attend_wakes hs hseat hb hasleep
    (w.agenda.length + 1) (Nat.le_of_lt hlt) (Nat.le_refl _) (Nat.lt_succ_self _)
  refine ⟨kept, es, w', c', fun run => ?_, hwaited⟩
  have hover : w.holds id Writer.isAwake = false := by rw [hseat.holds, hasleep]
  -- no thread that was to be stopped is left to run before the wait
  have hway : w.giveWay run (·.holds id Writer.isAwake) = w := by
    unfold giveWay
    by_cases hr : w.runsStopped = true
    · have hnone := h.undisturbed hr
      obtain ⟨now, epoch, host, outside, diagnostics, agenda, cells, threads, runsStopped, leavesWaiting⟩ := w
      simp only at hr hnone
      subst hr hnone
      rfl
    · simp [hr]
  unfold awaitMessage await
  rw [if_neg (by simp [hover, Nat.not_le.mpr hlt])]
  simp only [hway, hover, if_false, Bool.false_eq_true]
  exact hattend run _

end

end World

end LogRelay
