import LogRelay.Proofs.Runs

/-!
# Building a batch

A batch is begun with the first message of the backlog and grows from the front of it. Each further
message is counted on top of those before it, and the batch ends with the backlog or before the first
message that would be beyond the limits. Until the answer to it comes, nothing is reported of it.
-/

namespace LogRelay

namespace Measure

variable (μ : Measure)

/-- Each message but the first was within the limits together with those before it. -/
def Grows (batch : List Message) : Prop :=
  ∀ n, 0 < n → n < batch.length → μ.withinLimits (μ.totalWeight (batch.take (n + 1))) (n + 1) = .ok true

def Stops (batch rest : List Message) : Prop :=
  ∀ m, rest.head? = some m → μ.withinLimits (μ.totalWeight batch + μ.weight m) (batch.length + 1) = .ok false

variable {μ}

theorem grows_singleton (m : Message) : μ.Grows [m] := by
  intro n hpos hlt
  rw [List.length_singleton] at hlt
  omega

theorem Grows.fill {batch ms : List Message} {f : Filling} (h : μ.Grows batch)
    (hf : μ.fill (μ.totalWeight batch) batch.length ms = .ok f) : μ.Grows (batch ++ f.taken) := by
  intro n hpos hlt
  by_cases hn : n < batch.length
  · rw [List.take_append_of_le_length hn]
    exact h n hpos hn
  · obtain ⟨k, rfl⟩ := Nat.exists_eq_add_of_le (Nat.le_of_not_lt hn)
    rw [List.length_append] at hlt
    rw [Nat.add_assoc, List.take_length_add_append, totalWeight_append]
    exact fill_grows hf (by omega)

theorem stops_of_fill {batch ms : List Message} {f : Filling}
    (hf : μ.fill (μ.totalWeight batch) batch.length ms = .ok f) : μ.Stops (batch ++ f.taken) f.left := by
  intro m hm
  cases hfull : f.full with
  | false =>
    rw [fill_left hf hfull] at hm
    cases hm
  | true =>
    obtain ⟨m', rest, hl, hw⟩ := fill_stops hf hfull
    rw [hl] at hm
    cases hm
    obtain ⟨-, hbytes, -⟩ := fill_ok hf
    rw [hbytes] at hw
    rw [totalWeight_append, List.length_append, Nat.add_assoc batch.length]
    exact hw

end Measure

def Phase.Counted (μ : Measure) : Phase → Prop
  | .collecting batch _ _ =>
    batch.messages ≠ [] ∧ batch.bytes = μ.totalWeight batch.messages ∧ μ.Grows batch.messages
  | .sending batch _ => batch ≠ [] ∧ μ.Grows batch
  | _ => True

namespace Writer

def isBuilding (w : Writer) : Bool :=
  match w.phase with
  | .waiting .. | .collecting .. | .sending .. => true
  | _ => false

variable {μ : Measure} {now : Instant} {w : Writer} {r : Writer × List Notice}

theorem isBuilding_of_phase {w' : Writer} (hp : w'.phase = w.phase) (h : w.isBuilding = true) :
    w'.isBuilding = true := by
  unfold isBuilding at *
  rw [hp]
  exact h

theorem counted_of_isBare (h : w.isBare = true) : w.phase.Counted μ := by
  unfold isBare at h
  cases hp : w.phase with
  | collecting batch limit last => simp [hp] at h
  | sending batch last => simp [hp] at h
  | _ => trivial

theorem turn_not_building (progressed last : Bool) (w : Writer) :
    (w.turn progressed last).1.isBuilding = false := by
  unfold turn
  repeat' split
  all_goals rfl

theorem panicked_not_building (p : Panic) (w : Writer) : (w.panicked p).1.isBuilding = false := by
  unfold panicked
  repeat' split
  all_goals rfl

section
variable {batch : Batch} {limit : Instant} {last : Bool} (hp : w.phase = .collecting batch limit last)
include hp

theorem next_fill {f : Filling} (hm : w.backlog.isEmpty = false)
    (hf : μ.fill batch.bytes batch.messages.length w.backlog.toList = .ok f) :
    w.next μ now = .go { w with
      backlog := w.backlog.withMessages f.left
      phase := if f.full then .sending (batch.messages ++ f.taken) last
        else .collecting ⟨batch.messages ++ f.taken, f.bytes⟩ limit last } [] := by
  simp [next, hp, hm, collect, hf]

variable (he : w.backlog.isEmpty = true)
include he

theorem next_cut (hi : w.backlog.interrupted = true) :
    w.next μ now = .go { w with
      backlog := w.backlog.clearInterrupt
      phase := .sending batch.messages last } [] := by
  simp [next, hp, he, hi]

variable (hi : w.backlog.interrupted = false)
include hi

theorem next_lapse (hl : limit ≤ now) :
    w.next μ now = .go { w with phase := .sending batch.messages last } [] := by
  simp [next, hp, he, hi, hl]

theorem next_wait (hl : now < limit) : w.next μ now = .wait (some limit) := by
  simp [next, hp, he, hi, Nat.not_le.mpr hl]

end

theorem next_begin {limit : Option Instant} {last : Bool} {m : Message} {q : Backlog} {bytes : Nat}
    (hp : w.phase = .waiting limit last) (hq : w.backlog.pop? = some (m, q)) (hb : μ.effectiveSize m = .ok bytes) :
    w.next μ now = .go { w with
      backlog := q
      phase := .collecting ⟨[m], bytes⟩ ({ w with backlog := q }.window now) last } [] := by
  simp [next, hp, hq, begin, hb]

theorem Move.counted (hm : w.Move μ now r) (h : w.phase.Counted μ) : r.1.phase.Counted μ := by
  cases hm with
  | resume _ _ | leave _ _ _ _ | await _ _ _ => trivial
  | @begin limit last m q bytes _ _ hb =>
    refine ⟨by simp, ?_, Measure.grows_singleton m⟩
    rw [Measure.totalWeight_singleton, Measure.weight_of_ok hb]
  | balk _ _ _ | spill _ _ => exact counted_of_isBare (panicked_letsGo _ _).bare
  | interrupted _ _ _ | expire _ _ _ _ => exact counted_of_isBare (turn_letsGo _ _ _).bare
  | @fill batch limit last f hp hf _ =>
    rw [hp] at h
    obtain ⟨hne, hbytes, hgrows⟩ := h
    rw [hbytes] at hf
    obtain ⟨-, hfilled, -⟩ := Measure.fill_ok hf
    have hne' : batch.messages ++ f.taken ≠ [] := by simp [hne]
    cases f.full with
    | true => exact ⟨hne', hgrows.fill hf⟩
    | false => exact ⟨hne', by rw [hfilled, Measure.totalWeight_append], hgrows.fill hf⟩
  | cut hp _ _ | lapse hp _ _ =>
    rw [hp] at h
    exact ⟨h.1, h.2.2⟩

theorem Change.counted {e : Event} (hc : Change μ now w r e) (h : w.phase.Counted μ) : r.1.phase.Counted μ := by
  cases hc with
  | ignore _ hk _ | enqueue _ hk _ | call _ hk _ | check _ hk _ | close hk _ =>
    rcases hk.phase with hp | ⟨-, hb⟩
    · rw [hp]
      exact h
    · exact counted_of_isBare hb
  | go hm => exact hm.counted h
  | clear _ hc => exact counted_of_isBare hc.bare
  | settle _ hs | giveBack _ _ hs => exact counted_of_isBare hs.bare

theorem Move.stops (hm : w.Move μ now r) (h : w.phase.Counted μ) {batch : List Message} {last : Bool}
    (hs : r.1.phase = .sending batch last) : μ.Stops batch r.1.backlog.toList := by
  have hbuilding : r.1.isBuilding = true := by simp [isBuilding, hs]
  cases hm with
  | resume _ _ | leave _ _ _ _ | await _ _ _ | begin _ _ _ => cases hs
  | balk _ _ _ | spill _ _ =>
    rw [panicked_not_building] at hbuilding
    cases hbuilding
  | interrupted _ _ _ | expire _ _ _ _ =>
    rw [turn_not_building] at hbuilding
    cases hbuilding
  | @fill batch' limit last' f hp hf _ =>
    rw [hp] at h
    rw [h.2.1] at hf
    cases hfull : f.full with
    | true =>
      simp only [hfull, if_true, Phase.sending.injEq] at hs
      rw [← hs.1]
      exact Measure.stops_of_fill hf
    | false =>
      simp only [hfull, if_false, Bool.false_eq_true] at hs
      cases hs
  | cut _ he _ | lapse _ he _ =>
    have hempty : w.backlog.toList = [] := (Backlog.isEmpty_iff _).mp he
    intro m hm
    cases hempty ▸ hm

/-- As long as a batch is built nothing is said, and messages only go from the backlog to the batch. -/
theorem Move.builds (hm : w.Move μ now r) (hb : r.1.isBuilding = true) :
    r.2 = [] ∧ r.1.held ++ r.1.backlog.toList = w.held ++ w.backlog.toList := by
  cases hm with
  | leave _ _ _ _ => cases hb
  | balk _ _ _ | spill _ _ =>
    rw [panicked_not_building] at hb
    cases hb
  | interrupted _ _ _ | expire _ _ _ _ =>
    rw [turn_not_building] at hb
    cases hb
  | resume hp _ | await hp _ _ | lapse hp _ _ => exact ⟨rfl, by simp [held, hp]⟩
  | cut hp _ _ => exact ⟨rfl, by simp [held, hp, Backlog.toList, Backlog.clearInterrupt]⟩
  | begin hp hq _ => exact ⟨rfl, by simp [held, hp, (Backlog.pop?_eq_some hq).1]⟩
  | @fill batch limit last f hp hf _ =>
    refine ⟨rfl, ?_⟩
    have hheld : w.held = batch.messages := by simp [held, hp]
    rw [hheld, (Measure.fill_ok hf).1]
    cases f.full <;> simp [held]

theorem respond_building {e : Event} (hw : w.isBuilding = true) (hadd : e.isAdd = false) (hsent : e.isSent = false)
    (hr : w.respond μ now e = some r) :
    w.Move μ now r ∨ w.Keeps r ∧ r.1.backlog.toList = w.backlog.toList := by
  cases change_of_respond hr with
  | ignore _ _ _ | enqueue _ _ _ => cases hadd
  | call _ hk hq => exact Or.inr ⟨hk, hq⟩
  | go hm => exact Or.inl hm
  | clear _ _ | check _ _ _ =>
    obtain ⟨hp, -⟩ := respond_checked hr
    simp [isBuilding, hp] at hw
  | settle _ _ | giveBack _ _ _ => cases hsent
  | close hk hq => exact Or.inr ⟨hk, congrArg Backlog.toList hq⟩

end Writer

/-! ## What is reported meanwhile -/

def Notice.isAside : Notice → Bool
  | .truncating .. | .discarding _ | .available | .overdue _ | .stopping | .stopped => true
  | .unavailable _ | .sent .. | .refused .. | .passPanicked _ | .writerPanicked _ => false

structure Statistics.SameReport (s s' : Statistics) : Prop where
  sent : s'.sent = s.sent
  sentLastBatch : s'.sentLastBatch = s.sentLastBatch
  requeuedLastBatch : s'.requeuedLastBatch = s.requeuedLastBatch
  lastError : s'.lastError = s.lastError

namespace Statistics.SameReport

theorem refl (s : Statistics) : s.SameReport s := ⟨rfl, rfl, rfl, rfl⟩

theorem trans {s₁ s₂ s₃ : Statistics} (h : s₁.SameReport s₂) (h' : s₂.SameReport s₃) : s₁.SameReport s₃ :=
  ⟨h'.sent.trans h.sent, h'.sentLastBatch.trans h.sentLastBatch, h'.requeuedLastBatch.trans h.requeuedLastBatch,
    h'.lastError.trans h.lastError⟩

theorem record {n : Notice} (hn : n.isAside = true) (wall : Timestamp) (d : Diagnostics) :
    d.statistics.SameReport (d.record wall n).statistics := by
  cases n <;> first | exact ⟨rfl, rfl, rfl, rfl⟩ | cases hn

theorem recordAll {ns : List Notice} (hn : ∀ n ∈ ns, n.isAside = true) (wall : Timestamp) (d : Diagnostics) :
    d.statistics.SameReport (d.recordAll wall ns).statistics := by
  unfold Diagnostics.recordAll
  induction ns generalizing d with
  | nil => exact refl _
  | cons n ns ih =>
    exact (record (hn n List.mem_cons_self) wall d).trans
      (ih (fun n' hn' => hn n' (List.mem_cons_of_mem n hn')) (d.record wall n))

end Statistics.SameReport

theorem Writer.respond_aside {μ : Measure} {now : Instant} {w : Writer} {r : Writer × List Notice} {e : Event}
    (hsent : e.isSent = false) (hw : w.isBuilding = true) (hb : r.1.isBuilding = true)
    (hr : w.respond μ now e = some r) : ∀ n ∈ r.2, n.isAside = true := by
  cases e with
  | add m =>
    simp only [respond] at hr
    split at hr
    · cases hr
    · cases hr
      unfold add
      repeat' split
      all_goals simp [Notice.isAside]
  | stop =>
    simp only [respond] at hr
    split at hr
    · cases hr
    · cases hr
      unfold stop
      dsimp only
      repeat' split
      all_goals simp [Notice.isAside]
  | start | setBatchDelay _ | setThreshold _ | setAction _ | setFailure _ =>
    cases hr
    simp
  | go =>
    rw [((respond_go hr).builds hb).1]
    simp
  | checked result =>
    obtain ⟨hp, -⟩ := respond_checked hr
    simp [isBuilding, hp] at hw
  | sent _ => cases hsent
  | closed result =>
    obtain ⟨hp, -⟩ := respond_closed hr
    simp [isBuilding, hp] at hw

/-! ## From the first message to the answer -/

namespace Course

theorem step_counted {μ : Measure} {c c' : Course} {x : Moment} (hx : c.step μ x = some c')
    (hc : c.writer.phase.Counted μ) : c'.writer.phase.Counted μ := by
  obtain ⟨r, hr, hw, -⟩ := step_respond hx
  rw [hw]
  exact (Writer.change_of_respond hr).counted hc

/-- In these events the writer builds one batch, from when it is about to take the first message: it
has sent the batch and is without an answer yet. -/
structure Builds (μ : Measure) (c : Course) (es : List Moment) (c' : Course) (batch : List Message)
    (last : Bool) : Prop where
  begun : ∃ limit, c.writer.phase = .waiting limit last
  waiting : c.writer.backlog.toList ≠ []
  run : c.run μ es = some c'
  building : Throughout μ (fun c x => c.writer.isBuilding = true ∧ x.event.isSent = false) es c
  sending : c'.writer.phase = .sending batch last

variable {μ : Measure} {c c' : Course} {es : List Moment} {batch : List Message} {last : Bool}

theorem run_phase_counted (hrun : c.run μ es = some c') (hc : c.writer.phase.Counted μ) :
    c'.writer.phase.Counted μ :=
  run_induct (P := fun c => c.writer.phase.Counted μ) (fun _ _ _ hx => step_counted hx) hrun hc

theorem building_induct {P : Course → Prop} (hrun : c.run μ es = some c')
    (hbuilding : Throughout μ (fun c x => c.writer.isBuilding = true ∧ x.event.isSent = false) es c)
    (hend : c'.writer.isBuilding = true)
    (hstep : ∀ x ∈ es, ∀ c₁ c₂, c₁.step μ x = some c₂ → x.event.isSent = false → c₁.writer.isBuilding = true →
      c₂.writer.isBuilding = true → P c₁ → P c₂)
    (hP : P c) : P c' := by
  induction es generalizing c with
  | nil =>
    rw [Course.run, Option.some.injEq] at hrun
    exact hrun ▸ hP
  | cons x es ih =>
    obtain ⟨c₁, h₁, h₂⟩ := run_cons hrun
    obtain ⟨⟨hb, hsent⟩, hrest⟩ := hbuilding
    have hb₁ : c₁.writer.isBuilding = true := by
      cases es with
      | nil =>
        rw [Course.run, Option.some.injEq] at h₂
        exact h₂ ▸ hend
      | cons y es => exact (hrest c₁ h₁).1.1
    exact ih h₂ (hrest c₁ h₁) (fun y hy => hstep y (List.mem_cons_of_mem x hy))
      (hstep x List.mem_cons_self c c₁ h₁ hsent hb hb₁ hP)

theorem Builds.induct {P : Course → Prop} (h : Builds μ c es c' batch last)
    (hstep : ∀ x ∈ es, ∀ c₁ c₂, c₁.step μ x = some c₂ → x.event.isSent = false → c₁.writer.isBuilding = true →
      c₂.writer.isBuilding = true → P c₁ → P c₂)
    (hP : P c) : P c' :=
  building_induct h.run h.building (by simp [Writer.isBuilding, h.sending]) hstep hP

theorem Builds.counted (h : Builds μ c es c' batch last) : c'.writer.phase.Counted μ := by
  obtain ⟨limit, hp⟩ := h.begun
  apply run_phase_counted h.run
  rw [hp]
  trivial

theorem Builds.sameReport (h : Builds μ c es c' batch last) :
    c.diagnostics.statistics.SameReport c'.diagnostics.statistics := by
  refine h.induct (P := fun c' => c.diagnostics.statistics.SameReport c'.diagnostics.statistics)
    (fun x _ c₁ c₂ hx hsent hb₁ hb₂ hs => ?_) (.refl _)
  obtain ⟨r, hr, rfl⟩ := Option.map_eq_some_iff.mp hx
  exact hs.trans (.recordAll (Writer.respond_aside hsent hb₁ hb₂ hr) x.wall _)

end Course

end LogRelay
