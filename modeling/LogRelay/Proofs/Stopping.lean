import LogRelay.Proofs.Stages

/-!
# Writers that are told to stop

A stopped writer whose destination does not panic is never stuck: it has come to its end, or goes on
by itself in time. Each of its steps lowers the number of steps that are left to it, for as long as
every send lowers the number of sends left.
-/

namespace LogRelay

namespace Writer

variable {μ : Measure} {now : Instant} {starts : Nat} {w w' : Writer} {r : Writer × List Notice}

/-! ## Once stopped, always stopped -/

theorem stop_deadline (hd : w.isStopped = false) :
    (w.stop now).1.deadline = some (now + Duration.ofMillis w.batchDelay) := by
  unfold stop
  rw [hd]
  dsimp only
  repeat' split
  all_goals first | rfl | contradiction

theorem turn_deadline (progressed last : Bool) (w : Writer) :
    (w.turn progressed last).1.deadline = w.deadline := by
  unfold turn
  repeat' split
  all_goals rfl

theorem panicked_deadline (p : Panic) (w : Writer) : (w.panicked p).1.deadline = w.deadline := by
  unfold panicked
  repeat' split
  all_goals rfl

theorem Move.deadline (hm : w.Move μ now r) : r.1.deadline = w.deadline := by
  cases hm with
  | balk _ _ _ | spill _ _ => exact panicked_deadline _ _
  | interrupted _ _ _ | expire _ _ _ _ => exact turn_deadline _ _ _
  | _ => rfl

theorem add_deadline (m : Message) : (w.add m now).1.deadline = w.deadline := by
  rw [add_fst]
  split
  · unfold queue
    dsimp only
    split <;> rfl
  · rfl

theorem respond_deadline (hd : w.isStopped = true) {e : Event} (hr : w.respond μ now e = some r) :
    r.1.deadline = w.deadline := by
  cases e with
  | add m =>
    simp only [respond] at hr
    split at hr
    · cases hr
    · cases hr
      exact add_deadline m
  | stop =>
    simp only [respond] at hr
    split at hr
    · cases hr
    · cases hr
      simp only [stop, hd, if_true]
  | start =>
    cases hr
    unfold start
    split <;> rfl
  | setBatchDelay _ | setThreshold _ | setAction _ | setFailure _ => cases hr; rfl
  | go => exact (respond_go hr).deadline
  | checked result =>
    obtain ⟨-, rfl⟩ := respond_checked hr
    rcases result with p | e | _ <;> rfl
  | sent result =>
    obtain ⟨batch, last, -, rfl⟩ := respond_sent hr
    rw [sent_fst]
    exact turn_deadline _ _ _
  | closed result =>
    obtain ⟨-, rfl⟩ := respond_closed hr
    cases result with
    | ok _ => rfl
    | error p => exact panicked_deadline p w

theorem turn_phase (hd : w.isStopped = true) (progressed last : Bool) :
    (w.turn progressed last).1.phase = .turning ∨ (w.turn progressed last).1.phase = .closing := by
  unfold turn
  rw [hd]
  simp only [Bool.not_true, if_false, Bool.false_eq_true]
  repeat' split
  all_goals first | exact Or.inl rfl | exact Or.inr rfl

/-! ## Steps left -/

def stepsLeft (starts sends : Nat) (w : Writer) : Nat :=
  (1 - starts) + match w.phase with
    | .idle => if w.synchronous || decide (starts ≠ 0) then 0 else 5 * sends + 9
    | .checking => if w.synchronous then 1 else 5 * sends + 9
    | .turning => if !w.synchronous && w.backlog.isEmpty then 2 else 5 * sends + 8
    | .waiting _ _ => if w.backlog.isEmpty then 3 else 5 * sends + 7
    | .collecting _ _ _ => if w.backlog.isEmpty then 5 * sends + 5 else 5 * sends + 6
    | .sending _ _ => 5 * sends + 4
    | .closing => 1
    | .unwound _ => 0

variable {n n' : Nat}

theorem stepsLeft_le (starts n : Nat) (w : Writer) : stepsLeft starts n w ≤ 5 * n + 10 := by
  unfold stepsLeft
  repeat' split
  all_goals omega

/-- A stopped writer that has got nothing to send is at its end or close to it. -/
theorem stepsLeft_turn_of_isEmpty (starts n : Nat) (hd : w.isStopped = true) (he : w.backlog.isEmpty = true)
    (last : Bool) : stepsLeft starts n (w.turn true last).1 ≤ (1 - starts) + 2 := by
  unfold turn
  by_cases hs : w.synchronous = true
  · simp [hs, hd, he, stepsLeft]
  · simp [hs, he, stepsLeft]

theorem Move.stepsLeft_lt (ht : μ.Total) (hd : w.isStopped = true) (hm : w.Move μ now r) (hn : n' ≤ n) :
    stepsLeft starts n' r.1 < stepsLeft starts n w := by
  have hnone : w.backlog.pop? = none → w.backlog.isEmpty = true :=
    fun h => (Backlog.isEmpty_iff _).mpr (Backlog.pop?_eq_none h)
  have hsome : ∀ {m q}, w.backlog.pop? = some (m, q) → w.backlog.isEmpty = false := by
    intro m q h
    rw [Backlog.isEmpty_eq_false_iff, (Backlog.pop?_eq_some h).1]
    exact List.cons_ne_nil _ _
  cases hm with
  | resume hp hs =>
    simp only [stepsLeft, hp, hs, Bool.not_true, Bool.false_and, Bool.false_eq_true, if_false]
    split <;> omega
  | leave hp hs _ he => simp [stepsLeft, hp, hs, he]
  | await hp hs he => simp [stepsLeft, hp, he hd]; omega
  | begin hp hq hb =>
    simp only [stepsLeft, hp, hsome hq, Bool.false_eq_true, if_false]
    split <;> omega
  | balk hp hq hb =>
    obtain ⟨k, hk⟩ := ht.size _
    rw [hk] at hb
    cases hb
  | @interrupted _ last hp hq hi =>
    have h := stepsLeft_turn_of_isEmpty starts n' (w := { w with backlog := w.backlog.clearInterrupt }) hd
      (hnone hq) last
    simp only [stepsLeft, hp, hnone hq] at h ⊢
    simp only [if_true]
    omega
  | @expire _ last hp hq hi hl =>
    have h := stepsLeft_turn_of_isEmpty starts n' hd (hnone hq) last
    simp only [stepsLeft, hp, hnone hq] at h ⊢
    simp only [if_true]
    omega
  | @fill batch limit last f hp hf he =>
    simp only [stepsLeft, hp, he]
    cases hfull : f.full with
    | true => simp; omega
    | false =>
      have hleft : (w.backlog.withMessages f.left).isEmpty = true := by
        rw [Backlog.isEmpty_iff]
        exact Measure.fill_left hf hfull
      simp [hleft]
      omega
  | spill hp hf => exact absurd ht (Measure.fill_error hf).2
  | cut hp he hi => simp [stepsLeft, hp, he]; omega
  | lapse hp he hl => simp [stepsLeft, hp, he]; omega

theorem checked_stepsLeft_lt (hp : w.phase = .checking) {result : Except Panic (Except Failure Unit)}
    (hr : ∀ p, result ≠ .error p) (hn : n' ≤ n) :
    stepsLeft starts n' (w.checked result).1 < stepsLeft starts n w := by
  have hnext : ∀ w' : Writer, w'.phase = (if w.synchronous then .idle else .turning) →
      w'.synchronous = w.synchronous → stepsLeft starts n' w' < stepsLeft starts n w := by
    intro w' hp' hs'
    by_cases hs : w.synchronous = true
    · rw [if_pos hs] at hp'
      simp [stepsLeft, hp, hp', hs', hs]
    · rw [if_neg hs] at hp'
      simp only [stepsLeft, hp, hp', hs', hs, Bool.false_eq_true, if_false]
      split <;> omega
  rcases result with p | e | _
  · exact absurd rfl (hr p)
  · exact hnext _ rfl rfl
  · exact hnext _ rfl rfl

theorem sent_stepsLeft_lt {batch : List Message} {last : Bool} (hp : w.phase = .sending batch last)
    (hd : w.isStopped = true) (result : Except Panic (Except Failure (List Nat))) (hn : n' < n) :
    stepsLeft starts n' (w.sent batch last result).1 < stepsLeft starts n w := by
  have hturn := turn_phase (w := { w with backlog := w.backlog.requeue (returned batch result) }) hd
    (decide ((returned batch result).length < batch.length)) last
  rw [← sent_fst] at hturn
  generalize (w.sent batch last result).1 = w' at hturn ⊢
  rcases hturn with hp' | hp'
  · simp only [stepsLeft, hp, hp']
    split <;> omega
  · simp only [stepsLeft, hp, hp']
    omega

theorem closed_stepsLeft_lt (h : w.InOrder starts) (hp : w.phase = .closing) (hd : w.isStopped = true)
    (result : Except Panic Unit) : stepsLeft starts n' (w.closed result).1 < stepsLeft starts n w := by
  have hphase := h.phase
  rw [hp] at hphase
  have hidle : ∀ w' : Writer, w'.phase = .idle → w'.synchronous = w.synchronous →
      stepsLeft starts n' w' < stepsLeft starts n w := by
    intro w' hp' hs'
    have hs : (w.synchronous || decide (starts ≠ 0)) = true := by
      cases hs : w.synchronous with
      | true => rfl
      | false => simpa using hphase.1.2 hs
    simp only [stepsLeft, hp, hp', hs', hs, if_true]
    omega
  cases result with
  | ok _ => exact hidle _ rfl rfl
  | error p =>
    unfold closed panicked
    dsimp only
    split
    · exact hidle _ rfl rfl
    · simp only [stepsLeft, hp]
      omega

theorem start_stepsLeft_le (h : w.InOrder 0) (hn : n' ≤ n) : stepsLeft 1 n' w.start ≤ stepsLeft 0 n w := by
  unfold start
  cases hp : w.phase with
  | idle =>
    cases hs : w.synchronous with
    | true => simp [stepsLeft, hp, hs]
    | false =>
      simp [stepsLeft, hp, hs]
      omega
  | checking =>
    have hphase := h.phase
    rw [hp] at hphase
    exact absurd rfl hphase.1
  | turning | waiting _ _ | collecting _ _ _ => simp only [stepsLeft, hp]; split <;> omega
  | sending _ _ | closing | unwound _ => simp only [stepsLeft, hp]; omega

/-- A stopped writer has a step less left after each of its own, and no more after any call. -/
theorem respond_stepsLeft {e : Event} (ht : μ.Total) (h : w.InOrder starts) (hd : w.isStopped = true)
    (hadd : e.isAdd = false) (hstart : e.isStart = true → starts = 0) (hcalm : ∀ p, e ≠ .checked (.error p))
    (hr : w.respond μ now e = some r) (hn : n' + (if e.isSent then 1 else 0) ≤ n) :
    stepsLeft (starts + if e.isStart then 1 else 0) n' r.1 + (if e.isStep then 1 else 0) ≤
      stepsLeft starts n w := by
  have hcall : ∀ w' : Writer, w'.phase = w.phase → w'.synchronous = w.synchronous →
      w'.backlog.isEmpty = w.backlog.isEmpty → n' ≤ n → stepsLeft starts n' w' ≤ stepsLeft starts n w := by
    intro w' hp hs he hn
    simp only [stepsLeft, hp, hs, he]
    cases w.phase <;> simp only <;> repeat' split
    all_goals omega
  cases e with
  | add _ => cases hadd
  | stop =>
    simp only [respond] at hr
    split at hr
    · cases hr
    · cases hr
      simp only [stop, hd, if_true]
      exact hcall w rfl rfl rfl hn
  | start =>
    cases hr
    obtain rfl := hstart rfl
    exact start_stepsLeft_le h hn
  | setBatchDelay _ | setThreshold _ | setAction _ | setFailure _ =>
    cases hr
    exact hcall _ rfl rfl rfl hn
  | go => exact (respond_go hr).stepsLeft_lt ht hd hn
  | checked result =>
    obtain ⟨hp, rfl⟩ := respond_checked hr
    exact checked_stepsLeft_lt hp (fun p hp => hcalm p (by rw [hp])) hn
  | sent result =>
    obtain ⟨batch, last, hp, rfl⟩ := respond_sent hr
    exact sent_stepsLeft_lt hp hd result hn
  | closed result =>
    obtain ⟨hp, rfl⟩ := respond_closed hr
    exact closed_stepsLeft_lt h hp hd result

/-! ## A stopped writer is never stuck -/

def IsOver (w : Writer) : Prop := w.finished = true ∧ (w.phase = .idle ∨ ∃ p, w.phase = .unwound p)

theorem IsOver.bare (h : w.IsOver) : w.isBare = true := by
  rcases h.2 with hp | ⟨p, hp⟩ <;> simp [isBare, hp]

/-- From the time `t` on the writer needs no message and no call to go on. -/
def GoesOn (μ : Measure) (t : Instant) (w : Writer) : Prop :=
  ∀ now, t ≤ now → w.next μ now ≠ .rest ∧ ∀ limit, w.next μ now ≠ .wait limit

theorem closed_isOver (hd : w.isStopped = true) (result : Except Panic Unit) : (w.closed result).1.IsOver := by
  cases result with
  | ok _ => exact ⟨rfl, Or.inl rfl⟩
  | error p =>
    unfold closed panicked
    dsimp only
    split
    · exact ⟨rfl, Or.inl rfl⟩
    · exact ⟨rfl, Or.inr ⟨p, rfl⟩⟩

theorem begin_goes (w : Writer) (μ : Measure) (m : Message) (now : Instant) (last : Bool) :
    ∃ w' ns, w.begin μ m now last = .go w' ns := by
  unfold begin
  split <;> exact ⟨_, _, rfl⟩

theorem collect_goes (w : Writer) (μ : Measure) (batch : Batch) (limit : Instant) (last : Bool) :
    ∃ w' ns, w.collect μ batch limit last = .go w' ns := by
  unfold collect
  split <;> exact ⟨_, _, rfl⟩

theorem wait_of_next {limit : Option Instant} (h : w.next μ now = .wait limit) :
    w.backlog.isEmpty = true ∧ w.backlog.interrupted = false ∧ limit.any (· ≤ now) = false ∧
      ((∃ last, w.phase = .waiting limit last) ∨
        ∃ batch l last, limit = some l ∧ w.phase = .collecting batch l last) := by
  unfold next at h
  split at h
  · cases h
  · cases h
  · cases h
  · repeat' split at h
    all_goals cases h
  · rename_i l last hp
    split at h
    · obtain ⟨w', ns, hg⟩ := begin_goes { w with backlog := _ } μ _ now last
      rw [hg] at h
      cases h
    · rename_i hq
      split at h
      · cases h
      · rename_i hi
        split at h
        · cases h
        · rename_i hl
          cases h
          exact ⟨(Backlog.isEmpty_iff _).mpr (Backlog.pop?_eq_none hq), by simpa using hi, by simpa using hl,
            Or.inl ⟨last, hp⟩⟩
  · rename_i batch l last hp
    split at h
    · obtain ⟨w', ns, hg⟩ := collect_goes w μ batch l last
      rw [hg] at h
      cases h
    · rename_i he
      split at h
      · cases h
      · rename_i hi
        split at h
        · cases h
        · rename_i hl
          cases h
          exact ⟨by simpa using he, by simpa using hi, by simpa using hl, Or.inr ⟨batch, l, last, rfl, hp⟩⟩
  · cases h
  · cases h

theorem rest_of_next (h : w.next μ now = .rest) : w.phase = .idle ∨ ∃ p, w.phase = .unwound p := by
  unfold next begin collect at h
  split at h
  · rename_i hp; exact Or.inl hp
  · rename_i p hp; exact Or.inr ⟨p, hp⟩
  all_goals
    repeat' split at h
    all_goals cases h

theorem over_or_goes_on (h : w.InOrder starts) (hd : w.isStopped = true)
    (hstarts : w.synchronous = false → starts ≠ 0) : w.IsOver ∨ ∃ t, w.GoesOn μ t := by
  have hphase := h.phase
  by_cases hrest : w.phase = .idle ∨ ∃ p, w.phase = .unwound p
  · refine Or.inl ⟨?_, hrest⟩
    rcases hrest with hp | ⟨p, hp⟩
    · rw [hp] at hphase
      by_cases hs : w.synchronous = true
      · simpa [PhaseInOrder, hs, hd] using hphase
      · simpa [PhaseInOrder, hs, hstarts (by simpa using hs)] using hphase
    · rw [hp] at hphase
      exact hphase.2
  · right
    -- of what is awaited only the time is left, and it passes
    have hwait : ∀ t : Instant, (∀ now, t ≤ now → ∀ limit, w.next μ now ≠ .wait limit) → w.GoesOn μ t :=
      fun t ht now hnow => ⟨fun hr => hrest (rest_of_next hr), ht now hnow⟩
    cases hp : w.phase with
    | waiting limit last =>
      rw [hp] at hphase
      cases limit with
      | none =>
        refine ⟨0, hwait 0 fun now _ l hn => ?_⟩
        have hi := (hphase.2.2 rfl).2 hd
        rw [(wait_of_next hn).2.1] at hi
        cases hi
      | some t =>
        refine ⟨t, hwait t fun now hnow l hn => ?_⟩
        obtain ⟨-, -, hl, ⟨last', hp'⟩ | ⟨_, _, _, -, hp'⟩⟩ := wait_of_next hn
        · rw [hp] at hp'
          cases hp'
          simp [hnow] at hl
        · rw [hp] at hp'
          cases hp'
    | collecting batch t last =>
      refine ⟨t, hwait t fun now hnow l hn => ?_⟩
      obtain ⟨-, -, hl, ⟨last', hp'⟩ | ⟨_, _, _, rfl, hp'⟩⟩ := wait_of_next hn
      · rw [hp] at hp'
        cases hp'
      · rw [hp] at hp'
        cases hp'
        simp [hnow] at hl
    | _ =>
      refine ⟨0, hwait 0 fun now _ l hn => ?_⟩
      obtain ⟨-, -, -, ⟨last', hp'⟩ | ⟨_, _, _, -, hp'⟩⟩ := wait_of_next hn
      all_goals
        rw [hp] at hp'
        cases hp'

end Writer

/-! ## Whole courses -/

namespace Course

structure Stopped (starts : Nat) (es : List Moment) (c : Course) : Prop where
  inOrder : c.writer.InOrder starts
  stopped : c.writer.isStopped = true
  once : starts + es.countP (·.event.isStart) ≤ 1
  quiet : ∀ y ∈ es, y.event.isAdd = false
  calm : ∀ y ∈ es, ∀ p, y.event ≠ .checked (.error p)

variable {μ : Measure} {starts : Nat} {x : Moment} {es : List Moment} {c c' : Course} (ht : μ.Total)

theorem isStopped_of_deadline {w w' : Writer} (h : w'.deadline = w.deadline) (hd : w.isStopped = true) :
    w'.isStopped = true := by
  unfold Writer.isStopped
  rw [h]
  exact hd

include ht

theorem step_inOrder (hi : c.writer.InOrder starts) (hx : c.step μ x = some c')
    (hstart : x.event.isStart = true → starts = 0) (hcalm : ∀ p, x.event ≠ .checked (.error p)) :
    c'.writer.InOrder (starts + if x.event.isStart then 1 else 0) ∧
      c'.writer.finished.toNat = c.writer.finished.toNat + if x.event.isClosed then 1 else 0 := by
  obtain ⟨r, hr, hw, -⟩ := step_respond hx
  rw [hw]
  exact Writer.respond_inOrder ht hi hstart hcalm hr

omit ht in
theorem Stopped.first_start (h : Stopped starts (x :: es) c) : x.event.isStart = true → starts = 0 := by
  intro hs
  have honce := h.once
  rw [List.countP_cons, hs] at honce
  simp only [if_true] at honce
  omega

theorem Stopped.step (h : Stopped starts (x :: es) c) (hx : c.step μ x = some c') :
    Stopped (starts + if x.event.isStart then 1 else 0) es c' := by
  have honce := h.once
  rw [List.countP_cons] at honce
  obtain ⟨r, hr, hw, -⟩ := step_respond hx
  refine ⟨(step_inOrder ht h.inOrder hx h.first_start (h.calm x (by simp))).1, ?_, by omega,
    fun y hy => h.quiet y (List.mem_cons_of_mem x hy), fun y hy => h.calm y (List.mem_cons_of_mem x hy)⟩
  rw [hw]
  exact isStopped_of_deadline (Writer.respond_deadline h.stopped hr) h.stopped

theorem Stopped.finished_iff (h : Stopped starts (x :: es) c) (hx : c.step μ x = some c') :
    c'.writer.finished = (c.writer.finished || x.event.isClosed) := by
  have hf := (step_inOrder ht h.inOrder hx h.first_start (h.calm x (by simp))).2
  cases hc : c.writer.finished <;> cases hx : x.event.isClosed <;> cases hc' : c'.writer.finished <;>
    simp [hc, hx, hc'] at hf ⊢

theorem run_inOrder (hi : c.writer.InOrder starts) (h : c.run μ es = some c')
    (hstart : starts + es.countP (·.event.isStart) ≤ 1) (hcalm : ∀ y ∈ es, ∀ p, y.event ≠ .checked (.error p)) :
    c'.writer.InOrder (starts + es.countP (·.event.isStart)) ∧
      c'.writer.finished.toNat = c.writer.finished.toNat + es.countP (·.event.isClosed) := by
  induction es generalizing c starts with
  | nil =>
    rw [run, Option.some.injEq] at h
    subst h
    exact ⟨hi, rfl⟩
  | cons x es ih =>
    obtain ⟨c₁, h₁, h₂⟩ := run_cons h
    simp only [List.countP_cons] at hstart ⊢
    have hfirst : x.event.isStart = true → starts = 0 := by
      intro hs
      simp only [hs, if_true] at hstart
      omega
    obtain ⟨hi₁, hf₁⟩ := step_inOrder ht hi h₁ hfirst (hcalm x (by simp))
    obtain ⟨hi', hf'⟩ := ih hi₁ h₂ (by omega) (fun y hy => hcalm y (List.mem_cons_of_mem x hy))
    refine ⟨?_, by omega⟩
    rw [Nat.add_comm (es.countP _), ← Nat.add_assoc]
    exact hi'

/-- If `n` sends are left in the sense of `J`, then so many are made at most, and the writer takes no
more steps than go with them. -/
theorem run_bounded {J : Nat → List Moment → Course → Prop}
    (hJ : ∀ n x es c c', c.step μ x = some c' → J n (x :: es) c →
      ∃ n', J n' es c' ∧ n' + (if x.event.isSent then 1 else 0) ≤ n)
    {n : Nat} (hs : Stopped starts es c) (h : c.run μ es = some c') (hn : J n es c) :
    es.countP (·.event.isSent) ≤ n ∧ es.countP (·.event.isStep) ≤ c.writer.stepsLeft starts n := by
  obtain ⟨_, -, hsent⟩ := countP_le hJ h hn
  obtain ⟨_, -, hstep⟩ := countP_le (q := Event.isStep)
    (J := fun k es c => ∃ starts n, Stopped starts es c ∧ J n es c ∧ c.writer.stepsLeft starts n = k)
    (fun k x es c c' hx hk => by
      obtain ⟨starts, n, hs, hn, rfl⟩ := hk
      obtain ⟨n', hn', hle⟩ := hJ n x es c c' hx hn
      obtain ⟨r, hr, hw, -⟩ := step_respond hx
      refine ⟨_, ⟨_, n', hs.step ht hx, hn', rfl⟩, ?_⟩
      rw [hw]
      exact Writer.respond_stepsLeft ht hs.inOrder hs.stopped (hs.quiet x (by simp)) hs.first_start
        (hs.calm x (by simp)) hr hle)
    h ⟨starts, n, hs, hn, rfl⟩
  exact ⟨by omega, by omega⟩

theorem run_stopped {es' : List Moment} (hs : Stopped starts (es ++ es') c) (h : c.run μ es = some c') :
    Stopped (starts + es.countP (·.event.isStart)) es' c' := by
  induction es generalizing c starts with
  | nil =>
    rw [run, Option.some.injEq] at h
    subst h
    exact hs
  | cons x es ih =>
    obtain ⟨c₁, h₁, h₂⟩ := run_cons h
    rw [List.countP_cons, Nat.add_comm (es.countP _), ← Nat.add_assoc]
    exact ih (hs.step ht h₁) h₂

theorem Stopped.step_finished (h : Stopped starts (x :: es) c) (hf : c.writer.finished = true)
    (hx : c.step μ x = some c') :
    x.event.isSent = false ∧ x.event.isClosed = false ∧ c'.writer.finished = true := by
  have hphase := h.inOrder.phase
  obtain ⟨r, hr, -⟩ := step_respond hx
  have hsent : x.event.isSent = false := by
    cases he : x.event with
    | sent result =>
      rw [he] at hr
      obtain ⟨batch, last, hp, -⟩ := Writer.respond_sent hr
      rw [hp] at hphase
      rw [hphase.1.1] at hf
      cases hf
    | _ => rfl
  have hclosed : x.event.isClosed = false := by
    cases he : x.event with
    | closed result =>
      rw [he] at hr
      rw [(Writer.respond_closed hr).1] at hphase
      rw [hphase.1.1] at hf
      cases hf
    | _ => rfl
  refine ⟨hsent, hclosed, ?_⟩
  rw [h.finished_iff ht hx, hf, Bool.true_or]

theorem run_finished (hs : Stopped starts es c) (hf : c.writer.finished = true) (h : c.run μ es = some c') :
    ∀ y ∈ es, y.event.isSent = false ∧ y.event.isClosed = false := by
  induction es generalizing c starts with
  | nil => simp
  | cons x es ih =>
    obtain ⟨c₁, h₁, h₂⟩ := run_cons h
    obtain ⟨hsent, hclosed, hf₁⟩ := hs.step_finished ht hf h₁
    intro y hy
    rcases List.mem_cons.mp hy with rfl | hy
    · exact ⟨hsent, hclosed⟩
    · exact ih (hs.step ht h₁) hf₁ h₂ y hy

omit ht

/-- Among these events the destination is shut down once, after the last send, and with that the
writer comes to its end. -/
def ClosesOnce (μ : Measure) (es : List Moment) (c : Course) : Prop :=
  ∃ xs y ys c₁ c₂, es = xs ++ y :: ys ∧ c.run μ xs = some c₁ ∧ c₁.step μ y = some c₂ ∧
    y.event.isClosed = true ∧ c₁.writer.finished = false ∧ c₂.writer.finished = true ∧
    (∀ z ∈ xs, z.event.isClosed = false) ∧ ∀ z ∈ ys, z.event.isSent = false ∧ z.event.isClosed = false

theorem ClosesOnce.prepend {zs : List Moment} (h : ClosesOnce μ es c') (hrun : c.run μ zs = some c')
    (hz : ∀ z ∈ zs, z.event.isClosed = false) : ClosesOnce μ (zs ++ es) c := by
  obtain ⟨xs, y, ys, c₁, c₂, rfl, h₁, h₂, hy, hf₁, hf₂, hxs, hys⟩ := h
  refine ⟨zs ++ xs, y, ys, c₁, c₂, (List.append_assoc _ _ _).symm, run_trans hrun h₁, h₂, hy, hf₁, hf₂, ?_, hys⟩
  intro z hzs
  rcases List.mem_append.mp hzs with hzs | hzs
  · exact hz z hzs
  · exact hxs z hzs

include ht

theorem closes_once (hs : Stopped starts es c) (hf : c.writer.finished = false) (h : c.run μ es = some c')
    (hf' : c'.writer.finished = true) : ClosesOnce μ es c := by
  induction es generalizing c starts with
  | nil =>
    rw [run, Option.some.injEq] at h
    rw [h, hf'] at hf
    cases hf
  | cons x es ih =>
    obtain ⟨c₁, h₁, h₂⟩ := run_cons h
    have hf₁ := hs.finished_iff ht h₁
    rw [hf, Bool.false_or] at hf₁
    cases hx : x.event.isClosed with
    | true =>
      rw [hx] at hf₁
      exact ⟨[], x, es, c, c₁, rfl, rfl, h₁, hx, hf, hf₁, by simp, run_finished ht (hs.step ht h₁) hf₁ h₂⟩
    | false =>
      rw [hx] at hf₁
      obtain ⟨xs, y, ys, c₂, c₃, rfl, h₃, h₄, hy, hfy, hfy', hxs, hys⟩ := ih (hs.step ht h₁) hf₁ h₂
      refine ⟨x :: xs, y, ys, c₂, c₃, rfl, Option.bind_eq_some_iff.mpr ⟨c₁, h₁, h₃⟩, h₄, hy, hfy, hfy', ?_, hys⟩
      intro z hz
      rcases List.mem_cons.mp hz with rfl | hz
      · exact hx
      · exact hxs z hz

omit ht

/-- In the course that begins with `c` the writer is told to stop, for the first time, when it has come
to `c₀`. After that it gets no more messages. It is started once at most. -/
structure Shutdown (μ : Measure) (c : Course) (before : List Moment) (x : Moment) (after : List Moment)
    (c₀ c' : Course) : Prop where
  past : c.run μ before = some c₀
  running : c₀.writer.isStopped = false
  stop : x.event = .stop
  future : c₀.run μ (x :: after) = some c'
  quiet : ∀ y ∈ after, y.event.isAdd = false
  once : (before ++ after).countP (·.event.isStart) ≤ 1

theorem Shutdown.synchronous {s : Settings} {limit : Nat} {d : Diagnostics} {before after : List Moment}
    {c₀ : Course} (h : Shutdown μ (new s limit d) before x after c₀ c) :
    c₀.writer.synchronous = s.synchronous ∧ c.writer.synchronous = s.synchronous :=
  ⟨(run_make h.past).synchronous, (run_make (run_trans h.past h.future)).synchronous⟩

theorem step_stop (hd : c.writer.isStopped = true) (hx : x.event = .stop) : c.step μ x = some c := by
  unfold step
  rw [hx]
  simp only [Writer.respond, Writer.stop, hd, Bool.not_true, Bool.and_false, if_false, if_true, Option.map_some,
    Bool.false_eq_true]
  rfl

section
variable {s : Settings} {limit : Nat} {d : Diagnostics} {before after : List Moment} {c₀ : Course}

theorem Shutdown.stopped (ht : μ.Total) (h : Shutdown μ (new s limit d) before x after c₀ c)
    (hcalm : ∀ y ∈ before ++ after, ∀ p, y.event ≠ .checked (.error p)) :
    ∃ c₁, c₀.step μ x = some c₁ ∧ c₁.run μ after = some c ∧ Stopped (before.countP (·.event.isStart)) after c₁ ∧
      c₁.writer = (c₀.writer.stop x.now).1 ∧ c₁.ledger = c₀.ledger ∧
      c₀.writer.InOrder (before.countP (·.event.isStart)) ∧
      c₁.writer.finished = false ∧ ∀ y ∈ before, y.event.isClosed = false := by
  obtain ⟨c₁, h₁, h₂⟩ := run_cons h.future
  have honce := h.once
  rw [List.countP_append] at honce
  obtain ⟨hi, hf⟩ := run_inOrder ht (Writer.create_inOrder s limit) h.past (by omega)
    (fun y hy => hcalm y (List.mem_append_left _ hy))
  rw [Nat.zero_add] at hi
  have hf₀ : c₀.writer.finished = false := hi.not_finished h.running
  have hnone : before.countP (·.event.isClosed) = 0 := by
    rw [hf₀] at hf
    change 0 = 0 + _ at hf
    omega
  obtain ⟨hi₁, hf₁⟩ := step_inOrder ht hi h₁ (by simp [h.stop, Event.isStart]) (by simp [h.stop])
  obtain ⟨r, hr, hw, hl⟩ := step_respond h₁
  rw [h.stop] at hr hl hi₁ hf₁
  have hr : c₀.writer.stop x.now = r := by
    simp only [Writer.respond] at hr
    split at hr
    · cases hr
    · exact Option.some.inj hr
  have hd : c₁.writer.isStopped = true := by
    unfold Writer.isStopped
    rw [hw, ← hr, Writer.stop_deadline h.running]
    rfl
  have hs : Stopped (before.countP (·.event.isStart)) after c₁ :=
    ⟨hi₁, hd, honce, h.quiet, fun y hy => hcalm y (List.mem_append_right _ hy)⟩
  refine ⟨c₁, h₁, h₂, hs, ?_, hl, hi, ?_, ?_⟩
  · rw [hw, ← hr]
  · rw [hf₀] at hf₁
    cases hc : c₁.writer.finished with
    | true => rw [hc] at hf₁; cases hf₁
    | false => rfl
  · intro y hy
    have hn := List.countP_eq_zero.mp hnone y hy
    exact Bool.eq_false_iff.mpr hn

theorem Shutdown.over_or_goes_on (ht : μ.Total) (h : Shutdown μ (new s limit d) before x after c₀ c)
    (hcalm : ∀ y ∈ before ++ after, ∀ p, y.event ≠ .checked (.error p))
    (hstart : s.synchronous = false → (before ++ after).countP (·.event.isStart) = 1) :
    c.writer.IsOver ∨ ∃ t, c.writer.GoesOn μ t := by
  obtain ⟨c₁, -, h₂, hs, -⟩ := h.stopped ht hcalm
  have hend := run_stopped ht (show Stopped _ (after ++ []) c₁ by rwa [List.append_nil]) h₂
  refine Writer.over_or_goes_on hend.inOrder hend.stopped fun hsync => ?_
  rw [← List.countP_append, hstart (h.synchronous.2 ▸ hsync)]
  exact Nat.one_ne_zero

theorem Shutdown.closes_once (ht : μ.Total) (h : Shutdown μ (new s limit d) before x after c₀ c)
    (hcalm : ∀ y ∈ before ++ after, ∀ p, y.event ≠ .checked (.error p)) (hover : c.writer.IsOver) :
    ClosesOnce μ (before ++ x :: after) (new s limit d) := by
  obtain ⟨c₁, h₁, h₂, hs, -, -, -, hf₁, hnone⟩ := h.stopped ht hcalm
  have hclosed : ∀ z ∈ before ++ [x], z.event.isClosed = false := by
    intro z hz
    rcases List.mem_append.mp hz with hz | hz
    · exact hnone z hz
    · rw [List.mem_singleton.mp hz, h.stop]
      rfl
  have honce := (Course.closes_once ht hs hf₁ h₂ hover.1).prepend (run_snoc h.past h₁) hclosed
  rwa [List.append_assoc] at honce

end

end Course

end LogRelay
