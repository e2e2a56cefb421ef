import LogRelay.Proofs.Runs

/-!
# The stages of a writer's life

In each phase it is known whether a writer has been started, whether it has been told to stop and
whether it has come to its end, as long as its destination does not panic and it is started once. It
comes to its end when its destination is shut down, and it is stopped before that.
-/

namespace LogRelay

namespace Writer

def IsBusy (starts : Nat) (w : Writer) : Prop :=
  w.finished = false ∧ (w.synchronous = false → starts ≠ 0)

/-- What is known in each phase of a writer that has been started so often. -/
def PhaseInOrder (starts : Nat) (w : Writer) : Phase → Prop
  | .idle => w.finished = if w.synchronous then w.isStopped else decide (starts ≠ 0)
  | .checking => starts ≠ 0 ∧ w.finished = (w.synchronous && w.isStopped)
  | .turning => w.IsBusy starts
  | .waiting limit last =>
    w.IsBusy starts ∧ (last = true → w.isStopped = true) ∧
      (limit = none → w.synchronous = false ∧ (w.isStopped = true → w.backlog.interrupted = true))
  | .collecting batch _ last =>
    w.IsBusy starts ∧ (last = true → w.isStopped = true) ∧ batch.messages ≠ []
  | .sending batch last => w.IsBusy starts ∧ (last = true → w.isStopped = true) ∧ batch ≠ []
  | .closing => w.IsBusy starts ∧ w.isStopped = true
  | .unwound _ => w.synchronous = true ∧ w.finished = true

structure InOrder (starts : Nat) (w : Writer) : Prop where
  ended : w.finished = true → w.isStopped = true
  phase : w.PhaseInOrder starts w.phase

theorem create_inOrder (s : Settings) (limit : Nat) : (create s limit).InOrder 0 := by
  refine ⟨fun h => (by cases h), ?_⟩
  change false = if s.synchronous then false else decide (0 ≠ 0)
  cases s.synchronous <;> rfl

structure SameStage (w w' : Writer) : Prop where
  phase : w'.phase = w.phase
  synchronous : w'.synchronous = w.synchronous
  stopped : w'.isStopped = w.isStopped
  finished : w'.finished = w.finished
  interrupted : w'.backlog.interrupted = w.backlog.interrupted

variable {μ : Measure} {now : Instant} {starts : Nat} {w w' : Writer} {r : Writer × List Notice}

theorem InOrder.same (h : w.InOrder starts) (hs : SameStage w w') : w'.InOrder starts := by
  obtain ⟨hended, hphase⟩ := h
  refine ⟨?_, ?_⟩
  · rw [hs.finished, hs.stopped]
    exact hended
  · rw [hs.phase]
    unfold PhaseInOrder IsBusy at hphase ⊢
    rw [hs.synchronous, hs.stopped, hs.finished, hs.interrupted]
    exact hphase

theorem InOrder.not_finished (h : w.InOrder starts) (hd : w.isStopped = false) : w.finished = false := by
  refine Bool.eq_false_iff.mpr fun hf => ?_
  rw [h.ended hf] at hd
  cases hd

theorem turn_inOrder (hb : w.IsBusy starts) {last : Bool} (hl : last = true → w.isStopped = true)
    (progressed : Bool) : (w.turn progressed last).1.InOrder starts ∧
      (w.turn progressed last).1.finished = w.finished := by
  obtain ⟨hf, hstart⟩ := hb
  have hended : ∀ {P : Prop}, w.finished = true → P := fun h => by rw [hf] at h; cases h
  unfold turn
  split
  · rename_i hs
    split
    · rename_i hd
      refine ⟨⟨hended, ?_⟩, rfl⟩
      have hd : w.isStopped = false := by simpa using hd
      simp only [PhaseInOrder, hs, if_true, hf]
      exact hd.symm
    · rename_i hd
      have hd : w.isStopped = true := by simpa using hd
      split
      · exact ⟨⟨hended, hf, hstart⟩, rfl⟩
      · exact ⟨⟨hended, ⟨hf, hstart⟩, hd⟩, rfl⟩
  · split
    · rename_i hp
      rw [Bool.and_eq_true] at hp
      exact ⟨⟨hended, ⟨hf, hstart⟩, hl hp.1⟩, rfl⟩
    · exact ⟨⟨hended, hf, hstart⟩, rfl⟩

theorem Move.inOrder (ht : μ.Total) (h : w.InOrder starts) (hm : w.Move μ now r) :
    r.1.InOrder starts ∧ r.1.finished = w.finished := by
  obtain ⟨hended, hphase⟩ := h
  cases hm with
  | resume hp hs =>
    rw [hp] at hphase
    exact ⟨⟨hended, hphase, fun h => (by cases h), fun h => (by cases h)⟩, rfl⟩
  | leave hp hs hd he =>
    rw [hp] at hphase
    exact ⟨⟨hended, hphase, hd⟩, rfl⟩
  | await hp hs hd =>
    rw [hp] at hphase
    refine ⟨⟨hended, hphase, fun hl => ?_, fun hn => ⟨hs, fun hd => ?_⟩⟩, rfl⟩
    · change w.deadline.isSome = true
      cases hdl : w.deadline with
      | none => simp [hdl] at hl
      | some t => rfl
    · change w.deadline.isSome = true at hd
      rw [hn] at hd
      cases hd
  | begin hp hq hb =>
    rw [hp] at hphase
    exact ⟨⟨hended, hphase.1, hphase.2.1, List.cons_ne_nil _ _⟩, rfl⟩
  | balk hp hq hb =>
    obtain ⟨n, hn⟩ := ht.size _
    rw [hn] at hb
    cases hb
  | interrupted hp hq hi =>
    rw [hp] at hphase
    exact turn_inOrder (w := { w with backlog := w.backlog.clearInterrupt }) hphase.1 hphase.2.1 true
  | expire hp hq hi hl =>
    rw [hp] at hphase
    exact turn_inOrder hphase.1 hphase.2.1 true
  | @fill batch limit last f hp hf =>
    rw [hp] at hphase
    obtain ⟨hbusy, hlast, hne⟩ := hphase
    have hne' : batch.messages ++ f.taken ≠ [] := by simp [hne]
    refine ⟨⟨hended, ?_⟩, rfl⟩
    cases f.full with
    | true => exact ⟨hbusy, hlast, hne'⟩
    | false => exact ⟨hbusy, hlast, hne'⟩
  | spill hp hf => exact absurd ht (Measure.fill_error hf).2
  | cut hp he hi | lapse hp he hl =>
    rw [hp] at hphase
    exact ⟨⟨hended, hphase⟩, rfl⟩

def returned (batch : List Message) : Except Panic (Except Failure (List Nat)) → List Message
  | .ok (.ok failed) => retained failed batch
  | _ => batch

theorem sent_fst (w : Writer) (batch : List Message) (last : Bool)
    (result : Except Panic (Except Failure (List Nat))) :
    (w.sent batch last result).1 =
      ({ w with backlog := w.backlog.requeue (returned batch result) }.turn
        (decide ((returned batch result).length < batch.length)) last).1 := by
  have hfalse : decide (batch.length < batch.length) = false := decide_eq_false (Nat.lt_irrefl _)
  rcases result with p | e | failed
  · change _ = ({ w with backlog := w.backlog.requeue batch }.turn (decide (batch.length < batch.length)) last).1
    rw [hfalse]
    rfl
  · change _ = ({ w with backlog := w.backlog.requeue batch }.turn (decide (batch.length < batch.length)) last).1
    rw [hfalse]
    rfl
  · rfl

theorem add_inOrder (h : w.InOrder starts) (m : Message) :
    (w.add m now).1.InOrder starts ∧ (w.add m now).1.finished = w.finished := by
  rw [add_fst]
  split
  · rename_i m' _
    unfold queue
    dsimp only
    split
    · rename_i hc
      simp only [Bool.and_eq_true, Bool.not_eq_true'] at hc
      obtain ⟨⟨hs, -⟩, hd⟩ := hc
      have hbusy : w.IsBusy starts := by
        refine ⟨h.not_finished hd, fun hs' => ?_⟩
        rw [hs] at hs'
        cases hs'
      exact ⟨⟨h.ended, hbusy, fun hl => (by cases hl), fun hl => (by cases hl)⟩, rfl⟩
    · exact ⟨h.same ⟨rfl, rfl, rfl, rfl, (Backlog.enqueue_sameSettings _ _).interrupted⟩, rfl⟩
  · exact ⟨h, rfl⟩

theorem stop_inOrder (h : w.InOrder starts) :
    (w.stop now).1.InOrder starts ∧ (w.stop now).1.finished = w.finished := by
  unfold stop
  split
  · exact ⟨h, rfl⟩
  · rename_i hd
    have hf : w.finished = false := h.not_finished (by simpa using hd)
    have hphase := h.phase
    have hended' : ∀ {P : Prop}, w.finished = true → P := fun h => by rw [hf] at h; cases h
    dsimp only
    split
    · rename_i hs
      have hs : w.synchronous = false := by simpa using hs
      refine ⟨⟨hended', ?_⟩, rfl⟩
      change PhaseInOrder _ _ w.phase
      cases hp : w.phase with
      | idle =>
        rw [hp] at hphase
        simpa [PhaseInOrder, hs] using hphase
      | checking =>
        rw [hp] at hphase
        simpa [PhaseInOrder, hs] using hphase
      | turning =>
        rw [hp] at hphase
        exact hphase
      | waiting limit last =>
        rw [hp] at hphase
        exact ⟨hphase.1, fun _ => rfl, fun _ => ⟨hs, fun _ => rfl⟩⟩
      | collecting _ _ _ | sending _ _ =>
        rw [hp] at hphase
        exact ⟨hphase.1, fun _ => rfl, hphase.2.2⟩
      | closing =>
        rw [hp] at hphase
        exact ⟨hphase.1, rfl⟩
      | unwound p =>
        rw [hp] at hphase
        exact hphase
    · rename_i hs
      have hbusy : w.IsBusy starts := ⟨hf, fun hs' => absurd hs' (by simpa using hs)⟩
      split
      · exact ⟨⟨hended', hbusy⟩, rfl⟩
      · exact ⟨⟨hended', hbusy, rfl⟩, rfl⟩

theorem start_inOrder (h : w.InOrder 0) : w.start.InOrder 1 ∧ w.start.finished = w.finished := by
  obtain ⟨hended, hphase⟩ := h
  have hbusy : w.IsBusy 0 → w.IsBusy 1 := fun h => ⟨h.1, fun _ => Nat.one_ne_zero⟩
  by_cases hp : w.phase = .idle
  · rw [hp] at hphase
    unfold start
    rw [hp]
    refine ⟨⟨hended, Nat.one_ne_zero, ?_⟩, rfl⟩
    change w.finished = (w.synchronous && w.isStopped)
    by_cases hs : w.synchronous = true
    · simpa [PhaseInOrder, hs] using hphase
    · simpa [PhaseInOrder, hs] using hphase
  · have hstart : w.start = w := by
      unfold start
      split
      · rename_i hp'
        exact absurd hp' hp
      · rfl
    rw [hstart]
    refine ⟨⟨hended, ?_⟩, rfl⟩
    cases hp' : w.phase with
    | idle => exact absurd hp' hp
    | checking =>
      rw [hp'] at hphase
      exact absurd rfl hphase.1
    | turning =>
      rw [hp'] at hphase
      exact hbusy hphase
    | waiting _ _ | collecting _ _ _ | sending _ _ | closing =>
      rw [hp'] at hphase
      exact ⟨hbusy hphase.1, hphase.2⟩
    | unwound _ =>
      rw [hp'] at hphase
      exact hphase

theorem checked_inOrder (h : w.InOrder starts) (hp : w.phase = .checking)
    {result : Except Panic (Except Failure Unit)} (hr : ∀ p, result ≠ .error p) :
    (w.checked result).1.InOrder starts ∧ (w.checked result).1.finished = w.finished := by
  obtain ⟨hended, hphase⟩ := h
  rw [hp] at hphase
  obtain ⟨hstarts, hf⟩ := hphase
  have hnext :
      { w with initialized := true, phase := if w.synchronous then .idle else .turning }.InOrder starts := by
    refine ⟨hended, ?_⟩
    unfold PhaseInOrder
    by_cases hs : w.synchronous = true
    · simp only [hs, if_true]
      rw [hs, Bool.true_and] at hf
      exact hf
    · simp only [hs, if_false, Bool.false_eq_true]
      exact ⟨by simpa [hs] using hf, fun _ => hstarts⟩
  rcases result with p | e | _
  · exact absurd rfl (hr p)
  · exact ⟨hnext.same ⟨rfl, rfl, rfl, rfl, rfl⟩, rfl⟩
  · exact ⟨hnext.same ⟨rfl, rfl, rfl, rfl, rfl⟩, rfl⟩

theorem closed_inOrder (h : w.InOrder starts) (hp : w.phase = .closing) (result : Except Panic Unit) :
    w.finished = false ∧ (w.closed result).1.InOrder starts ∧ (w.closed result).1.finished = true := by
  obtain ⟨hended, hphase⟩ := h
  rw [hp] at hphase
  obtain ⟨⟨hf, hstarts⟩, hd⟩ := hphase
  have hidle : ∀ e, { w with phase := .idle, finished := true, failure := e }.InOrder starts := by
    intro e
    refine ⟨fun _ => hd, ?_⟩
    change true = if w.synchronous then w.isStopped else decide (starts ≠ 0)
    by_cases hs : w.synchronous = true
    · rw [if_pos hs, hd]
    · rw [if_neg hs]
      exact (decide_eq_true (hstarts (by simpa using hs))).symm
  refine ⟨hf, ?_⟩
  cases result with
  | ok _ => exact ⟨hidle w.failure, rfl⟩
  | error p =>
    unfold closed panicked
    dsimp only
    split
    · exact ⟨hidle (some p.toFailure), rfl⟩
    · rename_i hs
      exact ⟨⟨fun _ => hd, by simpa using hs, rfl⟩, rfl⟩

theorem sent_inOrder (h : w.InOrder starts) {batch : List Message} {last : Bool}
    (hp : w.phase = .sending batch last) (result : Except Panic (Except Failure (List Nat))) :
    (w.sent batch last result).1.InOrder starts ∧ (w.sent batch last result).1.finished = w.finished := by
  have hphase := h.phase
  rw [hp] at hphase
  rw [sent_fst]
  exact turn_inOrder (w := { w with backlog := w.backlog.requeue (returned batch result) }) hphase.1 hphase.2.1 _

section
variable {e : Event} (ht : μ.Total) (h : w.InOrder starts) (hstart : e.isStart = true → starts = 0)
  (hcalm : ∀ p, e ≠ .checked (.error p)) (hr : w.respond μ now e = some r)
include ht h hstart hcalm hr

theorem respond_inOrder : r.1.InOrder (starts + if e.isStart then 1 else 0) ∧
    r.1.finished.toNat = w.finished.toNat + if e.isClosed then 1 else 0 := by
  have hkept : ∀ {w' : Writer}, w'.InOrder starts ∧ w'.finished = w.finished →
      w'.InOrder (starts + 0) ∧ w'.finished.toNat = w.finished.toNat + 0 :=
    fun h => ⟨h.1, by rw [h.2, Nat.add_zero]⟩
  cases e with
  | add m =>
    simp only [respond] at hr
    split at hr
    · cases hr
    · cases hr
      exact hkept (add_inOrder h m)
  | stop =>
    simp only [respond] at hr
    split at hr
    · cases hr
    · cases hr
      exact hkept (stop_inOrder h)
  | start =>
    cases hr
    obtain rfl := hstart rfl
    obtain ⟨hi, hf⟩ := start_inOrder h
    exact ⟨hi, by rw [hf]; rfl⟩
  | setBatchDelay _ | setThreshold _ | setAction _ | setFailure _ =>
    cases hr
    exact hkept ⟨h.same ⟨rfl, rfl, rfl, rfl, rfl⟩, rfl⟩
  | go => exact hkept ((respond_go hr).inOrder ht h)
  | checked result =>
    obtain ⟨hp, rfl⟩ := respond_checked hr
    exact hkept (checked_inOrder h hp fun p hp => hcalm p (by rw [hp]))
  | sent result =>
    obtain ⟨batch, last, hp, rfl⟩ := respond_sent hr
    exact hkept (sent_inOrder h hp result)
  | closed result =>
    obtain ⟨hp, rfl⟩ := respond_closed hr
    obtain ⟨hf, hi, hf'⟩ := closed_inOrder h hp result
    exact ⟨hi, by rw [hf, hf']; rfl⟩

end

end Writer

end LogRelay
