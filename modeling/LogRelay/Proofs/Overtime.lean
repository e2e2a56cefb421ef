import LogRelay.Proofs.Conservation
import LogRelay.Proofs.Pending
import LogRelay.Proofs.Stopping

/-!
# Stopping ends, whatever becomes of the batches

Before the deadline a send that delivers nothing costs only time, a millisecond at least, so there is
room for so many of them; after the deadline it is the last. A synchronous writer ends at the first of
them. A batch that was begun before the deadline may come back after it, and is followed by another.
-/

namespace LogRelay

/-- How many sends of a millisecond each can begin between two times. -/
def rounds (deadline now : Nat) : Nat := (deadline - now + 999999) / 1000000

theorem rounds_of_le {deadline now : Nat} (h : deadline ≤ now) : rounds deadline now = 0 := by
  unfold rounds
  omega

theorem rounds_antitone (deadline : Nat) {now now' : Nat} (h : now ≤ now') :
    rounds deadline now' ≤ rounds deadline now := by
  unfold rounds
  omega

theorem rounds_le_succ (deadline : Nat) {now due : Nat} (h : due ≤ now + Duration.ofMillis 1) :
    rounds deadline now ≤ rounds deadline due + 1 := by
  unfold rounds Duration.ofMillis at *
  omega

theorem succ_rounds_le {deadline now : Nat} (h : now < deadline) :
    rounds deadline (now + Duration.ofMillis 1) + 1 ≤ rounds deadline now := by
  unfold rounds Duration.ofMillis
  omega

theorem rounds_add_ofMillis (now n : Nat) : rounds (now + Duration.ofMillis n) now = n := by
  unfold rounds Duration.ofMillis
  omega

def Phase.last? : Phase → Option Bool
  | .waiting _ last | .collecting _ _ last | .sending _ last => some last
  | _ => none

namespace Writer

def spare (deadline now due : Instant) (w : Writer) : Nat :=
  if w.synchronous then 0
  else match w.phase.last? with
    | none => rounds deadline now
    | some true => 0
    | some false => rounds deadline due + 1

def sendsLeft (deadline now due : Instant) (w : Writer) : Nat :=
  match w.phase with
  | .closing | .unwound _ => 0
  | .idle | .checking => if w.finished then 0 else w.pending + w.spare deadline now due
  | _ => w.pending + w.spare deadline now due

variable {μ : Measure} {starts : Nat} {w w' : Writer} {r : Writer × List Notice}
  {deadline now now' due due' : Instant}

theorem sendsLeft_le (deadline now due : Instant) (w : Writer) :
    w.sendsLeft deadline now due ≤ w.pending + w.spare deadline now due := by
  unfold sendsLeft
  repeat' split
  all_goals omega

theorem sendsLeft_of_last? {last : Bool} (h : w.phase.last? = some last) :
    w.sendsLeft deadline now due = w.pending + w.spare deadline now due := by
  unfold sendsLeft
  cases hp : w.phase <;> simp [hp, Phase.last?] at h ⊢

theorem sendsLeft_of_closing (h : w.phase = .closing) : w.sendsLeft deadline now due = 0 := by
  simp [sendsLeft, h]

theorem IsOver.sendsLeft (h : w.IsOver) : w.sendsLeft deadline now due = 0 := by
  obtain ⟨hf, hp | ⟨p, hp⟩⟩ := h <;> simp [Writer.sendsLeft, hp, hf]

theorem sendsLeft_of_turning (h : w.phase = .turning) :
    w.sendsLeft deadline now due = w.backlog.size + if w.synchronous then 0 else rounds deadline now := by
  simp [sendsLeft, spare, pending, held, Phase.last?, h]

theorem isStopped_of_eq_some (hd : w.deadline = some deadline) : w.isStopped = true := by
  unfold isStopped
  rw [hd]
  rfl

theorem sendsLeft_of_synchronous (hs : w.synchronous = true) :
    w.sendsLeft deadline now due = w.sendsLeft deadline now' due' := by
  simp [sendsLeft, spare, hs]

structure OnTime (deadline now due : Instant) (w : Writer) : Prop where
  due : due ≤ now + Duration.ofMillis 1
  late : w.phase.last? = some true → deadline ≤ now

theorem InOrder.stopped_of_last (h : w.InOrder starts) (hl : w.phase.last? = some true) : w.isStopped = true := by
  have hphase := h.phase
  cases hp : w.phase with
  | waiting limit last | collecting batch limit last | sending batch last =>
    rw [hp] at hl hphase
    exact hphase.2.1 (Option.some.inj hl)
  | _ => rw [hp] at hl; cases hl

theorem turn_goes_round (hd : w.isStopped = true) (progressed last : Bool) :
    (w.turn progressed last).1.phase = .closing ∨
      (w.turn progressed last).1.phase = .turning ∧ (progressed = true ∨ w.synchronous = false ∧ last = false) := by
  unfold turn
  by_cases hs : w.synchronous = true
  · rw [if_pos hs, if_neg (by rw [hd]; exact Bool.false_ne_true)]
    by_cases hc : (progressed && !w.backlog.isEmpty) = true
    · rw [if_pos hc]
      rw [Bool.and_eq_true] at hc
      exact Or.inr ⟨rfl, Or.inl hc.1⟩
    · rw [if_neg hc]
      exact Or.inl rfl
  · rw [if_neg hs]
    by_cases hc : (last && !progressed) = true
    · rw [if_pos hc]
      exact Or.inl rfl
    · rw [if_neg hc]
      refine Or.inr ⟨rfl, ?_⟩
      cases progressed with
      | true => exact Or.inl rfl
      | false => exact Or.inr ⟨by simpa using hs, by simpa using hc⟩

section
variable (hnow : now ≤ now') (hon : w.synchronous = false → OnTime deadline now due w)
include hnow hon

theorem rounds_le_spare {last : Bool} (hl : w.phase.last? = some last) (hs : w.synchronous = false) :
    rounds deadline now' ≤ w.spare deadline now due := by
  obtain ⟨hdue, hlate⟩ := hon hs
  have hmono := rounds_antitone deadline hnow
  cases last with
  | true => rw [rounds_of_le (Nat.le_trans (hlate hl) hnow)]; exact Nat.zero_le _
  | false =>
    have hsucc := rounds_le_succ deadline hdue
    have hspare : w.spare deadline now due = rounds deadline due + 1 := by simp [spare, hs, hl]
    omega

/-- A batch that comes to nothing leaves no more to send. -/
theorem turn_sendsLeft_le {last : Bool} (hl : w.phase.last? = some last) (hstop : w'.isStopped = true)
    (hsync : w'.synchronous = w.synchronous) (hq : w'.backlog.toList = []) :
    (w'.turn true last).1.sendsLeft deadline now' due' ≤ w.sendsLeft deadline now due := by
  rcases turn_goes_round hstop true last with hc | ⟨ht, -⟩
  · rw [sendsLeft_of_closing hc]
    exact Nat.zero_le _
  · have hletsGo := turn_letsGo true last w'
    have hsize : w'.backlog.size = 0 := by rw [← Backlog.length_toList, hq]; rfl
    rw [sendsLeft_of_turning ht, sendsLeft_of_last? hl, hletsGo.backlog, hletsGo.make.synchronous, hsize, hsync]
    by_cases hs : w.synchronous = true
    · simp [hs]
    · have hle := rounds_le_spare hnow hon hl (by simpa using hs)
      rw [if_neg hs]
      omega

/-- In the course of one batch only the time gets less. -/
theorem sendsLeft_within_batch {last : Bool} (hl : w.phase.last? = some last) (hl' : w'.phase.last? = some last)
    (hsync : w'.synchronous = w.synchronous) (hpending : w'.pending ≤ w.pending) :
    w'.sendsLeft deadline now' (now' + Duration.ofMillis 1) ≤ w.sendsLeft deadline now due := by
  rw [sendsLeft_of_last? hl, sendsLeft_of_last? hl']
  refine Nat.add_le_add hpending ?_
  unfold spare
  rw [hsync, hl, hl']
  by_cases hs : w.synchronous = true
  · rw [if_pos hs]
    exact Nat.zero_le _
  · rw [if_neg hs, if_neg hs]
    cases last with
    | true => exact Nat.le_refl _
    | false =>
      have hdue := (hon (by simpa using hs)).due
      exact Nat.succ_le_succ (rounds_antitone deadline (Nat.le_trans hdue (Nat.add_le_add_right hnow _)))

theorem Move.sendsLeft_le (ht : μ.Total) (hd : w.deadline = some deadline) (hm : w.Move μ now' r) :
    r.1.sendsLeft deadline now' (now' + Duration.ofMillis 1) ≤ w.sendsLeft deadline now due := by
  have hpending := hm.advances.pending_le
  have hsync := hm.advances.make.synchronous
  have hstopped : w.isStopped = true := isStopped_of_eq_some hd
  cases hm with
  | resume hp hs =>
    rw [sendsLeft_of_turning hp]
    simp [sendsLeft, spare, pending, held, hs]
  | leave hp hs hd he => exact Nat.zero_le _
  | await hp hs hne =>
    have hmono := rounds_antitone deadline hnow
    rw [sendsLeft_of_turning hp, hs]
    by_cases hle : deadline ≤ now'
    · simp [sendsLeft, spare, pending, held, Phase.last?, hd, hle]
    · have hsucc := succ_rounds_le (Nat.lt_of_not_le hle)
      simp [sendsLeft, spare, pending, held, Phase.last?, hd, hle]
      omega
  | begin hp hq hb => exact sendsLeft_within_batch hnow hon (by rw [hp]; rfl) rfl hsync hpending
  | balk hp hq hb =>
    obtain ⟨k, hk⟩ := ht.size _
    rw [hk] at hb
    cases hb
  | interrupted hp hq hi =>
    have hq := Backlog.pop?_eq_none hq
    exact turn_sendsLeft_le hnow hon (by rw [hp]; rfl) hstopped rfl hq
  | expire hp hq hi hl =>
    exact turn_sendsLeft_le hnow hon (by rw [hp]; rfl) hstopped rfl (Backlog.pop?_eq_none hq)
  | @fill batch limit last f hp hf hm =>
    refine sendsLeft_within_batch hnow hon (by rw [hp]; rfl) ?_ hsync hpending
    dsimp only
    split <;> rfl
  | spill hp hf => exact absurd ht (Measure.fill_error hf).2
  | cut hp he hi | lapse hp he hl => exact sendsLeft_within_batch hnow hon (by rw [hp]; rfl) rfl hsync hpending

theorem sent_sendsLeft_lt (h : w.InOrder starts) (hd : w.deadline = some deadline) {batch : List Message}
    {last : Bool} (hp : w.phase = .sending batch last) (hdue : w.synchronous = false → due ≤ now')
    (result : Except Panic (Except Failure (List Nat))) :
    (w.sent batch last result).1.sendsLeft deadline now' due' < w.sendsLeft deadline now due := by
  have hl : w.phase.last? = some last := by rw [hp]; rfl
  have hheld : w.held = batch := by simp [held, hp]
  have hpending : w.pending = batch.length + w.backlog.size := by rw [pending, hheld]
  have hbatch : 0 < batch.length := by
    have hphase := h.phase
    rw [hp] at hphase
    exact List.length_pos_iff.mpr hphase.2.2
  have hle := length_returned_le batch result
  rw [sent_fst, sendsLeft_of_last? hl]
  rcases turn_goes_round (w := { w with backlog := w.backlog.requeue (returned batch result) })
    (isStopped_of_eq_some hd) (decide ((returned batch result).length < batch.length)) last with hc | ⟨ht, hprogress⟩
  · rw [sendsLeft_of_closing hc]
    omega
  · have hletsGo := turn_letsGo (decide ((returned batch result).length < batch.length)) last
      { w with backlog := w.backlog.requeue (returned batch result) }
    have hsize : (w.backlog.requeue (returned batch result)).size =
        (returned batch result).length + w.backlog.size := rfl
    rw [sendsLeft_of_turning ht, hletsGo.backlog, hletsGo.make.synchronous, hsize, decide_eq_true_eq] at *
    by_cases hs : w.synchronous = true
    · rw [if_pos hs]
      simp only [hs, Bool.true_eq_false, false_and, or_false] at hprogress
      omega
    · have hs : w.synchronous = false := by simpa using hs
      rw [if_neg (by rw [hs]; exact Bool.false_ne_true)]
      cases last with
      | true =>
        -- begun late, it has delivered something, or there would be no other turn
        have hspare := rounds_le_spare hnow hon hl hs
        simp only [Bool.true_eq_false, and_false, or_false] at hprogress
        omega
      | false =>
        -- begun in time, it may come to nothing, for which one send is set aside
        have hspare : w.spare deadline now due = rounds deadline due + 1 := by simp [spare, hs, hl]
        have hmono := rounds_antitone deadline (hdue hs)
        omega

omit hon in
theorem checked_sendsLeft_le (h : w.InOrder starts) (hd : w.deadline = some deadline)
    {result : Except Panic (Except Failure Unit)} (hcalm : ∀ p, result ≠ .error p)
    (hr : w.respond μ now' (.checked result) = some r) :
    r.1.sendsLeft deadline now' due' ≤ w.sendsLeft deadline now due := by
  have hpending := respond_pending_le (by rfl) hr
  obtain ⟨hp, rfl⟩ := respond_checked hr
  have hphase := h.phase
  rw [hp] at hphase
  have hsync : (w.checked result).1.synchronous = w.synchronous := (change_of_respond hr).make.synchronous
  have hnext : (w.checked result).1.phase = (if w.synchronous then .idle else .turning) ∧
      (w.checked result).1.finished = w.finished := by
    rcases result with p | e | _
    · exact absurd rfl (hcalm p)
    · exact ⟨rfl, rfl⟩
    · exact ⟨rfl, rfl⟩
  have hstopped := isStopped_of_eq_some hd
  by_cases hs : w.synchronous = true
  · -- a synchronous writer is only started again once it is at its end
    have hf : w.finished = true := by rw [hphase.2, hs, hstopped]; rfl
    simp [sendsLeft, hnext.1, hnext.2, hs, hf]
  · have hs : w.synchronous = false := by simpa using hs
    have hf : w.finished = false := by rw [hphase.2, hs]; rfl
    have hturning : (w.checked result).1.phase = .turning := by rw [hnext.1, hs]; rfl
    have hmono := rounds_antitone deadline hnow
    have hle : (w.checked result).1.backlog.size ≤ (w.checked result).1.pending := Nat.le_add_left _ _
    have hleft : w.sendsLeft deadline now due = w.pending + rounds deadline now := by
      simp [sendsLeft, spare, Phase.last?, hp, hf, hs]
    rw [sendsLeft_of_turning hturning, hsync, hs, hleft]
    simp only [Bool.false_eq_true, if_false]
    omega

omit hon in
theorem call_sendsLeft_le (hp : w'.phase = w.phase) (hs : w'.synchronous = w.synchronous)
    (hf : w'.finished = w.finished) (hpending : w'.pending = w.pending) :
    w'.sendsLeft deadline now' due ≤ w.sendsLeft deadline now due := by
  have hspare : w'.spare deadline now' due ≤ w.spare deadline now due := by
    have hmono := rounds_antitone deadline hnow
    unfold spare
    rw [hs, hp]
    split
    · exact Nat.le_refl _
    · split <;> omega
  unfold sendsLeft
  rw [hp, hf, hpending]
  repeat' split
  all_goals omega

/-- No event leaves more sends to be made, and each answer to a batch leaves fewer. -/
theorem respond_sendsLeft (ht : μ.Total) (h : w.InOrder starts) (hd : w.deadline = some deadline) {e : Event}
    (hadd : e.isAdd = false) (hcalm : ∀ p, e ≠ .checked (.error p))
    (hdue : w.synchronous = false → e.isSent = true → due ≤ now') (hr : w.respond μ now' e = some r) :
    r.1.sendsLeft deadline now' (if e.isStep then now' + Duration.ofMillis 1 else due) +
      (if e.isSent then 1 else 0) ≤ w.sendsLeft deadline now due := by
  have hstopped := isStopped_of_eq_some hd
  cases e with
  | add _ => cases hadd
  | stop =>
    simp only [respond] at hr
    split at hr
    · cases hr
    · cases hr
      simp only [stop, hstopped, if_true]
      exact call_sendsLeft_le hnow rfl rfl rfl rfl
  | start =>
    cases hr
    simp only [Event.isStep, Event.isSent, Bool.false_eq_true, if_false, Nat.add_zero]
    unfold start
    split
    · rename_i hp
      have hmono := rounds_antitone deadline hnow
      simp only [sendsLeft, spare, hp, Phase.last?, pending, held]
      split
      · exact Nat.le_refl _
      · split <;> omega
    · exact call_sendsLeft_le hnow rfl rfl rfl rfl
  | setBatchDelay _ | setThreshold _ | setAction _ | setFailure _ =>
    cases hr
    exact call_sendsLeft_le hnow rfl rfl rfl rfl
  | go => exact (respond_go hr).sendsLeft_le hnow hon ht hd
  | checked result => exact checked_sendsLeft_le hnow h hd (fun p hp => hcalm p (by rw [hp])) hr
  | sent result =>
    obtain ⟨batch, last, hp, rfl⟩ := respond_sent hr
    exact sent_sendsLeft_lt hnow hon h hd hp (fun hs => hdue hs rfl) result
  | closed result =>
    obtain ⟨hp, rfl⟩ := respond_closed hr
    exact Nat.le_trans (Nat.le_of_eq (closed_isOver hstopped result).sendsLeft) (Nat.zero_le _)

theorem respond_onTime (hs : w.synchronous = false) (hd : w.deadline = some deadline) {e : Event}
    (hadd : e.isAdd = false) (hr : w.respond μ now' e = some r) :
    r.1.OnTime deadline now' (if e.isStep then now' + Duration.ofMillis 1 else due) := by
  obtain ⟨hdue, hlate⟩ := hon hs
  have hstopped := isStopped_of_eq_some hd
  constructor
  · split
    · exact Nat.le_refl _
    · exact Nat.le_trans hdue (Nat.add_le_add_right hnow _)
  · intro hl
    have hcall : ∀ w' : Writer, w'.phase = w.phase → w'.phase.last? = some true → deadline ≤ now' := by
      intro w' hp hl
      rw [hp] at hl
      exact Nat.le_trans (hlate hl) hnow
    have hturn : ∀ {P : Prop} {w' : Writer} {progressed last : Bool}, w'.isStopped = true →
        (w'.turn progressed last).1.phase.last? = some true → P := by
      intro P w' progressed last hd hl
      rcases turn_goes_round hd progressed last with hp | ⟨hp, -⟩
      all_goals
        rw [hp] at hl
        cases hl
    cases e with
    | add _ => cases hadd
    | stop =>
      simp only [respond] at hr
      split at hr
      · cases hr
      · cases hr
        simp only [stop, hstopped, if_true] at hl
        exact hcall w rfl hl
    | start =>
      cases hr
      simp only [start] at hl
      split at hl
      · cases hl
      · exact hcall w rfl hl
    | setBatchDelay _ | setThreshold _ | setAction _ | setFailure _ =>
      cases hr
      exact hcall w rfl hl
    | go =>
      cases respond_go hr with
      | await hp _ _ =>
        simp only [Phase.last?, hd, Option.any_some, Option.some.injEq, decide_eq_true_eq] at hl
        exact hl
      | begin hp _ _ | cut hp _ _ | lapse hp _ _ => exact Nat.le_trans (hlate (by rw [hp]; exact hl)) hnow
      | fill hp _ _ =>
        refine Nat.le_trans (hlate ?_) hnow
        rw [hp]
        dsimp only at hl
        split at hl <;> exact hl
      | interrupted _ _ _ | expire _ _ _ _ => exact hturn (by exact hstopped) hl
      | resume _ hs' => rw [hs] at hs'; cases hs'
      | leave _ _ _ _ => cases hl
      | balk _ _ _ | spill _ _ =>
        unfold panicked at hl
        repeat' split at hl
        all_goals cases hl
    | checked result =>
      obtain ⟨-, rfl⟩ := respond_checked hr
      rcases result with p | e | _
      · cases hl
      all_goals
        simp only [checked] at hl
        split at hl <;> cases hl
    | sent result =>
      obtain ⟨batch, last, -, rfl⟩ := respond_sent hr
      rw [sent_fst] at hl
      exact hturn (by exact hstopped) hl
    | closed result =>
      obtain ⟨-, rfl⟩ := respond_closed hr
      obtain ⟨-, hp | ⟨p, hp⟩⟩ := closed_isOver hstopped result
      all_goals
        rw [hp] at hl
        cases hl

end

/-! ## After the deadline -/

def Sprints (deadline : Instant) (w : Writer) : Prop :=
  match w.phase with
  | .waiting _ last => last = true ∧ w.backlog.isEmpty = false
  | .collecting _ limit last => last = true ∧ limit ≤ deadline
  | .sending _ last => last = true
  | _ => True

theorem Sprints.next_ne_wait (h : w.Sprints deadline) (hnow : deadline ≤ now) (limit : Option Instant) :
    w.next μ now ≠ .wait limit := by
  intro hn
  unfold Sprints at h
  obtain ⟨he, -, hl, ⟨last, hp⟩ | ⟨batch, l, last, rfl, hp⟩⟩ := wait_of_next hn
  · rw [hp] at h
    rw [h.2] at he
    cases he
  · rw [hp] at h
    have hle : l ≤ now := Nat.le_trans h.2 hnow
    simp [hle] at hl

theorem turn_sprints (hd : w.isStopped = true) (progressed last : Bool) :
    (w.turn progressed last).1.Sprints deadline := by
  unfold Sprints
  rcases turn_phase hd progressed last with hp | hp
  all_goals
    rw [hp]
    trivial

theorem window_le (hs : w.synchronous = false) (hd : w.deadline = some deadline) : w.window now ≤ deadline := by
  unfold window
  rw [hs, hd]
  simp only [Bool.false_eq_true, if_false]
  exact Nat.min_le_right _ _

theorem Move.sprints (ht : μ.Total) (hs : w.synchronous = false) (hd : w.deadline = some deadline)
    (hnow : deadline ≤ now) (h : w.Sprints deadline) (hm : w.Move μ now r) : r.1.Sprints deadline := by
  have hstopped := isStopped_of_eq_some hd
  unfold Sprints at h
  cases hm with
  | resume _ hs' => rw [hs] at hs'; cases hs'
  | leave _ _ _ _ => trivial
  | await hp _ hne => exact ⟨by simp [hd, hnow], hne hstopped⟩
  | begin hp hq hb =>
    rw [hp] at h
    exact ⟨h.1, window_le (w := { w with backlog := _ }) hs hd⟩
  | balk _ _ hb =>
    obtain ⟨k, hk⟩ := ht.size _
    rw [hk] at hb
    cases hb
  | interrupted _ _ _ => exact turn_sprints (w := { w with backlog := w.backlog.clearInterrupt }) hstopped true _
  | expire _ _ _ _ => exact turn_sprints hstopped true _
  | @fill batch limit last f hp hf hm =>
    rw [hp] at h
    cases hfull : f.full with
    | true => exact h.1
    | false => exact h
  | spill _ hf => exact absurd ht (Measure.fill_error hf).2
  | cut hp _ _ | lapse hp _ _ =>
    rw [hp] at h
    exact h.1

theorem respond_sprints (ht : μ.Total) (hs : w.synchronous = false) (hd : w.deadline = some deadline)
    (hnow : deadline ≤ now) (h : w.Sprints deadline) {e : Event} (hadd : e.isAdd = false)
    (hr : w.respond μ now e = some r) : r.1.Sprints deadline := by
  have hstopped := isStopped_of_eq_some hd
  cases e with
  | add _ => cases hadd
  | stop =>
    simp only [respond] at hr
    split at hr
    · cases hr
    · cases hr
      simpa only [stop, hstopped, if_true] using h
  | start =>
    cases hr
    unfold start
    split
    · trivial
    · exact h
  | setBatchDelay _ | setThreshold _ | setAction _ | setFailure _ =>
    cases hr
    exact h
  | go => exact (respond_go hr).sprints ht hs hd hnow h
  | checked result =>
    obtain ⟨-, rfl⟩ := respond_checked hr
    rcases result with p | e | _
    · trivial
    all_goals
      unfold Sprints
      simp only [checked, hs, Bool.false_eq_true, if_false]
  | sent result =>
    obtain ⟨batch, last, -, rfl⟩ := respond_sent hr
    rw [sent_fst]
    exact turn_sprints (w := { w with backlog := w.backlog.requeue (returned batch result) }) hstopped _ last
  | closed result =>
    obtain ⟨-, rfl⟩ := respond_closed hr
    unfold Sprints
    obtain ⟨-, hp | ⟨p, hp⟩⟩ := closed_isOver hstopped result
    all_goals
      rw [hp]
      trivial

/-- A last batch of which nothing is delivered, or a batch of a synchronous writer, is followed by the
end. -/
theorem turn_false_phase (hd : w.isStopped = true) {last : Bool} (hl : w.synchronous = true ∨ last = true) :
    (w.turn false last).1.phase = .closing := by
  rcases turn_goes_round hd false last with hp | ⟨-, hp | ⟨hs, hlast⟩⟩
  · exact hp
  · cases hp
  · rcases hl with hl | hl
    · rw [hs] at hl
      cases hl
    · rw [hlast] at hl
      cases hl

end Writer

/-- If the ledger shows nothing more delivered, then the whole batch went back. -/
theorem Ledger.Describes.length_returned {l : Ledger} {w w' : Writer} (h : l.Describes w) {batch : List Message}
    {last : Bool} (hp : w.phase = .sending batch last) {result : Except Panic (Except Failure (List Nat))}
    (hl : (l.enter w w' (.sent result)).delivered = l.delivered) :
    (Writer.returned batch result).length = batch.length := by
  have hheld : l.held.map (·.message) = batch := by rw [h.held]; simp [Writer.held, hp]
  rcases result with p | e | failed
  · rfl
  · rfl
  · have hnone : unlisted failed l.held = [] := List.append_right_eq_self.mp hl
    have hlen := length_unlisted failed l.held
    have hle := (listed_sublist failed l.held).length_le
    rw [hnone, List.length_nil] at hlen
    rw [← hheld, Writer.returned, retained_eq_listed, listed_map, List.length_map, List.length_map]
    omega

/-! ## Whole courses -/

namespace Course

/-- From `now` on time does not go back, and the next answer to a batch does not come before `due`:
each takes a millisecond from when the writer came to ask for it. -/
def Paced : Instant → Instant → List Moment → Prop
  | _, _, [] => True
  | now, due, x :: es => now ≤ x.now ∧ (x.event.isSent = true → due ≤ x.now) ∧
      Paced x.now (if x.event.isStep then x.now + Duration.ofMillis 1 else due) es

instance instDecidablePaced : (now due : Instant) → (es : List Moment) → Decidable (Paced now due es)
  | _, _, [] => isTrue trivial
  | _, due, x :: es =>
    have : Decidable (Paced x.now (if x.event.isStep then x.now + Duration.ofMillis 1 else due) es) :=
      instDecidablePaced _ _ es
    inferInstanceAs (Decidable (_ ∧ _ ∧ _))

/-- A stopped writer and the time that it has. -/
structure Waning (deadline now due : Instant) (starts : Nat) (es : List Moment) (c : Course) : Prop
    extends Stopped starts es c where
  limit : c.writer.deadline = some deadline
  timed : c.writer.synchronous = false → Paced now due es ∧ c.writer.OnTime deadline now due

/-- There are at most `n` sends, and none after one that delivers nothing. -/
def Dwindles (μ : Measure) (n : Nat) (es : List Moment) (c : Course) : Prop :=
  es.countP (·.event.isSent) ≤ n ∧
  ∀ xs y ys c₁ c₂, es = xs ++ y :: ys → c.run μ xs = some c₁ → c₁.step μ y = some c₂ → y.event.isSent = true →
    c₂.ledger.delivered = c₁.ledger.delivered →
    c₂.writer.phase = .closing ∧ ∀ z ∈ ys, z.event.isSent = false

variable {μ : Measure} {starts : Nat} {x : Moment} {es es' : List Moment} {c c' : Course}
  {deadline now due : Instant}

theorem Dwindles.cons {n n' : Nat} (h : Dwindles μ n es c') (hx : c.step μ x = some c')
    (hsent : x.event.isSent = false) (hn : n ≤ n') : Dwindles μ n' (x :: es) c := by
  constructor
  · rw [List.countP_cons, hsent]
    exact Nat.le_trans h.1 hn
  · intro xs y ys c₁ c₂ he h₁ h₂ hy hl
    cases xs with
    | nil =>
      rw [List.nil_append, List.cons.injEq] at he
      rw [← he.1, hsent] at hy
      cases hy
    | cons x' xs =>
      rw [List.cons_append, List.cons.injEq] at he
      obtain ⟨rfl, he⟩ := he
      obtain ⟨c₃, h₃, h₄⟩ := run_cons h₁
      rw [hx] at h₃
      cases h₃
      exact h.2 xs y ys c₁ c₂ he h₄ h₂ hy hl

section
variable (ht : μ.Total)
include ht

theorem Waning.step (h : Waning deadline now due starts (x :: es) c) (hx : c.step μ x = some c') :
    ∃ now' due', Waning deadline now' due' (starts + if x.event.isStart then 1 else 0) es c' ∧
      c'.writer.sendsLeft deadline now' due' + (if x.event.isSent then 1 else 0) ≤
        c.writer.sendsLeft deadline now due := by
  obtain ⟨r, hr, hw, -⟩ := step_respond hx
  have hadd := h.quiet x (by simp)
  have hcalm := h.calm x (by simp)
  have hsync : c'.writer.synchronous = c.writer.synchronous := by
    rw [hw]
    exact (Writer.change_of_respond hr).make.synchronous
  have hlimit : c'.writer.deadline = some deadline := by
    rw [hw, Writer.respond_deadline h.stopped hr]
    exact h.limit
  by_cases hs : c.writer.synchronous = true
  · refine ⟨now, due, ⟨h.toStopped.step ht hx, hlimit, fun hs' => ?_⟩, ?_⟩
    · rw [hsync, hs] at hs'
      cases hs'
    · have hle : r.1.sendsLeft deadline x.now (if x.event.isStep then x.now + Duration.ofMillis 1 else 0) +
          (if x.event.isSent then 1 else 0) ≤ c.writer.sendsLeft deadline 0 0 :=
        Writer.respond_sendsLeft (Nat.zero_le x.now) (fun hs' => by rw [hs] at hs'; cases hs') ht h.inOrder h.limit
          hadd hcalm (fun hs' => by rw [hs] at hs'; cases hs') hr
      rw [← hw] at hle
      rwa [Writer.sendsLeft_of_synchronous (hsync.trans hs), Writer.sendsLeft_of_synchronous hs] at hle
  · have hs : c.writer.synchronous = false := by simpa using hs
    obtain ⟨⟨hnow, hdue, hpaced⟩, hon⟩ := h.timed hs
    refine ⟨x.now, _, ⟨h.toStopped.step ht hx, hlimit, fun _ => ⟨hpaced, ?_⟩⟩, ?_⟩
    · rw [hw]
      exact Writer.respond_onTime hnow (fun _ => hon) hs h.limit hadd hr
    · rw [hw]
      exact Writer.respond_sendsLeft hnow (fun _ => hon) ht h.inOrder h.limit hadd hcalm (fun _ => hdue) hr

theorem Waning.run (h : Waning deadline now due starts (es ++ es') c) (hrun : c.run μ es = some c') :
    ∃ now' due' starts', Waning deadline now' due' starts' es' c' := by
  refine run_keeps (J := fun es c => ∃ now due starts, Waning deadline now due starts es c) ?_ hrun
    ⟨now, due, starts, h⟩
  intro x es c c₁ hx hw
  obtain ⟨now, due, starts, hw⟩ := hw
  obtain ⟨now', due', hw', -⟩ := hw.step ht hx
  exact ⟨now', due', _, hw'⟩

theorem Waning.bounded (h : Waning deadline now due starts es c) (hrun : c.run μ es = some c') :
    es.countP (·.event.isSent) ≤ c.writer.sendsLeft deadline now due ∧
      es.countP (·.event.isStep) ≤ c.writer.stepsLeft starts (c.writer.sendsLeft deadline now due) :=
  run_bounded (J := fun n es c => ∃ now due starts, Waning deadline now due starts es c ∧
      c.writer.sendsLeft deadline now due = n) ht
    (fun n x es c c' hx hn => by
      obtain ⟨now, due, starts, hwane, rfl⟩ := hn
      obtain ⟨now', due', hwane', hle⟩ := hwane.step ht hx
      exact ⟨_, ⟨now', due', _, hwane', rfl⟩, hle⟩)
    h.toStopped hrun ⟨now, due, starts, h, rfl⟩

theorem Waning.fruitless_last {y : Moment} {ys : List Moment} {c₁ c₂ : Course}
    (h : Waning deadline now due starts (y :: ys) c₁) (hd : c₁.ledger.Describes c₁.writer)
    (hlast : c₁.writer.synchronous = true ∨ ∀ batch last, c₁.writer.phase = .sending batch last → last = true)
    (hy : c₁.step μ y = some c₂) (hrun : c₂.run μ ys = some c') (hsent : y.event.isSent = true)
    (hl : c₂.ledger.delivered = c₁.ledger.delivered) :
    c₂.writer.phase = .closing ∧ ∀ z ∈ ys, z.event.isSent = false := by
  obtain ⟨r, hr, hw, hledger⟩ := step_respond hy
  obtain ⟨now', due', hwane, -⟩ := h.step ht hy
  have hclosing : c₂.writer.phase = .closing := by
    cases he : y.event with
    | sent result =>
      rw [he] at hr hledger
      obtain ⟨batch, last, hp, rfl⟩ := Writer.respond_sent hr
      rw [hledger] at hl
      have hlen := hd.length_returned hp hl
      rw [hw, Writer.sent_fst, decide_eq_false (by omega)]
      refine Writer.turn_false_phase (w := { c₁.writer with
        backlog := c₁.writer.backlog.requeue (Writer.returned batch result) }) h.stopped ?_
      rcases hlast with hs | hlast
      · exact Or.inl hs
      · exact Or.inr (hlast batch last hp)
    | _ => rw [he] at hsent; cases hsent
  refine ⟨hclosing, fun z hz => ?_⟩
  have hle := (hwane.bounded ht hrun).1
  rw [Writer.sendsLeft_of_closing hclosing, Nat.le_zero] at hle
  exact Bool.eq_false_iff.mpr (List.countP_eq_zero.mp hle z hz)

theorem Waning.dwindles_of_synchronous (h : Waning deadline now due starts es c) (hs : c.writer.synchronous = true)
    (hd : c.ledger.Describes c.writer) (hrun : c.run μ es = some c') : Dwindles μ c.writer.pending es c := by
  constructor
  · have hle := (h.bounded ht hrun).1
    have hspare : c.writer.spare deadline now due = 0 := by simp [Writer.spare, hs]
    have hsends := c.writer.sendsLeft_le deadline now due
    omega
  · rintro xs y ys c₁ c₂ rfl h₁ h₂ hsent hl
    obtain ⟨_, _, _, hwane⟩ := h.run ht h₁
    have hsync : c₁.writer.synchronous = true := (run_make h₁).synchronous.trans hs
    have h₃ : c₂.run μ ys = some c' := run_next (run_rest hrun h₁) h₂
    exact hwane.fruitless_last ht (run_describes h₁ hd) (Or.inl hsync) h₂ h₃ hsent hl

theorem Waning.run_sprints (h : Waning deadline now due starts (es ++ es') c) (hs : c.writer.synchronous = false)
    (hlate : ∀ y ∈ es ++ es', deadline ≤ y.now) (hsprints : c.writer.Sprints deadline)
    (hrun : c.run μ es = some c') : c'.writer.Sprints deadline := by
  refine (run_keeps (J := fun es c => (∃ now due starts, Waning deadline now due starts es c) ∧
    c.writer.synchronous = false ∧ (∀ y ∈ es, deadline ≤ y.now) ∧ c.writer.Sprints deadline) ?_ hrun
    ⟨⟨now, due, starts, h⟩, hs, hlate, hsprints⟩).2.2.2
  rintro x es c c₁ hx ⟨⟨now, due, starts, hwane⟩, hs, hlate, hsprints⟩
  obtain ⟨now', due', hwane', -⟩ := hwane.step ht hx
  obtain ⟨r, hr, hw, -⟩ := step_respond hx
  have hsync : c₁.writer.synchronous = false := by
    rw [hw, (Writer.change_of_respond hr).make.synchronous]
    exact hs
  refine ⟨⟨now', due', _, hwane'⟩, hsync, fun y hy => hlate y (List.mem_cons_of_mem x hy), ?_⟩
  rw [hw]
  exact Writer.respond_sprints ht hs hwane.limit (hlate x (by simp)) hsprints (hwane.quiet x (by simp)) hr

omit ht in
theorem Paced.late (h : Paced now due es) (hlate : ∀ y ∈ es, deadline ≤ y.now) :
    Paced (max now deadline) due es := by
  cases es with
  | nil => trivial
  | cons x es => exact ⟨Nat.max_le.mpr ⟨h.1, hlate x (by simp)⟩, h.2⟩

/-- From a turn after the deadline on, an asynchronous writer does not wait and makes no more sends than
it has messages. -/
theorem Waning.dwindles_late (h : Waning deadline now due starts es c) (hs : c.writer.synchronous = false)
    (hp : c.writer.phase = .turning) (hlate : ∀ y ∈ es, deadline ≤ y.now) (hd : c.ledger.Describes c.writer)
    (hrun : c.run μ es = some c') :
    Dwindles μ c.writer.backlog.size es c ∧
      ∀ xs ys c₁, es = xs ++ ys → c.run μ xs = some c₁ →
        ∀ now, deadline ≤ now → ∀ limit, c₁.writer.next μ now ≠ .wait limit := by
  obtain ⟨hpaced, hon⟩ := h.timed hs
  have hlast? : c.writer.phase.last? = none := by rw [hp]; rfl
  have hwane : Waning deadline (max now deadline) due starts es c := by
    refine ⟨h.toStopped, h.limit, fun _ => ⟨hpaced.late hlate, ?_, fun hl => ?_⟩⟩
    · exact Nat.le_trans hon.due (Nat.add_le_add_right (Nat.le_max_left _ _) _)
    · rw [hlast?] at hl
      cases hl
  have hsprints : c.writer.Sprints deadline := by
    unfold Writer.Sprints
    rw [hp]
    trivial
  refine ⟨⟨?_, ?_⟩, ?_⟩
  · have hle := (hwane.bounded ht hrun).1
    rw [Writer.sendsLeft_of_turning hp, hs, rounds_of_le (Nat.le_max_right _ _)] at hle
    simpa using hle
  · rintro xs y ys c₁ c₂ rfl h₁ h₂ hsent hl
    obtain ⟨_, _, _, hwane₁⟩ := h.run ht h₁
    have hsprints₁ := h.run_sprints ht hs hlate hsprints h₁
    have h₃ : c₂.run μ ys = some c' := run_next (run_rest hrun h₁) h₂
    refine hwane₁.fruitless_last ht (run_describes h₁ hd) (Or.inr fun batch last hp₁ => ?_) h₂ h₃ hsent hl
    unfold Writer.Sprints at hsprints₁
    rw [hp₁] at hsprints₁
    exact hsprints₁
  · rintro xs ys c₁ rfl h₁ now' hnow
    exact (h.run_sprints ht hs hlate hsprints h₁).next_ne_wait hnow

section
variable {s : Settings} {limit : Nat} {d : Diagnostics} {before after : List Moment} {c₀ : Course}

/-- A writer that is told to stop comes to its end, whatever becomes of its batches. -/
theorem stop_ends (h : Shutdown μ (new s limit d) before x after c₀ c)
    (hcalm : ∀ y ∈ before ++ after, ∀ p, y.event ≠ .checked (.error p))
    (hpaced : s.synchronous = false → Paced x.now x.now after) :
    after.countP (·.event.isStep) ≤ 5 * (c₀.writer.pending + c₀.writer.batchDelay + 1) + 10 ∧
    ((s.synchronous = false → (before ++ after).countP (·.event.isStart) = 1) →
      c.writer.IsOver ∨ ∃ t, c.writer.GoesOn μ t) ∧
    (c.writer.IsOver → ClosesOnce μ (before ++ x :: after) (new s limit d)) ∧
    (∀ now wall, c.step μ ⟨now, wall, .stop⟩ = some c) ∧
    (s.synchronous = true → Dwindles μ c₀.writer.backlog.size (x :: after) c₀) ∧
    (s.synchronous = false → ∀ xs ys c₁, after = xs ++ ys → c₀.run μ (x :: xs) = some c₁ →
      c₁.writer.phase = .turning → (∀ y ∈ ys, x.now + Duration.ofMillis c₀.writer.batchDelay ≤ y.now) →
      Dwindles μ c₁.writer.backlog.size ys c₁ ∧
      ∀ us vs c₂, ys = us ++ vs → c₁.run μ us = some c₂ →
        ∀ now, x.now + Duration.ofMillis c₀.writer.batchDelay ≤ now →
          ∀ limit, c₂.writer.next μ now ≠ .wait limit) := by
  obtain ⟨c₁, h₁, h₂, hs, hw, -, hi, -⟩ := h.stopped ht hcalm
  have hsync₀ := h.synchronous.1
  have hd₁ := run_describes (run_snoc h.past h₁) (new_describes s limit d)
  have hsync₁ : c₁.writer.synchronous = s.synchronous := (run_make (run_snoc h.past h₁)).synchronous
  obtain ⟨r, hr, hw', -⟩ := step_respond h₁
  rw [h.stop] at hr
  have hpending : c₁.writer.pending ≤ c₀.writer.pending := by
    rw [hw']
    exact Writer.respond_pending_le rfl hr
  have hwane : Waning (x.now + Duration.ofMillis c₀.writer.batchDelay) x.now x.now
      (before.countP (·.event.isStart)) after c₁ := by
    refine ⟨hs, by rw [hw]; exact Writer.stop_deadline h.running, fun hasync => ?_⟩
    refine ⟨hpaced (hsync₁ ▸ hasync), Nat.le_add_right _ _, fun hl => ?_⟩
    rw [hw, Writer.stop_phase (hsync₀.trans (hsync₁ ▸ hasync))] at hl
    have hrunning := h.running
    rw [hi.stopped_of_last hl] at hrunning
    cases hrunning
  refine ⟨?_, h.over_or_goes_on ht hcalm, h.closes_once ht hcalm, fun now wall => ?_, fun hsync => ?_,
    fun hasync => ?_⟩
  · have hsteps := (hwane.bounded ht h₂).2
    have hle := Writer.stepsLeft_le (before.countP (·.event.isStart))
      (c₁.writer.sendsLeft (x.now + Duration.ofMillis c₀.writer.batchDelay) x.now x.now) c₁.writer
    have hsends := c₁.writer.sendsLeft_le (x.now + Duration.ofMillis c₀.writer.batchDelay) x.now x.now
    have hspare : c₁.writer.spare (x.now + Duration.ofMillis c₀.writer.batchDelay) x.now x.now ≤
        c₀.writer.batchDelay + 1 := by
      unfold Writer.spare
      rw [rounds_add_ofMillis]
      repeat' split
      all_goals omega
    omega
  · exact step_stop (run_stopped ht (show Stopped _ (after ++ []) c₁ by rwa [List.append_nil]) h₂).stopped rfl
  · have hheld : c₀.writer.held = [] := by
      simp only [Writer.respond, h.running, Bool.not_false, Bool.and_true] at hr
      split at hr
      · cases hr
      · rename_i he
        exact Writer.held_of_isBare (Writer.isBare_of_not_isEngaged he (hsync₀.trans hsync))
    have hsize : c₀.writer.pending = c₀.writer.backlog.size := by rw [Writer.pending, hheld]; exact Nat.zero_add _
    have hdwindles := hwane.dwindles_of_synchronous ht (hsync₁.trans hsync) hd₁ h₂
    exact hdwindles.cons h₁ (by rw [h.stop]; rfl) (hsize ▸ hpending)
  · rintro xs ys c₂ rfl hrun hp hlate
    have hrun := run_next hrun h₁
    obtain ⟨_, _, _, hwane'⟩ := hwane.run ht hrun
    have hsync₂ : c₂.writer.synchronous = false := (run_make hrun).synchronous.trans (hsync₁.trans hasync)
    exact hwane'.dwindles_late ht hsync₂ hp hlate (run_describes hrun hd₁) (run_rest h₂ hrun)

end

end

def waiting : List Moment :=
  [.start, .checked (.ok (.ok ())), .go, .add ⟨⟨0⟩, "a"⟩, .add ⟨⟨0⟩, "b"⟩, .add ⟨⟨0⟩, "c"⟩].map (⟨0, ⟨0⟩, ·⟩)

def inTime : List Moment :=
  [⟨0, ⟨0⟩, .go⟩, ⟨0, ⟨0⟩, .go⟩, ⟨1000000, ⟨0⟩, .sent (.ok (.error { message := "throttled" }))⟩,
    ⟨1000000, ⟨0⟩, .go⟩, ⟨1000000, ⟨0⟩, .go⟩, ⟨1000000, ⟨0⟩, .go⟩, ⟨3000000, ⟨0⟩, .sent (.ok (.ok [0, 1]))⟩]

def outOfTime : List Moment :=
  [⟨3000000, ⟨0⟩, .go⟩, ⟨3000000, ⟨0⟩, .go⟩, ⟨3000000, ⟨0⟩, .go⟩, ⟨4000000, ⟨0⟩, .sent (.ok (.ok [0]))⟩,
    ⟨4000000, ⟨0⟩, .go⟩, ⟨4000000, ⟨0⟩, .go⟩, ⟨4000000, ⟨0⟩, .go⟩, ⟨4000000, ⟨0⟩, .go⟩,
    ⟨5000000, ⟨0⟩, .sent (.error ⟨none⟩)⟩, ⟨5000000, ⟨0⟩, .closed (.ok ())⟩]

theorem stop_ends_throttled :
    ∃ c₀ c₁ c, Shutdown pairs (new { target := .sns {}, batchDelay := 2 } 8 {}) waiting ⟨0, ⟨0⟩, .stop⟩
        (inTime ++ outOfTime) c₀ c ∧ c₀.run pairs (⟨0, ⟨0⟩, .stop⟩ :: inTime) = some c₁ ∧
      Paced 0 0 (inTime ++ outOfTime) ∧ c₁.writer.phase = .turning ∧ c₁.writer.backlog.size = 3 ∧
      outOfTime.countP (·.event.isSent) = 2 ∧ Dwindles pairs c₁.writer.backlog.size outOfTime c₁ ∧
      c.writer.IsOver ∧ c.ledger.delivered.map (·.message.text) = ["b"] ∧ c.step pairs ⟨6000000, ⟨0⟩, .stop⟩ = some c ∧
      (inTime ++ outOfTime).countP (·.event.isStep) ≤ 5 * (c₀.writer.pending + c₀.writer.batchDelay + 1) + 10 ∧
      ClosesOnce pairs (waiting ++ ⟨0, ⟨0⟩, .stop⟩ :: (inTime ++ outOfTime))
        (new { target := .sns {}, batchDelay := 2 } 8 {}) := by
  have ht : pairs.Total := ⟨fun m => ⟨m.size, rfl⟩, fun _ _ => ⟨_, rfl⟩⟩
  obtain ⟨c₀, c₁, c, h, h₁, hdelay, hp, hsize, hover, hdelivered⟩ : ∃ c₀ c₁ c,
      Shutdown pairs (new { target := .sns {}, batchDelay := 2 } 8 {}) waiting ⟨0, ⟨0⟩, .stop⟩
        (inTime ++ outOfTime) c₀ c ∧ c₀.run pairs (⟨0, ⟨0⟩, .stop⟩ :: inTime) = some c₁ ∧ c₀.writer.batchDelay = 2 ∧
      c₁.writer.phase = .turning ∧ c₁.writer.backlog.size = 3 ∧ c.writer.IsOver ∧
      c.ledger.delivered.map (·.message.text) = ["b"] :=
    ⟨_, _, _, ⟨rfl, rfl, rfl, rfl, by decide, by decide⟩, rfl, rfl, rfl, rfl, ⟨rfl, Or.inl rfl⟩, rfl⟩
  have hpaced : Paced 0 0 (inTime ++ outOfTime) := by decide
  obtain ⟨hsteps, -, honce, hagain, -, hlate⟩ :=
    stop_ends ht h (by simp [waiting, inTime, outOfTime]) (fun _ => hpaced)
  obtain ⟨hdwindles, -⟩ := hlate rfl inTime outOfTime c₁ rfl h₁ hp (by rw [hdelay]; decide)
  exact ⟨c₀, c₁, c, h, h₁, hpaced, hp, hsize, rfl, hdwindles, hover, hdelivered, hagain _ _, hsteps, honce hover⟩

end Course

end LogRelay
