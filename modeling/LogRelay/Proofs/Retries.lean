import Mathlib.Algebra.Group.Nat.Defs
import LogRelay.Proofs.Leading
import LogRelay.Simulation.Trial

/-!
# When tries are made

An operation that asks for another try gets it after a pause, which doubles each time if it is to and is cut
at the deadline; a pause takes as long as it should, or longer. A try that asks for another one at the deadline
or after it is the last. As long as the first delay is not nothing, the clock sees to it that there is a last
try, and its outcome is the outcome of them all.
-/

namespace LogRelay.Patience

open Simulation (Trial Trials)

variable {ε α : Type}

structure Stopwatch where
  now : Instant
  begun : List Instant := []

/-- A ground on which every try is settled in advance, and by how much the pause before it is too long. -/
def Stopwatch.ground (trials : Nat → Trial ε α) (lag : Nat → Duration) : Ground (Trials.api ε α) Stopwatch where
  now t := t.now
  elapse d t := { t with now := t.now + d + lag t.begun.length }
  note _ t := t
  consult _ := none
  remember _ t := t
  draw t := (0, t)
  call _ t :=
    let trial := trials t.begun.length
    (.ok trial.outcome, { now := t.now + trial.latency, begun := t.begun ++ [t.now] })

section
variable (p : Patience) (trials : Nat → Trial ε α) (lag : Nat → Duration) (start : Instant)

def deadline : Instant := start + p.timeout

def delay (k : Nat) : Duration := if p.exponential then p.initialDelay * 2 ^ k else p.initialDelay

/-- When the try `k` begins, if there are so many. -/
def begins : Nat → Instant
  | 0 => start
  | k + 1 => min (begins k + (trials k).latency + p.delay k) (p.deadline start) + lag (k + 1)

def ends (k : Nat) : Instant := p.begins trials lag start k + (trials k).latency

def GoesOn (k : Nat) : Prop := (trials k).outcome = .ok none ∧ p.ends trials lag start k < p.deadline start

def before (k : Nat) : Stopwatch :=
  { now := p.begins trials lag start k, begun := (List.range k).map (p.begins trials lag start) }

/-- Where the tries come to their end with the try `k`. -/
def outcomeAt (k : Nat) : Except Panic (Try ε α) × Stopwatch :=
  (.ok (trials k).outcome,
    { now := p.ends trials lag start k, begun := (List.range (k + 1)).map (p.begins trials lag start) })

end

variable {p : Patience} {trials : Nat → Trial ε α} {lag : Nat → Duration} {start : Instant} {k : Nat}

theorem delay_succ (k : Nat) : p.delay (k + 1) = if p.exponential then p.delay k * 2 else p.delay k := by
  unfold delay
  split
  · rw [pow_succ, Nat.mul_assoc]
  · rfl

theorem begins_le_deadline (h : lag k = 0) : p.begins trials lag start k ≤ p.deadline start := by
  cases k with
  | zero => exact Nat.le_add_right _ _
  | succ k =>
    rw [begins, h]
    exact Nat.min_le_right _ _

theorem le_begins (k : Nat) : start ≤ p.begins trials lag start k := by
  induction k with
  | zero => exact Nat.le_refl _
  | succ k ih =>
    have hend : p.begins trials lag start k ≤ p.begins trials lag start k + (trials k).latency + p.delay k :=
      Nat.le_trans (Nat.le_add_right _ _) (Nat.le_add_right _ _)
    exact Nat.le_trans (Nat.le_min.mpr ⟨Nat.le_trans ih hend, Nat.le_add_right _ _⟩) (Nat.le_add_right _ _)

theorem delay_pos (h : 0 < p.initialDelay) (k : Nat) : 0 < p.delay k := by
  unfold delay
  split
  · exact Nat.mul_pos h (Nat.two_pow_pos k)
  · exact h

theorem GoesOn.begins_lt_deadline (hk : p.GoesOn trials lag start k) :
    p.begins trials lag start k < p.deadline start := Nat.lt_of_le_of_lt (Nat.le_add_right _ _) hk.2

theorem GoesOn.begins_lt (h : 0 < p.initialDelay) (hk : p.GoesOn trials lag start k) :
    p.begins trials lag start k < p.begins trials lag start (k + 1) := by
  have hend : p.begins trials lag start k ≤ p.ends trials lag start k := Nat.le_add_right _ _
  have hlt : p.ends trials lag start k < p.ends trials lag start k + p.delay k :=
    Nat.lt_add_of_pos_right (delay_pos h k)
  have hmin : p.begins trials lag start k < min (p.ends trials lag start k + p.delay k) (p.deadline start) :=
    Nat.lt_min.mpr ⟨Nat.lt_of_le_of_lt hend hlt, hk.begins_lt_deadline⟩
  exact Nat.lt_of_lt_of_le hmin (Nat.le_add_right _ _)

/-! ## The run -/

theorem run_operation (k : Nat) : (Trials.operation : Plan (Trials.api ε α) _).run (Stopwatch.ground trials lag)
    (p.before trials lag start k) = p.outcomeAt trials lag start k := by
  simp [Trials.operation, Plan.request, Plan.run, Stopwatch.ground, before, outcomeAt, ends, List.range_succ]

theorem run_attempts_last (hk : ¬ p.GoesOn trials lag start k) (n : Nat) :
    (p.attempts Trials.operation (p.deadline start) (n + 1) (p.delay k)).run (Stopwatch.ground trials lag)
      (p.before trials lag start k) = p.outcomeAt trials lag start k := by
  rw [attempts, Plan.run_bind, run_operation]
  unfold outcomeAt
  rcases ho : (trials k).outcome with e | _ | a
  · rfl
  · have hlate : p.deadline start ≤ p.ends trials lag start k := Nat.le_of_not_lt fun hlt => hk ⟨ho, hlt⟩
    dsimp only
    rw [Plan.run_bind, Plan.run_now]
    dsimp only [Stopwatch.ground]
    rw [if_pos hlate]
    rfl
  · rfl

theorem run_attempts_next (hk : p.GoesOn trials lag start k) (n : Nat) :
    (p.attempts Trials.operation (p.deadline start) (n + 1) (p.delay k)).run (Stopwatch.ground trials lag)
        (p.before trials lag start k) =
      (p.attempts Trials.operation (p.deadline start) n (p.delay (k + 1))).run (Stopwatch.ground trials lag)
        (p.before trials lag start (k + 1)) := by
  obtain ⟨ho, hlt⟩ := hk
  -- the pause is cut at the deadline, and so is the time at which the next try is to begin
  have hnext : p.ends trials lag start k + min (p.delay k) (p.deadline start - p.ends trials lag start k) +
      lag (k + 1) = p.begins trials lag start (k + 1) := by
    rw [← Nat.add_min_add_left, Nat.add_sub_of_le (Nat.le_of_lt hlt)]
    rfl
  rw [attempts, Plan.run_bind, run_operation, delay_succ]
  unfold outcomeAt before
  rw [ho, ← hnext]
  dsimp only
  rw [Plan.run_bind, Plan.run_now]
  dsimp only [Stopwatch.ground]
  rw [if_neg (Nat.not_le.mpr hlt), Plan.run_bind, Plan.run_pause]
  simp only [List.length_map, List.length_range]

/-- There is a last try, and there is room for it if there is room for as many tries as there are ticks
left, and one. -/
theorem exists_last (h : 0 < p.initialDelay) {n : Nat} (hn : p.deadline start - p.begins trials lag start k < n) :
    ∃ last, k ≤ last ∧ last < k + n ∧ (∀ j, k ≤ j → j < last → p.GoesOn trials lag start j) ∧
      ¬ p.GoesOn trials lag start last ∧
      (p.attempts Trials.operation (p.deadline start) n (p.delay k)).run (Stopwatch.ground trials lag)
        (p.before trials lag start k) = p.outcomeAt trials lag start last := by
  induction n generalizing k with
  | zero => exact absurd hn (Nat.not_lt_zero _)
  | succ n ih =>
    by_cases hk : p.GoesOn trials lag start k
    · have hlt := hk.begins_lt h
      have hless : p.deadline start - p.begins trials lag start (k + 1) <
          p.deadline start - p.begins trials lag start k := Nat.sub_lt_sub_left hk.begins_lt_deadline hlt
      obtain ⟨last, hkl, hln, hgo, hlast, hrun⟩ := ih (Nat.lt_of_lt_of_le hless (Nat.le_of_lt_succ hn))
      refine ⟨last, by omega, by omega, fun j hkj hj => ?_, hlast, ?_⟩
      · rcases Nat.eq_or_lt_of_le hkj with rfl | hkj
        · exact hk
        · exact hgo j hkj hj
      · rw [run_attempts_next hk, hrun]
    · exact ⟨k, Nat.le_refl k, by omega, fun j hkj hj => absurd hkj (Nat.not_le.mpr hj), hk, run_attempts_last hk n⟩

/-- From the start there are as many ticks left as the timeout has. -/
theorem exists_last_try (trials : Nat → Trial ε α) (lag : Nat → Duration) (start : Instant)
    (h : 0 < p.initialDelay) {n : Nat} (hn : p.timeout < n) :
    ∃ last < n, (∀ j < last, p.GoesOn trials lag start j) ∧ ¬ p.GoesOn trials lag start last ∧
      (p.attempts Trials.operation (p.deadline start) n p.initialDelay).run (Stopwatch.ground trials lag)
        { now := start } = p.outcomeAt trials lag start last := by
  have hd : p.delay 0 = p.initialDelay := by simp [delay]
  have hticks : p.deadline start - p.begins trials lag start 0 < n := by
    rw [begins, deadline, Nat.add_sub_cancel_left]
    exact hn
  obtain ⟨last, -, hlt, hgo, hlast, hrun⟩ := exists_last h hticks
  rw [Nat.zero_add] at hlt
  refine ⟨last, hlt, fun j hj => hgo j (Nat.zero_le j) hj, hlast, ?_⟩
  rw [← hrun, hd]
  rfl

theorem begins_of_swift (he : p.exponential = true) (hlag : ∀ j, lag j = 0)
    (hswift : ∀ j, (trials j).latency = 0) (k : Nat) :
    p.begins trials lag start k = start + min ((2 ^ k - 1) * p.initialDelay) p.timeout := by
  induction k with
  | zero => simp [begins]
  | succ k ih =>
    have hd : p.delay k = p.initialDelay * 2 ^ k := by simp [delay, he]
    have hsum : (2 ^ (k + 1) - 1) * p.initialDelay = (2 ^ k - 1) * p.initialDelay + p.initialDelay * 2 ^ k := by
      have hpos := Nat.two_pow_pos k
      rw [pow_succ, show 2 ^ k * 2 - 1 = (2 ^ k - 1) + 2 ^ k by omega, Nat.add_mul, Nat.mul_comm (2 ^ k)]
    rw [begins, ih, hlag, hswift, hd, hsum, deadline, Nat.add_zero, Nat.add_zero, Nat.add_assoc,
      Nat.add_min_add_left]
    have hcut : ∀ x y t : Nat, min (min x t + y) t = min (x + y) t := by omega
    rw [hcut]

theorem unlessTransient_eq_none_iff {x : Except Fault α} :
    unlessTransient x = .ok none ↔ ∃ f, x = .error f ∧ f.isTransient = true := by
  cases x with
  | ok a => simp [unlessTransient]
  | error f =>
    unfold unlessTransient
    split <;> rename_i hf <;> simp [hf]

section
variable {last : Nat} (hgo : ∀ j < last, p.GoesOn trials lag start j) (hlast : ¬ p.GoesOn trials lag start last)
include hgo hlast

theorem last_unique (hk : ∀ j < k, p.GoesOn trials lag start j) (hk' : ¬ p.GoesOn trials lag start k) : k = last := by
  rcases Nat.lt_trichotomy k last with hlt | heq | hgt
  · exact absurd (hgo k hlt) hk'
  · exact heq
  · exact absurd (hk last hgt) hlast

theorem run_attempts_of_last (h : 0 < p.initialDelay) {n : Nat} (hn : p.timeout < n) :
    (p.attempts Trials.operation (p.deadline start) n p.initialDelay).run (Stopwatch.ground trials lag)
      { now := start } = p.outcomeAt trials lag start last := by
  obtain ⟨k, -, hgo', hk, hrun⟩ := exists_last_try trials lag start h hn
  rw [hrun, last_unique hgo hlast hgo' hk]

theorem run_invoke_of_last (h : 0 < p.initialDelay) (hf : p.Fits start) :
    (p.invoke Trials.operation).run (Stopwatch.ground trials lag) { now := start } =
      p.outcomeAt trials lag start last := by
  rw [Plan.run_invoke hf]
  exact run_attempts_of_last hgo hlast h (Nat.lt_add_of_pos_right (by decide))

/-- The outcome asks for another try if and only if time was up when a try asked for it. -/
theorem outcome_eq_none_iff : (trials last).outcome = .ok none ↔
    ∃ k ≤ last, (∀ j ≤ k, (trials j).outcome = .ok none) ∧ p.deadline start ≤ p.ends trials lag start k := by
  constructor
  · intro ho
    have hlate : p.deadline start ≤ p.ends trials lag start last := Nat.le_of_not_lt fun hlt => hlast ⟨ho, hlt⟩
    refine ⟨last, Nat.le_refl last, fun j hj => ?_, hlate⟩
    rcases Nat.eq_or_lt_of_le hj with rfl | hj
    · exact ho
    · exact (hgo j hj).1
  · rintro ⟨k, hk, hall, hlate⟩
    rcases Nat.eq_or_lt_of_le hk with rfl | hk
    · exact hall k (Nat.le_refl k)
    · exact absurd (hgo k hk).2 (Nat.not_lt.mpr hlate)

end

/-- However the tries go, however long they take and however much too long the pauses are, there is a last try:
the first that does not ask for another, or asks for it when time is up. Those before it end in time, each
begins as long after the one before as the delay says or at the deadline, or later by what the pause took too
long, and the outcome of the last is the outcome of them all. It is not for lack of room that it is the last.
Where all ask for another at once and the pauses are as they should be, the times are those of the delays summed
up. Tries that ask for another in time, as transient faults make them do, leave no trace in the outcome. -/
theorem tries_on_schedule (h : 0 < p.initialDelay) (hf : p.Fits start) (trials : Nat → Trial ε α)
    (lag : Nat → Duration) :
    ∃ last, last ≤ p.timeout ∧ (∀ k < last, p.GoesOn trials lag start k) ∧ ¬ p.GoesOn trials lag start last ∧
      (p.invoke Trials.operation).run (Stopwatch.ground trials lag) { now := start } =
        p.outcomeAt trials lag start last ∧
      (∀ n > p.timeout, (p.attempts Trials.operation (p.deadline start) n p.initialDelay).run
        (Stopwatch.ground trials lag) { now := start } = p.outcomeAt trials lag start last) ∧
      (∀ k, start ≤ p.begins trials lag start k ∧
        (lag k = 0 → p.begins trials lag start k ≤ p.deadline start)) ∧
      ((trials last).outcome = .ok none ↔ ∃ k ≤ last, (∀ j ≤ k, (trials j).outcome = .ok none) ∧
        p.deadline start ≤ p.ends trials lag start k) ∧
      (p.exponential = true → (∀ k, lag k = 0) → (∀ k, (trials k).latency = 0) →
        (∀ k, (trials k).outcome = .ok none) →
        (∀ k, p.begins trials lag start k = start + min ((2 ^ k - 1) * p.initialDelay) p.timeout) ∧
        p.ends trials lag start last = p.deadline start) ∧
      (∀ x : Except Fault α, unlessTransient x = .ok none ↔ ∃ f, x = .error f ∧ f.isTransient = true) ∧
      ∀ n, (∀ k < n, p.GoesOn trials lag start k) → (trials n).outcome ≠ .ok none →
        ((p.invoke Trials.operation).run (Stopwatch.ground trials lag) { now := start }).1 =
          ((p.invoke Trials.operation).run (Stopwatch.ground (fun k => trials (n + k)) lag) { now := start }).1 := by
  obtain ⟨last, hlt, hgo, hlast, -⟩ := exists_last_try trials lag start h (Nat.lt_succ_self p.timeout)
  have hrun := run_invoke_of_last hgo hlast h hf
  refine ⟨last, Nat.le_of_lt_succ hlt, hgo, hlast, hrun, fun n hn => run_attempts_of_last hgo hlast h hn,
    fun k => ⟨le_begins k, begins_le_deadline⟩, outcome_eq_none_iff hgo hlast, fun he hlag hswift hask => ?_,
    fun x => unlessTransient_eq_none_iff, fun n hn hne => ?_⟩
  · refine ⟨begins_of_swift he hlag hswift, Nat.le_antisymm ?_ ?_⟩
    · rw [ends, hswift]
      exact begins_le_deadline (hlag last)
    · exact Nat.le_of_not_lt fun hlt => hlast ⟨hask last, hlt⟩
  · have hn' : ¬ p.GoesOn trials lag start n := fun hg => hne hg.1
    have hfirst : ¬ p.GoesOn (fun k => trials (n + k)) lag start 0 := fun hg => hne hg.1
    rw [run_invoke_of_last hn hn' h hf, run_invoke_of_last (fun j hj => absurd hj (Nat.not_lt_zero j)) hfirst h hf]
    rfl

def brisk : Patience := { initialDelay := 5, timeout := 40, exponential := true }

def third (k : Nat) : Trial Fault Nat := if k < 2 then ⟨3, .ok none⟩ else ⟨3, .ok (some 7)⟩

def drowsy (k : Nat) : Duration := if k = 1 then 2 else 0

theorem tries_on_schedule_third :
    0 < brisk.initialDelay ∧ brisk.Fits 100 ∧
    (∃ last, (∀ k < last, brisk.GoesOn third drowsy 100 k) ∧
      (brisk.invoke Trials.operation).run (Stopwatch.ground third drowsy) { now := 100 } =
        brisk.outcomeAt third drowsy 100 last ∧
      brisk.outcomeAt third drowsy 100 last =
        (.ok (.ok (some 7)), { now := 126, begun := [100, 110, 123] })) ∧
    ∃ last, brisk.ends (fun _ => (⟨0, .ok none⟩ : Trial Fault Nat)) (fun _ => 0) 100 last = 140 ∧
      brisk.outcomeAt (fun _ => (⟨0, .ok none⟩ : Trial Fault Nat)) (fun _ => 0) 100 last =
        (.ok (.ok none), { now := 140, begun := [100, 105, 115, 135, 140] }) := by
  have h : 0 < brisk.initialDelay := by decide
  have hf : brisk.Fits 100 := by decide
  obtain ⟨last, -, hgo, -, hrun, -⟩ := tries_on_schedule h hf third drowsy
  obtain ⟨end', -, -, -, hrun', -, -, -, hswift, -⟩ :=
    tries_on_schedule h hf (fun _ => (⟨0, .ok none⟩ : Trial Fault Nat)) fun _ => 0
  exact ⟨h, hf, ⟨last, hgo, hrun, hrun.symm.trans rfl⟩, end',
    (hswift rfl (fun _ => rfl) (fun _ => rfl) fun _ => rfl).2, hrun'.symm.trans rfl⟩

def endless : Patience := { initialDelay := 1, timeout := 2 ^ 64 * 1000000000 - 1, exponential := false }

def hasty : Patience := { initialDelay := 10, timeout := 20, exponential := true }

def second (k : Nat) : Trial Fault Nat := if k = 0 then ⟨1, .ok none⟩ else ⟨1, .ok (some 7)⟩

/-- With a timeout beyond what the clock shows there is no try at all, even of what would be ready at once; and
after a pause that is too long a try is made that is not on time, here not even before the deadline. -/
theorem no_try_or_late :
    (endless.invoke Trials.operation).run (Stopwatch.ground (fun _ => (⟨0, .ok (some 7)⟩ : Trial Fault Nat)) fun _ => 0)
        { now := 0 } = (.error .instantTooLate, { now := 0, begun := [] }) ∧
    (hasty.invoke Trials.operation).run (Stopwatch.ground second fun _ => 94) { now := 0 } =
        (.ok (.ok (some 7)), { now := 106, begun := [0, 105] }) ∧
      min (1 + hasty.delay 0) (hasty.deadline 0) = 11 := by
  refine ⟨Plan.run_invoke_of_not_fits (by decide), ?_, rfl⟩
  rw [Plan.run_invoke (by decide)]
  rfl

end LogRelay.Patience
