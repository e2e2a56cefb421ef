import LogRelay.Writer.Batch
import Mathlib.Algebra.GroupWithZero.Nat

/-!
# Filling a batch

What is taken and what is left are the messages there were, in order, and the bytes counted are the
sizes of what was taken. A batch that was within the limits is still within them.
-/

namespace LogRelay.Measure

/-- Neither sizing a message nor checking the limits ever panics. -/
structure Total (μ : Measure) : Prop where
  size : ∀ m, ∃ n, μ.effectiveSize m = .ok n
  limits : ∀ bytes count, ∃ b, μ.withinLimits bytes count = .ok b

def weight (μ : Measure) (m : Message) : Nat :=
  match μ.effectiveSize m with
  | .ok n => n
  | .error _ => 0

def totalWeight (μ : Measure) (ms : List Message) : Nat := (ms.map μ.weight).sum

def Allows (μ : Measure) (ms : List Message) : Prop :=
  μ.withinLimits (μ.totalWeight ms) ms.length = .ok true

variable {μ : Measure}

theorem weight_of_ok {m : Message} {n : Nat} (h : μ.effectiveSize m = .ok n) : μ.weight m = n := by
  simp [weight, h]

theorem totalWeight_cons (m : Message) (ms : List Message) :
    μ.totalWeight (m :: ms) = μ.weight m + μ.totalWeight ms := by
  simp [totalWeight]

theorem totalWeight_append (ms ns : List Message) :
    μ.totalWeight (ms ++ ns) = μ.totalWeight ms + μ.totalWeight ns := by
  simp [totalWeight]

theorem totalWeight_singleton (m : Message) : μ.totalWeight [m] = μ.weight m := by simp [totalWeight]

theorem fill_ok {bytes count : Nat} {ms : List Message} {f : Filling} (h : μ.fill bytes count ms = .ok f) :
    ms = f.taken ++ f.left ∧ f.bytes = bytes + μ.totalWeight f.taken ∧
      (μ.withinLimits bytes count = .ok true →
        μ.withinLimits f.bytes (count + f.taken.length) = .ok true) := by
  induction ms generalizing bytes count f with
  | nil =>
    simp only [fill, Except.ok.injEq] at h
    subst h
    exact ⟨rfl, by simp [totalWeight], fun hw => hw⟩
  | cons m rest ih =>
    unfold fill at h
    split at h
    · cases h
    · rename_i size hs
      split at h
      · cases h
      · simp only [Except.ok.injEq] at h
        subst h
        exact ⟨rfl, by simp [totalWeight], fun hw => hw⟩
      · rename_i hw
        split at h
        · cases h
        · rename_i g hg
          simp only [Except.ok.injEq] at h
          subst h
          obtain ⟨hl, hb, hk⟩ := ih hg
          refine ⟨by rw [List.cons_append, ← hl], ?_, fun _ => ?_⟩
          · rw [totalWeight_cons, weight_of_ok hs, ← Nat.add_assoc]; exact hb
          · rw [List.length_cons, Nat.add_comm g.taken.length, ← Nat.add_assoc]; exact hk hw

/-- What stops a batch that is not full is the end of the messages. -/
theorem fill_left {bytes count : Nat} {ms : List Message} {f : Filling} (h : μ.fill bytes count ms = .ok f)
    (hf : f.full = false) : f.left = [] := by
  induction ms generalizing bytes count f with
  | nil =>
    cases h
    rfl
  | cons m rest ih =>
    unfold fill at h
    split at h
    · cases h
    · split at h
      · cases h
      · cases h
        cases hf
      · split at h
        · cases h
        · rename_i g hg
          cases h
          have hl : g.left = [] := ih hg hf
          exact hl

/-- Each message that is taken was within the limits on top of those before it. -/
theorem fill_grows {bytes count : Nat} {ms : List Message} {f : Filling} (h : μ.fill bytes count ms = .ok f)
    {n : Nat} (hn : n < f.taken.length) :
    μ.withinLimits (bytes + μ.totalWeight (f.taken.take (n + 1))) (count + (n + 1)) = .ok true := by
  induction ms generalizing bytes count f n with
  | nil =>
    cases h
    exact absurd hn (Nat.not_lt_zero n)
  | cons m rest ih =>
    unfold fill at h
    split at h
    · cases h
    · rename_i size hs
      split at h
      · cases h
      · cases h
        exact absurd hn (Nat.not_lt_zero n)
      · rename_i hw
        split at h
        · cases h
        · rename_i g hg
          cases h
          rw [List.take_succ_cons, totalWeight_cons, weight_of_ok hs, ← Nat.add_assoc]
          cases n with
          | zero => exact hw
          | succ n =>
            have hg := ih hg (Nat.lt_of_succ_lt_succ hn)
            rwa [show count + 1 + (n + 1) = count + (n + 1 + 1) by omega] at hg

/-- What stops a batch that is full is a message that would be beyond the limits. -/
theorem fill_stops {bytes count : Nat} {ms : List Message} {f : Filling} (h : μ.fill bytes count ms = .ok f)
    (hf : f.full = true) :
    ∃ m rest, f.left = m :: rest ∧
      μ.withinLimits (f.bytes + μ.weight m) (count + (f.taken.length + 1)) = .ok false := by
  induction ms generalizing bytes count f with
  | nil =>
    cases h
    cases hf
  | cons m rest ih =>
    unfold fill at h
    split at h
    · cases h
    · rename_i size hs
      split at h
      · cases h
      · rename_i hw
        cases h
        exact ⟨m, rest, rfl, by rw [weight_of_ok hs]; exact hw⟩
      · split at h
        · cases h
        · rename_i g hg
          cases h
          obtain ⟨m', rest', hl, hw⟩ := ih hg hf
          exact ⟨m', rest', hl, by rwa [Nat.add_right_comm count] at hw⟩

/-- A panic loses messages from the front, and nothing that can be sized and checked panics. -/
theorem fill_error {bytes count : Nat} {ms left : List Message} {p : Panic}
    (h : μ.fill bytes count ms = .error (p, left)) : (∃ gone, ms = gone ++ left) ∧ ¬ μ.Total := by
  induction ms generalizing bytes count with
  | nil => cases h
  | cons m rest ih =>
    unfold fill at h
    split at h
    · rename_i q hs
      cases h
      refine ⟨⟨[m], rfl⟩, fun ht => ?_⟩
      obtain ⟨n, hn⟩ := ht.size m
      rw [hs] at hn; cases hn
    · rename_i size hs
      split at h
      · rename_i q hw
        cases h
        refine ⟨⟨[m], rfl⟩, fun ht => ?_⟩
        obtain ⟨b, hb⟩ := ht.limits (bytes + size) (count + 1)
        rw [hw] at hb; cases hb
      · cases h
      · split at h
        · rename_i e he
          cases h
          obtain ⟨⟨gone, hg⟩, ht⟩ := ih he
          exact ⟨⟨m :: gone, by rw [hg, List.cons_append]⟩, ht⟩
        · cases h

end LogRelay.Measure
