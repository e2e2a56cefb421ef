import LogRelay.Proofs.Course

/-!
# Runs of a course

A run is taken apart at its events. What is shown of a run may depend on the events that are still
to come, and what limits the number of certain events is a bound that each of them lowers.
-/

namespace LogRelay

namespace Event

def isAdd : Event → Bool
  | .add _ => true
  | _ => false

def isStart : Event → Bool
  | .start => true
  | _ => false

def isSent : Event → Bool
  | .sent _ => true
  | _ => false

def isClosed : Event → Bool
  | .closed _ => true
  | _ => false

def isStep : Event → Bool
  | .go | .checked _ | .sent _ | .closed _ => true
  | _ => false

end Event

namespace Writer

variable {μ : Measure} {now : Instant} {w : Writer} {r : Writer × List Notice}

theorem respond_go (h : w.respond μ now .go = some r) : w.Move μ now r := by
  cases change_of_respond h with
  | call he _ _ => cases he
  | go hm => exact hm

theorem respond_checked {result : Except Panic (Except Failure Unit)}
    (h : w.respond μ now (.checked result) = some r) : w.phase = .checking ∧ r = w.checked result := by
  simp only [respond] at h
  split at h
  · rename_i hn
    exact ⟨next_makeAvailable hn, (Option.some.inj h).symm⟩
  · cases h

theorem respond_sent {result : Except Panic (Except Failure (List Nat))}
    (h : w.respond μ now (.sent result) = some r) :
    ∃ batch last, w.phase = .sending batch last ∧ r = w.sent batch last result := by
  simp only [respond] at h
  split at h
  · rename_i batch last hn
    exact ⟨batch, last, next_send hn, (Option.some.inj h).symm⟩
  · cases h

theorem respond_closed {result : Except Panic Unit} (h : w.respond μ now (.closed result) = some r) :
    w.phase = .closing ∧ r = w.closed result := by
  simp only [respond] at h
  split at h
  · rename_i hn
    exact ⟨next_shutdown hn, (Option.some.inj h).symm⟩
  · cases h

theorem stop_phase (hs : w.synchronous = false) : (w.stop now).1.phase = w.phase := by
  unfold stop
  split
  · rfl
  · rw [hs]
    rfl

/-- A writer with a thread of its own does what it does on that thread, not when it is called. -/
theorem call_phase (hs : w.synchronous = false) {e : Event} (hstep : e.isStep = false) (hstart : e.isStart = false)
    (hr : w.respond μ now e = some r) : r.1.phase = w.phase := by
  cases e with
  | add m =>
    simp only [respond] at hr
    split at hr
    · cases hr
    · cases hr
      rw [add_fst]
      split
      · simp [queue, hs]
      · rfl
  | stop =>
    simp only [respond] at hr
    split at hr
    · cases hr
    · cases hr
      exact stop_phase hs
  | setBatchDelay _ | setThreshold _ | setAction _ | setFailure _ =>
    cases hr
    rfl
  | start => cases hstart
  | go | checked _ | sent _ | closed _ => cases hstep

end Writer

namespace Course

variable {μ : Measure} {x : Moment} {es es' : List Moment} {c c' : Course}

theorem step_respond (h : c.step μ x = some c') :
    ∃ r, c.writer.respond μ x.now x.event = some r ∧ c'.writer = r.1 ∧
      c'.ledger = c.ledger.enter c.writer r.1 x.event := by
  obtain ⟨r, hr, rfl⟩ := Option.map_eq_some_iff.mp h
  exact ⟨r, hr, rfl, rfl⟩

theorem run_cons (h : c.run μ (x :: es) = some c') :
    ∃ c₁, c.step μ x = some c₁ ∧ c₁.run μ es = some c' := Option.bind_eq_some_iff.mp h

theorem run_next (h : c.run μ (x :: es) = some c') {c₁ : Course} (hx : c.step μ x = some c₁) :
    c₁.run μ es = some c' := by
  obtain ⟨c₂, h₁, h₂⟩ := run_cons h
  rw [hx, Option.some.injEq] at h₁
  rw [h₁]
  exact h₂

theorem run_rest (h : c.run μ (es ++ es') = some c') {c₁ : Course} (h₁ : c.run μ es = some c₁) :
    c₁.run μ es' = some c' := by
  induction es generalizing c with
  | nil =>
    rw [run, Option.some.injEq] at h₁
    rw [← h₁]
    exact h
  | cons x es ih =>
    obtain ⟨c₂, hx, h₂⟩ := run_cons h₁
    exact ih (run_next h hx) h₂

theorem run_trans (h : c.run μ es = some c') {c'' : Course} (h' : c'.run μ es' = some c'') :
    c.run μ (es ++ es') = some c'' := by
  induction es generalizing c with
  | nil =>
    rw [run, Option.some.injEq] at h
    rw [h]
    exact h'
  | cons x es ih =>
    obtain ⟨c₁, h₁, h₂⟩ := run_cons h
    exact Option.bind_eq_some_iff.mpr ⟨c₁, h₁, ih h₂⟩

theorem run_singleton (h : c.step μ x = some c') : c.run μ [x] = some c' := Option.bind_eq_some_iff.mpr ⟨c', h, rfl⟩

theorem run_snoc (h : c.run μ es = some c') {c'' : Course} (h' : c'.step μ x = some c'') :
    c.run μ (es ++ [x]) = some c'' :=
  run_trans h (run_singleton h')

theorem run_make (h : c.run μ es = some c') : c.writer.SameMake c'.writer := by
  refine run_induct (P := fun c' => c.writer.SameMake c'.writer) (fun x c₁ c₂ hx hm => ?_) h (.refl _)
  obtain ⟨r, hc, hw, -⟩ := step_eq_some hx
  rw [hw]
  exact hm.trans hc.make

/-- `P` holds of each event of a run and the course that it meets. -/
def Throughout (μ : Measure) (P : Course → Moment → Prop) : List Moment → Course → Prop
  | [], _ => True
  | x :: es, c => P c x ∧ ∀ c', c.step μ x = some c' → Throughout μ P es c'

instance instDecidableThroughout {P : Course → Moment → Prop} [∀ c x, Decidable (P c x)] :
    (es : List Moment) → (c : Course) → Decidable (Throughout μ P es c)
  | [], _ => isTrue trivial
  | x :: es, c =>
    match hc : c.step μ x with
    | none => decidable_of_iff (P c x) (by simp [Throughout, hc])
    | some c' =>
      have : Decidable (Throughout μ P es c') := instDecidableThroughout es c'
      decidable_of_iff (P c x ∧ Throughout μ P es c') (by simp [Throughout, hc])

theorem Throughout.append {P : Course → Moment → Prop} {c₁ : Course} (h : Throughout μ P es c)
    (hrun : c.run μ es = some c₁) (h' : Throughout μ P es' c₁) : Throughout μ P (es ++ es') c := by
  induction es generalizing c with
  | nil =>
    rw [run, Option.some.injEq] at hrun
    subst hrun
    exact h'
  | cons x es ih => exact ⟨h.1, fun c₂ hx => ih (h.2 c₂ hx) (run_next hrun hx)⟩

/-- An invariant that may depend on the events that are still to come. -/
theorem run_keeps {J : List Moment → Course → Prop}
    (hstep : ∀ x es c c', c.step μ x = some c' → J (x :: es) c → J es c')
    (h : c.run μ es = some c') (hJ : J (es ++ es') c) : J es' c' := by
  induction es generalizing c with
  | nil =>
    rw [run, Option.some.injEq] at h
    rw [← h]
    exact hJ
  | cons x es ih =>
    obtain ⟨c₁, h₁, h₂⟩ := run_cons h
    exact ih h₂ (hstep x (es ++ es') c c₁ h₁ hJ)

/-- A bound that each step keeps, and that each event of a kind lowers, bounds the number of these
events. -/
theorem countP_le {J : Nat → List Moment → Course → Prop} {q : Event → Bool}
    (hstep : ∀ k x es c c', c.step μ x = some c' → J k (x :: es) c →
      ∃ k', J k' es c' ∧ k' + (if q x.event then 1 else 0) ≤ k)
    {k : Nat} (h : c.run μ es = some c') (hJ : J k es c) :
    ∃ k', J k' [] c' ∧ k' + es.countP (q ·.event) ≤ k := by
  induction es generalizing c k with
  | nil =>
    rw [run, Option.some.injEq] at h
    exact ⟨k, h ▸ hJ, by simp⟩
  | cons x es ih =>
    obtain ⟨c₁, h₁, h₂⟩ := run_cons h
    obtain ⟨k₁, hJ₁, hk₁⟩ := hstep k x es c c₁ h₁ hJ
    obtain ⟨k₂, hJ₂, hk₂⟩ := ih h₂ hJ₁
    refine ⟨k₂, hJ₂, ?_⟩
    rw [List.countP_cons]
    omega

end Course

end LogRelay
