import LogRelay.Proofs.Plans

/-!
# Where plans lead

On a given ground a plan has one run. `Plan.calls` lists the requests of the run with the states they are
made in. `Plan.Leads` says that each of these requests was right in its state, how the run ends, and what
a panic of the service leaves; rules for each kind of step and for patience put such facts together.
-/

namespace LogRelay

namespace Plan

variable {A : Api} {W α β : Type} {g : Ground A W}

/-- The requests that a run makes, also the one that a panic breaks it off at, each with the state it is
made in. -/
def calls (g : Ground A W) : Plan A α → W → List (W × A.Request)
  | done _, _ => []
  | call r next, w =>
    (w, r) :: match g.call r w with
      | (.ok x, w) => (next x).calls g w
      | (.error _, _) => []
  | sleep d next, w => next.calls g (g.elapse d w)
  | clock next, w => (next (g.now w)).calls g w
  | draw next, w => (next (g.draw w).1).calls g (g.draw w).2
  | note e next, w => next.calls g (g.note e w)
  | consult next, w => (next (g.consult w)).calls g w
  | remember m next, w => next.calls g (g.remember m w)
  | raise _, _ => []

theorem run_bind {p : Plan A α} {f : α → Plan A β} {w : W} :
    (p >>= f).run g w = match p.run g w with
      | (.ok a, v) => (f a).run g v
      | (.error q, v) => (.error q, v) := by
  change (p.bind f).run g w = _
  induction p generalizing w with
  | done a => rfl
  | raise q => rfl
  | call r next ih =>
    simp only [Plan.bind, run]
    rcases g.call r w with ⟨x | x, v⟩
    · rfl
    · exact ih x
  | sleep d next ih => exact ih
  | note e next ih => exact ih
  | remember m next ih => exact ih
  | clock next ih | draw next ih | consult next ih => exact ih _

@[simp] theorem run_now {w : W} : (now : Plan A Instant).run g w = (.ok (g.now w), w) := rfl

@[simp] theorem run_pause {d : Duration} {w : W} : (pause d : Plan A Unit).run g w = (.ok (), g.elapse d w) := rfl

theorem run_invoke {ε : Type} {q : Patience} {op : Plan A (Patience.Try ε α)} {w : W} (h : q.Fits (g.now w)) :
    (q.invoke op).run g w = (q.attempts op (g.now w + q.timeout) (q.timeout + 2) q.initialDelay).run g w := by
  rw [Patience.invoke, run_bind, run_now]
  dsimp only
  rw [if_pos h]

theorem run_invoke_of_not_fits {ε : Type} {q : Patience} {op : Plan A (Patience.Try ε α)} {w : W}
    (h : ¬ q.Fits (g.now w)) : (q.invoke op).run g w = (.error .instantTooLate, w) := by
  rw [Patience.invoke, run_bind, run_now]
  dsimp only
  rw [if_neg h]
  rfl

theorem calls_bind {p : Plan A α} {f : α → Plan A β} {w : W} :
    (p >>= f).calls g w = p.calls g w ++ match p.run g w with
      | (.ok a, v) => (f a).calls g v
      | (.error _, _) => [] := by
  change (p.bind f).calls g w = _
  induction p generalizing w with
  | done a => rfl
  | raise q => rfl
  | call r next ih =>
    simp only [Plan.bind, calls, run, List.cons_append]
    rcases g.call r w with ⟨x | x, v⟩
    · rfl
    · exact congrArg _ (ih x)
  | sleep d next ih => exact ih
  | note e next ih => exact ih
  | remember m next ih => exact ih
  | clock next ih | draw next ih | consult next ih => exact ih _

theorem calls_invoke {ε : Type} {q : Patience} {op : Plan A (Patience.Try ε α)} {w : W} (h : q.Fits (g.now w)) :
    (q.invoke op).calls g w = (q.attempts op (g.now w + q.timeout) (q.timeout + 2) q.initialDelay).calls g w := by
  rw [Patience.invoke, calls_bind, run_now]
  dsimp only
  rw [if_pos h]
  rfl

theorem calls_invoke_of_not_fits {ε : Type} {q : Patience} {op : Plan A (Patience.Try ε α)} {w : W}
    (h : ¬ q.Fits (g.now w)) : (q.invoke op).calls g w = [] := by
  rw [Patience.invoke, calls_bind, run_now]
  dsimp only
  rw [if_neg h]
  rfl

/-- What the tree of a plan asks is what a run asks. -/
theorem Asks.of_calls {P : A.Request → Prop} {p : Plan A α} (h : p.Asks P) {w : W} :
    ∀ c ∈ p.calls g w, P c.2 := by
  induction p generalizing w with
  | done a =>
    intro c hc
    cases hc
  | raise q =>
    intro c hc
    cases hc
  | call r next ih =>
    intro c hc
    rw [calls, List.mem_cons] at hc
    rcases hc with rfl | hc
    · exact h.1
    · split at hc
      · rename_i x v _
        exact ih x (h.2 x) c hc
      · cases hc
  | sleep d next ih => exact ih h
  | note e next ih => exact ih h
  | remember m next ih => exact ih h
  | clock next ih | draw next ih | consult next ih => exact ih _ (h _)

/-- A request with a final reply is the last of the run. -/
theorem StopsAt.of_calls {final : Call A → Prop} {p : Plan A α} (h : p.StopsAt final) {w v v' : W} {r : A.Request}
    {x : A.Reply r} {before after : List (W × A.Request)} (hc : p.calls g w = before ++ (v, r) :: after)
    (hr : g.call r v = (.ok x, v')) (hx : final ⟨r, x⟩) : after = [] := by
  induction p generalizing w before with
  | done a => simp [calls] at hc
  | raise q => simp [calls] at hc
  | call r' next ih =>
    rw [calls] at hc
    cases before with
    | nil =>
      obtain ⟨hvr, rfl⟩ := List.cons_eq_cons.mp hc
      obtain ⟨rfl, rfl⟩ := Prod.mk.inj hvr
      rw [hr]
      exact List.eq_nil_iff_forall_not_mem.mpr fun c hm => ((h x).1 hx).of_calls c hm
    | cons c before =>
      obtain ⟨-, hc⟩ := List.cons_eq_cons.mp hc
      split at hc
      · rename_i y u _
        exact ih y (h y).2 hc
      · simp at hc
  | sleep d next ih => exact ih h hc
  | note e next ih => exact ih h hc
  | remember m next ih => exact ih h hc
  | clock next ih | draw next ih | consult next ih => exact ih _ (h _) hc

/-- From `w` the plan makes requests as `P` says only and ends as `Q` says, or a panic leaves a state as
`X` says. -/
structure Leads (g : Ground A W) (P : W → A.Request → Prop) (X : W → Prop) (p : Plan A α) (Q : α → W → Prop)
    (w : W) : Prop where
  asks : ∀ c ∈ p.calls g w, P c.1 c.2
  ends : ∀ a v, p.run g w = (.ok a, v) → Q a v
  breaks : ∀ q v, p.run g w = (.error q, v) → X v

section
variable {P : W → A.Request → Prop} {X : W → Prop} {Q : α → W → Prop} {w : W}

theorem Leads.mono {p : Plan A α} {R : α → W → Prop} (h : p.Leads g P X R w) (hQ : ∀ a v, R a v → Q a v) :
    p.Leads g P X Q w := ⟨h.asks, fun a v hr => hQ a v (h.ends a v hr), h.breaks⟩

theorem Leads.after {p : Plan A α} (h : p.Leads g P X Q w) (hQ : ∀ a v, Q a v → X v) : X (p.run g w).2 := by
  cases hr : p.run g w with
  | mk result v =>
    cases result with
    | ok a => exact hQ a v (h.ends a v hr)
    | error q => exact h.breaks q v hr

theorem Leads.exists_end {p : Plan A α} (h : p.Leads g P X Q w) (hX : ¬ X (p.run g w).2) :
    ∃ a v, p.run g w = (.ok a, v) ∧ Q a v := by
  cases hr : p.run g w with
  | mk result v =>
    cases result with
    | ok a => exact ⟨a, v, rfl, h.ends a v hr⟩
    | error q =>
      rw [hr] at hX
      exact absurd (h.breaks q v hr) hX

theorem leads_of_quiet {p : Plan A α} {a : α} {v : W} (hc : p.calls g w = []) (hr : p.run g w = (.ok a, v))
    (h : Q a v) : p.Leads g P X Q w := by
  refine ⟨?_, ?_, ?_⟩
  · intro c hm
    rw [hc] at hm
    cases hm
  · intro b v' hb
    rw [hr] at hb
    cases hb
    exact h
  · intro q v' hq
    rw [hr] at hq
    cases hq

theorem leads_raise {q : Panic} (h : X w) : (raise q : Plan A α).Leads g P X Q w := by
  refine ⟨?_, ?_, ?_⟩
  · intro c hm
    cases hm
  · intro a v hr
    cases hr
  · intro q' v hr
    cases hr
    exact h

theorem leads_pure {a : α} (h : Q a w) : (pure a : Plan A α).Leads g P X Q w := leads_of_quiet rfl rfl h

theorem leads_now {Q : Instant → W → Prop} (h : Q (g.now w) w) : (now : Plan A Instant).Leads g P X Q w :=
  leads_of_quiet rfl rfl h

theorem leads_memory {Q : Option String → W → Prop} (h : Q (g.consult w) w) :
    (memory : Plan A (Option String)).Leads g P X Q w := leads_of_quiet rfl rfl h

section
variable {Q : Unit → W → Prop}

theorem leads_pause {d : Duration} (h : Q () (g.elapse d w)) : (pause d : Plan A Unit).Leads g P X Q w :=
  leads_of_quiet rfl rfl h

theorem leads_log {e : Entry} (h : Q () (g.note e w)) : (Plan.log e : Plan A Unit).Leads g P X Q w :=
  leads_of_quiet rfl rfl h

theorem leads_memorize {m : Option String} (h : Q () (g.remember m w)) :
    (memorize m : Plan A Unit).Leads g P X Q w := leads_of_quiet rfl rfl h

end

theorem leads_request {r : A.Request} {Q : A.Reply r → W → Prop} (hP : P w r)
    (hQ : ∀ x v, g.call r w = (.ok x, v) → Q x v) (hX : ∀ q v, g.call r w = (.error q, v) → X v) :
    (request r).Leads g P X Q w := by
  unfold request
  cases hc : g.call r w with
  | mk result v =>
    refine ⟨?_, ?_, ?_⟩
    · intro c hm
      simp only [calls, hc] at hm
      cases result <;> rw [List.mem_singleton.mp hm] <;> exact hP
    · intro x v' hr
      simp only [run, hc] at hr
      cases result <;> cases hr
      exact hQ x v hc
    · intro q v' hr
      simp only [run, hc] at hr
      cases result <;> cases hr
      exact hX q v hc

theorem leads_bind {p : Plan A α} {f : α → Plan A β} {R : α → W → Prop} {Q : β → W → Prop}
    (hp : p.Leads g P X R w) (hf : ∀ a v, R a v → (f a).Leads g P X Q v) : (p >>= f).Leads g P X Q w := by
  cases hr : p.run g w with
  | mk result v =>
    cases result with
    | ok a =>
      have ha := hf a v (hp.ends a v hr)
      refine ⟨?_, ?_, ?_⟩
      · intro c hc
        rw [calls_bind, hr, List.mem_append] at hc
        rcases hc with hc | hc
        · exact hp.asks c hc
        · exact ha.asks c hc
      · intro b v' hb
        rw [run_bind, hr] at hb
        exact ha.ends b v' hb
      · intro q v' hq
        rw [run_bind, hr] at hq
        exact ha.breaks q v' hq
    | error q =>
      refine ⟨?_, ?_, ?_⟩
      · intro c hc
        rw [calls_bind, hr, List.append_nil] at hc
        exact hp.asks c hc
      · intro b v' hb
        rw [run_bind, hr] at hb
        cases hb
      · intro q' v' hq
        rw [run_bind, hr] at hq
        cases hq
        exact hp.breaks q v hr

theorem leads_reply {r : A.Request} {f : A.Reply r → α} (hP : P w r)
    (hQ : ∀ x v, g.call r w = (.ok x, v) → Q (f x) v) (hX : ∀ q v, g.call r w = (.error q, v) → X v) :
    Leads g P X (do return f (← request r)) Q w :=
  leads_bind (leads_request hP hQ hX) fun _ _ h => leads_pure h

/-! ## Attempts and patience -/

theorem leads_attempt_bind {x : Attempt A α} {f : α → Attempt A β} {R : Except Failure α → W → Prop}
    {Q : Except Failure β → W → Prop} (hx : Leads g P X x.run R w)
    (hf : ∀ a v, R (.ok a) v → Leads g P X (f a).run Q v) (he : ∀ e v, R (.error e) v → Q (.error e) v) :
    Leads g P X (x >>= f).run Q w := by
  refine leads_bind hx fun r v h => ?_
  cases r with
  | ok a => exact hf a v h
  | error e => exact leads_pure (he e v h)

theorem leads_lift {p : Plan A α} {Q : Except Failure α → W → Prop}
    (h : p.Leads g P X (fun a v => Q (.ok a) v) w) : Leads g P X (ExceptT.lift p : Attempt A α).run Q w :=
  leads_bind h fun _ _ h => leads_pure h

section
variable {ε : Type} {q : Patience} {op : Plan A (Patience.Try ε α)} {I : W → Prop}
  {R : Patience.Try ε α → W → Prop}

theorem leads_attempts (hop : ∀ v, I v → op.Leads g P X R v) (hI : ∀ v, R (.ok none) v → I v)
    (hR : ∀ d v, R (.ok none) v → R (.ok none) (g.elapse d v)) {deadline : Instant} {tries : Nat}
    {delay : Duration} (h : I w) : (q.attempts op deadline (tries + 1) delay).Leads g P X R w := by
  -- with no room for another try the last one has asked for, its outcome stands
  induction tries generalizing w delay with
  | zero =>
    refine leads_bind (hop w h) fun r v hr => ?_
    split
    · exact leads_pure hr
    · exact leads_pure hr
    · refine leads_bind (leads_now (Q := fun _ => R (.ok none)) hr) fun t v hr => ?_
      split
      · exact leads_pure hr
      · exact leads_bind (leads_pause (Q := fun _ => R (.ok none)) (hR _ _ hr)) fun _ _ hr => leads_pure hr
  | succ tries ih =>
    refine leads_bind (hop w h) fun r v hr => ?_
    split
    · exact leads_pure hr
    · exact leads_pure hr
    · refine leads_bind (leads_now (Q := fun _ => R (.ok none)) hr) fun t v hr => ?_
      split
      · exact leads_pure hr
      · exact leads_bind (leads_pause (Q := fun _ => R (.ok none)) (hR _ _ hr)) fun _ v hr => ih (hI v hr)

/-- Patience is the tries, unless its timeout is beyond what the clock shows. -/
theorem leads_invoke_of_attempts (hX : ¬ q.Fits (g.now w) → X w)
    (h : q.Fits (g.now w) →
      (q.attempts op (g.now w + q.timeout) (q.timeout + 2) q.initialDelay).Leads g P X R w) :
    (q.invoke op).Leads g P X R w := by
  refine leads_bind (leads_now (Q := fun t v => t = g.now w ∧ v = w) ⟨rfl, rfl⟩) ?_
  intro t v hv
  obtain ⟨rfl, rfl⟩ := hv
  split
  · rename_i hf
    exact h hf
  · rename_i hf
    exact leads_raise (hX hf)

theorem leads_invoke (hX : ¬ q.Fits (g.now w) → X w) (hop : ∀ v, I v → op.Leads g P X R v)
    (hI : ∀ v, R (.ok none) v → I v) (hR : ∀ d v, R (.ok none) v → R (.ok none) (g.elapse d v)) (h : I w) :
    (q.invoke op).Leads g P X R w :=
  leads_invoke_of_attempts hX fun _ => leads_attempts hop hI hR h

/-- The first try is the last, or it asks in time for another one, which is the last. -/
theorem leads_invoke_soon (hX : ¬ q.Fits (g.now w) → X w) (hop : op.Leads g P X (fun r v => r ≠ .ok none ∧ R r v ∨
      r = .ok none ∧ g.now v < g.now w + q.timeout ∧
        ∀ d, op.Leads g P X (fun r v => r ≠ .ok none ∧ R r v) (g.elapse d v)) w) :
    (q.invoke op).Leads g P X R w := by
  have hlast : ∀ {deadline tries delay v}, op.Leads g P X (fun r v => r ≠ .ok none ∧ R r v) v →
      (q.attempts op deadline (tries + 1) delay).Leads g P X R v := by
    intro deadline tries delay v hv
    refine leads_bind hv fun r v hr => ?_
    split
    · exact leads_pure hr.2
    · exact leads_pure hr.2
    · exact absurd rfl hr.1
  refine leads_invoke_of_attempts hX fun _ => ?_
  refine leads_bind hop fun r v hr => ?_
  rcases hr with ⟨hn, hr⟩ | ⟨rfl, hnow, hagain⟩
  · split
    · exact leads_pure hr
    · exact leads_pure hr
    · exact absurd rfl hn
  · refine leads_bind (leads_now (Q := fun t v' => t = g.now v ∧ v' = v) ⟨rfl, rfl⟩) ?_
    intro t v' hv
    obtain ⟨rfl, rfl⟩ := hv
    rw [if_neg (Nat.not_le.mpr hnow)]
    refine leads_bind (leads_pause (Q := fun _ u => ∃ d, u = g.elapse d v') ⟨_, rfl⟩) ?_
    intro _ u hu
    obtain ⟨d, rfl⟩ := hu
    exact hlast (hagain d)

end

theorem leads_success_bind {x : Attempt A α} {f : α → Attempt A β} {R : α → W → Prop}
    {Q : Except Failure β → W → Prop} (hx : Leads g P X x.run (fun r v => ∃ a, r = .ok a ∧ R a v) w)
    (hf : ∀ a v, R a v → Leads g P X (f a).run Q v) : Leads g P X (x >>= f).run Q w := by
  refine leads_attempt_bind hx ?_ ?_
  · rintro a v ⟨_, ha, h⟩
    cases ha
    exact hf a v h
  · rintro e v ⟨_, he, -⟩
    cases he

theorem leads_require_ready {q : Patience} {op : Plan A (Patience.Try Fault α)} {R : α → W → Prop}
    {message : String} (hX : ¬ q.Fits (g.now w) → X w)
    (hop : op.Leads g P X (fun r v => ∃ a, r = .ok (some a) ∧ R a v) w) :
    Leads g P X (q.require message op).run (fun r v => ∃ a, r = .ok a ∧ R a v) w := by
  have hi : (q.invoke op).Leads g P X (fun r v => ∃ a, r = .ok (some a) ∧ R a v) w := by
    refine leads_invoke_soon hX (hop.mono fun r v hr => .inl ⟨?_, hr⟩)
    obtain ⟨a, rfl, -⟩ := hr
    simp
  refine leads_bind hi fun r v hr => ?_
  obtain ⟨a, rfl, ha⟩ := hr
  exact leads_pure ⟨a, rfl, ha⟩

theorem leads_require {q : Patience} {op : Plan A (Patience.Try Fault α)} {I : W → Prop}
    {R : Patience.Try Fault α → W → Prop} {message : String} {Q : Except Failure α → W → Prop}
    (hX : ¬ q.Fits (g.now w) → X w) (hop : ∀ v, I v → op.Leads g P X R v) (hI : ∀ v, R (.ok none) v → I v)
    (hR : ∀ d v, R (.ok none) v → R (.ok none) (g.elapse d v)) (hok : ∀ a v, R (.ok (some a)) v → Q (.ok a) v)
    (hfail : ∀ r e v, (∀ a, r ≠ .ok (some a)) → R r v → Q (.error e) v) (h : I w) :
    Leads g P X (q.require message op).run Q w := by
  refine leads_bind (leads_invoke hX hop hI hR h) fun r v hr => ?_
  split
  · exact leads_pure (hok _ v hr)
  · exact leads_pure (hfail _ _ v (fun _ ha => by cases ha) hr)
  · exact leads_pure (hfail _ _ v (fun _ ha => by cases ha) hr)

end

end Plan

end LogRelay
