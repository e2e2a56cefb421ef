import LogRelay.Proofs.Leading

/-!
# What is asked after what

A ground that keeps a record shows every request of a run beside the calls that had been answered by then. A
protocol says by that record which requests are allowed, and `Plan.Abides` that a plan keeps to it. What is
asked for with patience adds to the record its tries in vain and then the one that settles the matter.
-/

namespace LogRelay

variable {A : Api} {W α β : Type}

structure Ground.Keeps (g : Ground A W) (F : W → Prop) : Prop where
  elapse : ∀ d w, F w → F (g.elapse d w)
  note : ∀ e w, F w → F (g.note e w)
  draw : ∀ w, F w → F (g.draw w).2
  call : ∀ r w, F w → F (g.call r w).2

/-- What has been remembered stays in memory. -/
structure Ground.Retentive (g : Ground A W) : Prop where
  consult_remember : ∀ m w, g.consult (g.remember m w) = m
  keeps : ∀ m, g.Keeps fun w => g.consult w = m

def Ground.ticking (answer : (r : A.Request) → Nat → A.Reply r) : Ground A (Nat × Option String) where
  now w := w.1
  elapse d w := (w.1 + d, w.2)
  note _ w := w
  consult w := w.2
  remember m w := (w.1, m)
  draw w := (0, w)
  call r w := (.ok (answer r w.1), w.1 + 1, w.2)

theorem Ground.ticking_retentive (answer : (r : A.Request) → Nat → A.Reply r) : (ticking answer).Retentive :=
  ⟨fun _ _ => rfl, fun _ => ⟨fun _ _ => id, fun _ _ => id, fun _ => id, fun _ _ => id⟩⟩

def Patience.settle (p : Patience) (message : String) : Patience.Try Fault α → Except Failure α
  | .ok (some a) => .ok a
  | .ok none => .error (({ message } : Failure).withContext "timeout_ms" (toString p.timeout.millis))
  | .error f => .error (({ message } : Failure).withFault f)

@[simp] theorem Patience.settle_eq_ok {p : Patience} {message : String} {t : Patience.Try Fault α} {a : α} :
    p.settle message t = .ok a ↔ t = .ok (some a) := by
  rcases t with f | _ | b <;> simp [settle]

theorem Patience.not_ready_of_settle_eq_error {p : Patience} {message : String} {t : Patience.Try Fault α}
    {e : Failure} (h : p.settle message t = .error e) (a : α) : t ≠ .ok (some a) := by
  rintro rfl
  cases h

theorem Patience.unlessTransient_eq_ready_iff {x : Except Fault α} {a : α} :
    Patience.unlessTransient x = .ok (some a) ↔ x = .ok a := by
  cases x with
  | ok b => simp [unlessTransient]
  | error f => by_cases ht : f.isTransient = true <;> simp [unlessTransient, ht]

def AsksAgain {r : A.Request} (f : A.Reply r → Patience.Try Fault α) (c : Call A) : Prop :=
  ∃ x, c = ⟨r, x⟩ ∧ f x = .ok none

/-- The record has grown by tries of `r` in vain, and then by one that was answered with `x`. -/
def Tries {r : A.Request} (f : A.Reply r → Patience.Try Fault α) (log : List (Call A)) (x : A.Reply r)
    (l : List (Call A)) : Prop :=
  ∃ tries, (∀ c ∈ tries, AsksAgain f c) ∧ l = log ++ (tries ++ [⟨r, x⟩])

section
variable {r : A.Request} {f : A.Reply r → Patience.Try Fault α} {log tries l : List (Call A)} {x : A.Reply r}

/-- Calls of `r` on record are tries in vain, if there were none before these. -/
theorem reply_of_asksAgain (htries : ∀ c ∈ tries, AsksAgain f c) (hlog : ∀ c ∈ log, c.request ≠ r)
    (h : (⟨r, x⟩ : Call A) ∈ log ++ tries) : f x = .ok none := by
  rw [List.mem_append] at h
  rcases h with h | h
  · exact absurd rfl (hlog _ h)
  · obtain ⟨y, hy, hf⟩ := htries _ h
    cases hy
    exact hf

theorem Tries.mem_or (h : Tries f log x l) {c : Call A} (hc : c ∈ l) : c ∈ log ∨ c.request = r := by
  obtain ⟨tries, htries, rfl⟩ := h
  rw [List.mem_append, List.mem_append, List.mem_singleton] at hc
  rcases hc with hc | hc | rfl
  · exact .inl hc
  · obtain ⟨y, rfl, -⟩ := htries c hc
    exact .inr rfl
  · exact .inr rfl

theorem Tries.request_ne (h : Tries f log x l) {r' : A.Request} (hr : r ≠ r') (hlog : ∀ c ∈ log, c.request ≠ r') :
    ∀ c ∈ l, c.request ≠ r' := by
  intro c hc
  rcases h.mem_or hc with hc | hc
  · exact hlog c hc
  · rwa [hc]

theorem Tries.mem_of_mem (h : Tries f log x l) {c : Call A} (hc : c ∈ log) : c ∈ l := by
  obtain ⟨tries, -, rfl⟩ := h
  exact List.mem_append_left _ hc

theorem Tries.mem (h : Tries f log x l) : (⟨r, x⟩ : Call A) ∈ l := by
  obtain ⟨tries, -, rfl⟩ := h
  simp

theorem Tries.getLast?_eq (h : Tries f log x l) : l.getLast? = some ⟨r, x⟩ := by
  obtain ⟨tries, -, rfl⟩ := h
  simp

theorem Tries.of_append {c : Call A} (h : Tries f (log ++ [c]) x l) (hc : AsksAgain f c) : Tries f log x l := by
  obtain ⟨tries, htries, rfl⟩ := h
  refine ⟨c :: tries, fun e he => ?_, by simp⟩
  rw [List.mem_cons] at he
  rcases he with rfl | he
  · exact hc
  · exact htries e he

/-- The call that was answered comes after all that was on record. -/
theorem Tries.sublist (h : Tries f log x l) {before : List (Call A)} (hb : before.Sublist log) :
    (before ++ [(⟨r, x⟩ : Call A)]).Sublist l := by
  obtain ⟨tries, -, rfl⟩ := h
  exact hb.append (List.sublist_append_right tries _)

end

namespace Ground

variable {g : Ground A W} {r : A.Request} {w : W} {log : List (Call A)}

theorem recorded_call_ok {x : A.Reply r} {v : W × List (Call A)} (h : g.recorded.call r (w, log) = (.ok x, v)) :
    g.call r w = (.ok x, v.1) ∧ v.2 = log ++ [⟨r, x⟩] := by
  simp only [recorded] at h
  split at h
  · rename_i y w' hc
    cases h
    exact ⟨hc, rfl⟩
  · cases h

theorem recorded_call_error {q : Panic} {v : W × List (Call A)}
    (h : g.recorded.call r (w, log) = (.error q, v)) : g.call r w = (.error q, v.1) ∧ v.2 = log := by
  simp only [recorded] at h
  split at h
  · cases h
  · rename_i p w' hc
    cases h
    exact ⟨hc, rfl⟩

end Ground

namespace Plan

variable {g : Ground A W} {F : W → Prop} {allows : List (Call A) → A.Request → Prop} {log : List (Call A)}

theorem run_memory_bind {k : Option String → Plan A β} {w : W} :
    (memory >>= k).run g w = (k (g.consult w)).run g w := rfl

theorem calls_memory_bind {k : Option String → Plan A β} {w : W} :
    (memory >>= k).calls g w = (k (g.consult w)).calls g w := rfl

theorem run_attempt_bind {x : Attempt A α} {k : α → Attempt A β} {w : W} :
    (x >>= k).run.run g w = match x.run.run g w with
      | (.ok (.ok a), v) => (k a).run.run g v
      | (.ok (.error e), v) => (.ok (.error e), v)
      | (.error q, v) => (.error q, v) := by
  refine (run_bind (p := x.run)).trans ?_
  rcases x.run.run g w with ⟨_ | _ | _, v⟩ <;> rfl

theorem calls_attempt_bind {x : Attempt A α} {k : α → Attempt A β} {w : W} :
    (x >>= k).run.calls g w = x.run.calls g w ++ match x.run.run g w with
      | (.ok (.ok a), v) => (k a).run.calls g v
      | _ => [] := by
  refine (calls_bind (p := x.run)).trans (congrArg _ ?_)
  rcases x.run.run g w with ⟨_ | _ | _, v⟩ <;> rfl

theorem run_require (q : Patience) (message : String) (op : Plan A (Patience.Try Fault α)) :
    (q.require message op).run = (do return q.settle message (← q.invoke op)) := by
  refine congrArg (q.invoke op >>= ·) (funext fun r => ?_)
  rcases r with f | _ | a <;> rfl

theorem require_of_not_fits {q : Patience} {w : W} (h : ¬ q.Fits (g.now w)) (message : String)
    (op : Plan A (Patience.Try Fault α)) : (q.require message op).run.calls g w = [] ∧
      (q.require message op).run.run g w = (.error .instantTooLate, w) := by
  have hrun : (q.invoke op).run g w = (.error .instantTooLate, w) := run_invoke_of_not_fits h
  rw [run_require, calls_bind, run_bind, hrun, calls_invoke_of_not_fits h]
  exact ⟨rfl, rfl⟩

/-- With the record `log` to begin with, the plan asks only for what is allowed by its record at the time,
leaves `F` as it is, and ends as `Q` says. A panic comes upon a request that was allowed. -/
abbrev Abides (g : Ground A W) (F : W → Prop) (allows : List (Call A) → A.Request → Prop) (p : Plan A α)
    (Q : α → List (Call A) → Prop) (log : List (Call A)) : Prop :=
  ∀ w, F w → Leads g.recorded (fun v r => allows v.2 r) (fun v => F v.1 ∧ ∃ r, allows v.2 r) p
    (fun a v => F v.1 ∧ Q a v.2) (w, log)

theorem Abides.mono {p : Plan A α} {Q R : α → List (Call A) → Prop} (h : Abides g F allows p R log)
    (hQ : ∀ a l, R a l → Q a l) : Abides g F allows p Q log :=
  fun w hw => (h w hw).mono fun a v hv => ⟨hv.1, hQ a v.2 hv.2⟩

theorem abides_pure {a : α} {Q : α → List (Call A) → Prop} (h : Q a log) :
    Abides g F allows (pure a : Plan A α) Q log := fun _ hw => leads_pure ⟨hw, h⟩

theorem abides_bind {p : Plan A α} {f : α → Plan A β} {R : α → List (Call A) → Prop}
    {Q : β → List (Call A) → Prop} (hp : Abides g F allows p R log)
    (hf : ∀ a l, R a l → Abides g F allows (f a) Q l) : Abides g F allows (p >>= f) Q log :=
  fun w hw => leads_bind (hp w hw) fun a v hv => hf a v.2 hv.2 v.1 hv.1

theorem abides_attempt_bind {x : Attempt A α} {f : α → Attempt A β} {R : Except Failure α → List (Call A) → Prop}
    {Q : Except Failure β → List (Call A) → Prop} (hx : Abides g F allows x.run R log)
    (hf : ∀ a l, R (.ok a) l → Abides g F allows (f a).run Q l) (he : ∀ e l, R (.error e) l → Q (.error e) l) :
    Abides g F allows (x >>= f).run Q log := by
  refine abides_bind hx fun r l h => ?_
  cases r with
  | ok a => exact hf a l h
  | error e => exact abides_pure (he e l h)

theorem abides_lift {p : Plan A α} {Q : Except Failure α → List (Call A) → Prop}
    (h : Abides g F allows p (fun a l => Q (.ok a) l) log) :
    Abides g F allows (ExceptT.lift p : Attempt A α).run Q log := abides_bind h fun _ _ h => abides_pure h

section
variable (hF : g.Keeps F)
include hF

theorem abides_log (e : Entry) : Abides g F allows (Plan.log e) (fun _ l => l = log) log :=
  fun w hw => leads_log ⟨hF.note e w hw, rfl⟩

theorem abides_log_bind {e : Entry} {f : Unit → Attempt A β} {Q : Except Failure β → List (Call A) → Prop}
    (hf : Abides g F allows (f ()).run Q log) : Abides g F allows (Attempt.log e >>= f).run Q log := by
  have hlog : Abides g F allows (Attempt.log e : Attempt A Unit).run (fun r l => r = .ok () ∧ l = log) log :=
    abides_bind (abides_log hF e) fun _ l hl => abides_pure ⟨rfl, hl⟩
  refine abides_attempt_bind hlog ?_ ?_
  · rintro _ l ⟨-, rfl⟩
    exact hf
  · rintro e' l ⟨h, -⟩
    cases h

/-- Every try is made with the tries in vain before it on record, and the last one settles the matter. -/
theorem abides_invoke {q : Patience} {op : Plan A (Patience.Try Fault α)} {r : A.Request}
    {f : A.Reply r → Patience.Try Fault α} (hop : op = do return f (← request r))
    (hallows : ∀ tries, (∀ c ∈ tries, AsksAgain f c) → allows (log ++ tries) r) :
    Abides g F allows (q.invoke op) (fun t l => ∃ x, Tries f log x l ∧ t = f x) log := by
  subst hop
  intro w hw
  have hpanic : allows log r := by simpa using hallows [] (by simp)
  -- what holds before a try, and after it
  let before (v : W × List (Call A)) : Prop := F v.1 ∧ ∃ tries, (∀ c ∈ tries, AsksAgain f c) ∧ v.2 = log ++ tries
  let after (t : Patience.Try Fault α) (v : W × List (Call A)) : Prop := F v.1 ∧ ∃ x, Tries f log x v.2 ∧ t = f x
  have htry : ∀ v, before v → Leads g.recorded (fun v r => allows v.2 r) (fun v => F v.1 ∧ ∃ r, allows v.2 r)
      (do return f (← request r)) after v := by
    rintro ⟨v, l⟩ ⟨hv, tries, htries, rfl⟩
    refine leads_reply (hallows tries htries) (fun x u hu => ?_) fun p u hu => ?_
    · obtain ⟨hc, hl⟩ := Ground.recorded_call_ok hu
      exact ⟨by simpa [hc] using hF.call r v hv, x, ⟨tries, htries, by rw [hl, List.append_assoc]⟩, rfl⟩
    · obtain ⟨hc, hl⟩ := Ground.recorded_call_error hu
      exact ⟨by simpa [hc] using hF.call r v hv, r, by rw [hl]; exact hallows tries htries⟩
  have hagain : ∀ v, after (.ok none) v → before v := by
    rintro v ⟨hv, x, ⟨tries, htries, hl⟩, hx⟩
    refine ⟨hv, tries ++ [⟨r, x⟩], fun c hc => ?_, hl⟩
    rw [List.mem_append, List.mem_singleton] at hc
    rcases hc with hc | rfl
    · exact htries c hc
    · exact ⟨x, rfl, hx.symm⟩
  have hpause : ∀ d v, after (.ok none) v → after (.ok none) (g.recorded.elapse d v) := by
    rintro d v ⟨hv, hl⟩
    exact ⟨hF.elapse d v.1 hv, hl⟩
  exact leads_invoke (fun _ => ⟨hw, r, hpanic⟩) htry hagain hpause ⟨hw, [], by simp, by simp⟩

theorem abides_require {q : Patience} {message : String} {op : Plan A (Patience.Try Fault α)} {r : A.Request}
    {f : A.Reply r → Patience.Try Fault α} (hop : op = do return f (← request r))
    (hallows : ∀ tries, (∀ c ∈ tries, AsksAgain f c) → allows (log ++ tries) r) :
    Abides g F allows (q.require message op).run
      (fun a l => ∃ x, Tries f log x l ∧ a = q.settle message (f x)) log := by
  rw [run_require]
  refine abides_bind (abides_invoke hF hop hallows) ?_
  rintro _ l ⟨x, hl, rfl⟩
  exact abides_pure ⟨x, hl, rfl⟩

theorem abides_require_bind {q : Patience} {message : String} {op : Plan A (Patience.Try Fault α)}
    {r : A.Request} {f : A.Reply r → Patience.Try Fault α} {next : α → Attempt A β}
    {Q : Except Failure β → List (Call A) → Prop} (hop : op = do return f (← request r))
    (hallows : ∀ tries, (∀ c ∈ tries, AsksAgain f c) → allows (log ++ tries) r)
    (hok : ∀ a x l, Tries f log x l → f x = .ok (some a) → Abides g F allows (next a).run Q l)
    (herror : ∀ e x l, Tries f log x l → q.settle message (f x) = .error e → Q (.error e) l) :
    Abides g F allows (q.require message op >>= next).run Q log := by
  refine abides_attempt_bind (abides_require hF hop hallows) ?_ ?_
  · rintro a l ⟨x, hl, hx⟩
    exact hok a x l hl (Patience.settle_eq_ok.mp hx.symm)
  · rintro e l ⟨x, hl, hx⟩
    exact herror e x l hl hx.symm

end

/-! ## Where the record comes from -/

theorem run_recorded_eq (p : Plan A α) (w : W) (log : List (Call A)) :
    ∃ l, p.run g.recorded (w, log) = ((p.run g w).1, (p.run g w).2, l) := by
  induction p generalizing w log with
  | done a => exact ⟨log, rfl⟩
  | raise q => exact ⟨log, rfl⟩
  | call r next ih =>
    unfold run
    cases hc : g.recorded.call r (w, log) with
    | mk result v =>
      cases result with
      | ok x =>
        obtain ⟨hc', -⟩ := Ground.recorded_call_ok hc
        rw [hc']
        exact ih x v.1 v.2
      | error q =>
        obtain ⟨hc', -⟩ := Ground.recorded_call_error hc
        rw [hc']
        exact ⟨v.2, rfl⟩
  | sleep d next ih => exact ih _ _
  | note e next ih => exact ih _ _
  | remember m next ih => exact ih _ _
  | clock next ih => exact ih _ _ _
  | draw next ih => exact ih _ _ _
  | consult next ih => exact ih _ _ _

theorem exists_record {p : Plan A α} {w v : W} {result : Except Panic α} (h : p.run g w = (result, v))
    (log : List (Call A)) : ∃ l, p.run g.recorded (w, log) = (result, v, l) := by
  obtain ⟨l, hl⟩ := run_recorded_eq (g := g) p w log
  rw [h] at hl
  exact ⟨l, hl⟩

theorem run_of_recorded {p : Plan A α} {w v : W} {log l : List (Call A)} {result : Except Panic α}
    (h : p.run g.recorded (w, log) = (result, v, l)) : p.run g w = (result, v) := by
  obtain ⟨l', hl⟩ := run_recorded_eq (g := g) p w log
  rw [h] at hl
  simp only [Prod.mk.injEq] at hl
  exact Prod.ext hl.1.symm hl.2.1.symm

/-- Requests are made, and calls on record were answered, in states that a plan keeps to. -/
theorem answered_of_recorded (hF : g.Keeps F) (hremember : ∀ m w, F w → F (g.remember m w)) {p : Plan A α} {w : W}
    (hw : F w) {log : List (Call A)} : ∀ c ∈ p.calls g.recorded (w, log), F c.1.1 ∧
      ∀ e ∈ c.1.2, e ∈ log ∨ ∃ v v', F v ∧ g.call e.request v = (.ok e.reply, v') := by
  -- the record grows as the plan goes on, so the induction is for any record to begin with
  induction p generalizing w log with
  | done a =>
    intro c hc
    cases hc
  | raise q =>
    intro c hc
    cases hc
  | call r next ih =>
    intro c hc
    rw [calls, List.mem_cons] at hc
    rcases hc with rfl | hc
    · exact ⟨hw, fun e he => .inl he⟩
    · split at hc
      · rename_i x v hcall
        obtain ⟨hcall, hl⟩ := Ground.recorded_call_ok hcall
        have hv : F v.1 := by simpa [hcall] using hF.call r w hw
        obtain ⟨hc', hlog⟩ := ih x hv c hc
        refine ⟨hc', fun e he => ?_⟩
        rcases hlog e he with he | he
        · rw [hl, List.mem_append, List.mem_singleton] at he
          rcases he with he | rfl
          · exact .inl he
          · exact .inr ⟨w, v.1, hw, hcall⟩
        · exact .inr he
      · cases hc
  | sleep d next ih => exact ih (hF.elapse d w hw)
  | note e next ih => exact ih (hF.note e w hw)
  | remember m next ih => exact ih (hremember m w hw)
  | clock next ih => exact ih _ hw
  | draw next ih => exact ih _ (hF.draw w hw)
  | consult next ih => exact ih _ hw

end Plan

/-! ## Trying in time -/

section
variable (p : Patience) (g : Ground A W) {r : A.Request} (f : A.Reply r → Patience.Try Fault α) (deadline : Instant)
  (x : A.Reply r) (v : W)

/-- Asked for with patience from a state on, with a delay to begin with, `r` is answered with `x`, which leaves
`v`. Until then every answer asks for another try and comes before the deadline, and time passes over a try and the
pause after it. -/
inductive Patience.Reaches : Duration → W → Prop
  | now {delay : Duration} {w : W} (h : g.call r w = (.ok x, v)) (hx : f x ≠ .ok none) : Reaches delay w
  | later {delay : Duration} {w w' : W} {y : A.Reply r} (h : g.call r w = (.ok y, w')) (hy : f y = .ok none)
      (hcall : g.now w ≤ g.now w') (htime : g.now w' < deadline)
      (hpasses : g.now w < g.now (g.elapse (min delay (deadline - g.now w')) w'))
      (rest : Reaches (if p.exponential then delay * 2 else delay)
        (g.elapse (min delay (deadline - g.now w')) w')) : Reaches delay w

end

section
variable {p : Patience} {g : Ground A W} {F : W → Prop} {r : A.Request} {f : A.Reply r → Patience.Try Fault α}
  {deadline : Instant} {x : A.Reply r} {v w : W} {delay : Duration} {log : List (Call A)}

theorem Patience.Reaches.keeps (h : p.Reaches g f deadline x v delay w) (hF : g.Keeps F) (hw : F w) : F v := by
  induction h with
  | now h hx => simpa [h] using hF.call r _ hw
  | later h hy hcall htime hpasses rest ih => exact ih (hF.elapse _ _ (by simpa [h] using hF.call r _ hw))

namespace Plan

theorem run_reply {op : Plan A (Patience.Try Fault α)} (hop : op = do return f (← request r)) {y : A.Reply r}
    (h : g.call r w = (.ok y, v)) : op.run g.recorded (w, log) = (.ok (f y), v, log ++ [⟨r, y⟩]) := by
  subst hop
  have hcall : g.recorded.call r (w, log) = (.ok y, v, log ++ [⟨r, y⟩]) := by simp only [Ground.recorded, h]
  change (call r fun z => done (f z)).run g.recorded (w, log) = _
  simp only [run, hcall]

/-- There is room for every try, as the clock moves on from each to the next. -/
theorem run_attempts_of_reaches {op : Plan A (Patience.Try Fault α)} (hop : op = do return f (← request r))
    (h : p.Reaches g f deadline x v delay w) {n : Nat} (hn : deadline - g.now w < n) (log : List (Call A)) :
    ∃ l, (p.attempts op deadline n delay).run g.recorded (w, log) = (.ok (f x), v, l) ∧ Tries f log x l := by
  induction h generalizing n log with
  | now h hx =>
    cases n with
    | zero => exact absurd hn (Nat.not_lt_zero _)
    | succ n =>
      refine ⟨log ++ [⟨r, x⟩], ?_, [], by simp, rfl⟩
      rw [Patience.attempts, run_bind, run_reply hop h]
      rcases hf : f x with e | _ | a
      · rfl
      · exact absurd hf hx
      · rfl
  | @later delay w w' y h hy hcall htime hpasses rest ih =>
    cases n with
    | zero => exact absurd hn (Nat.not_lt_zero _)
    | succ n =>
      have hless : deadline - g.now (g.elapse (min delay (deadline - g.now w')) w') < deadline - g.now w :=
        Nat.sub_lt_sub_left (Nat.lt_of_le_of_lt hcall htime) hpasses
      obtain ⟨l, hl, htries⟩ := ih (Nat.lt_of_lt_of_le hless (Nat.le_of_lt_succ hn)) (log ++ [⟨r, y⟩])
      refine ⟨l, ?_, htries.of_append ⟨y, rfl, hy⟩⟩
      rw [Patience.attempts, run_bind, run_reply hop h, hy]
      dsimp only
      rw [run_bind, run_now]
      dsimp only [Ground.recorded]
      rw [if_neg (Nat.not_le.mpr htime), run_bind, run_pause]
      exact hl

theorem run_require_of_reaches {op : Plan A (Patience.Try Fault α)} (hop : op = do return f (← request r))
    (hfits : p.Fits (g.now w))
    (h : p.Reaches g f (g.now w + p.timeout) x v p.initialDelay w) (message : String) (log : List (Call A)) :
    ∃ l, (p.require message op).run.run g.recorded (w, log) = (.ok (p.settle message (f x)), v, l) ∧
      Tries f log x l := by
  have hroom : g.now w + p.timeout - g.now w < p.timeout + 2 := by
    rw [Nat.add_sub_cancel_left]
    exact Nat.lt_add_of_pos_right (by decide)
  obtain ⟨l, hl, htries⟩ := run_attempts_of_reaches hop h hroom log
  refine ⟨l, ?_, htries⟩
  have hi : (p.invoke op).run g.recorded (w, log) = (.ok (f x), v, l) :=
    (run_invoke (g := g.recorded) (w := (w, log)) hfits).trans hl
  rw [run_require, run_bind, hi]
  rfl

theorem mem_calls_require {op : Plan A (Patience.Try Fault α)} (hop : op = do return f (← request r))
    (hfits : p.Fits (g.now w)) (message : String) : (w, r) ∈ (p.require message op).run.calls g w := by
  subst hop
  rw [run_require, calls_bind]
  refine List.mem_append_left _ ?_
  rw [calls_invoke hfits, Patience.attempts, calls_bind, calls_bind]
  refine List.mem_append_left _ (List.mem_append_left _ ?_)
  rw [request, calls]
  exact List.mem_cons_self

end Plan

end

end LogRelay
