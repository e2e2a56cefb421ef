import LogRelay.Delivery.Patience

/-!
# What a plan asks and how it ends

A plan is a tree of all that may happen. `Asks` is about every request in the tree. `Ends` is about
one way through it, with the requests that were answered on it. A run on any ground that comes to an
end goes such a way, and the record that a ground can keep of its calls says which.
-/

namespace LogRelay

structure Call (A : Api) where
  request : A.Request
  reply : A.Reply request

namespace Plan

variable {A B : Api} {α β : Type}

/-- Every request that the plan may come to make satisfies `P`. -/
def Asks (P : A.Request → Prop) : Plan A α → Prop
  | done _ => True
  | call r next => P r ∧ ∀ x, (next x).Asks P
  | sleep _ next => next.Asks P
  | clock next => ∀ t, (next t).Asks P
  | draw next => ∀ w, (next w).Asks P
  | note _ next => next.Asks P
  | consult next => ∀ m, (next m).Asks P
  | remember _ next => next.Asks P
  | raise _ => True

/-- The plan may end with `b` after these calls. -/
def Ends : Plan A α → List (Call A) → α → Prop
  | done a, log, b => log = [] ∧ b = a
  | call r next, log, b => ∃ x rest, log = ⟨r, x⟩ :: rest ∧ (next x).Ends rest b
  | sleep _ next, log, b => next.Ends log b
  | clock next, log, b => ∃ t, (next t).Ends log b
  | draw next, log, b => ∃ w, (next w).Ends log b
  | note _ next, log, b => next.Ends log b
  | consult next, log, b => ∃ m, (next m).Ends log b
  | remember _ next, log, b => next.Ends log b
  | raise _, _, _ => False

theorem bind_pure' (p : Plan A α) : p.bind done = p := by
  induction p with
  | done a => rfl
  | raise q => rfl
  | call r next ih => exact congrArg (call r) (funext ih)
  | sleep d next ih => exact congrArg (sleep d) ih
  | clock next ih => exact congrArg clock (funext ih)
  | draw next ih => exact congrArg draw (funext ih)
  | note e next ih => exact congrArg (note e) ih
  | consult next ih => exact congrArg consult (funext ih)
  | remember m next ih => exact congrArg (remember m) ih

theorem bind_assoc' {γ : Type} (p : Plan A α) (f : α → Plan A β) (g : β → Plan A γ) :
    (p.bind f).bind g = p.bind fun a => (f a).bind g := by
  induction p with
  | done a => rfl
  | raise q => rfl
  | call r next ih => exact congrArg (call r) (funext ih)
  | sleep d next ih => exact congrArg (sleep d) ih
  | clock next ih => exact congrArg clock (funext ih)
  | draw next ih => exact congrArg draw (funext ih)
  | note e next ih => exact congrArg (note e) ih
  | consult next ih => exact congrArg consult (funext ih)
  | remember m next ih => exact congrArg (remember m) ih

instance : LawfulMonad (Plan A) :=
  LawfulMonad.mk' _ bind_pure' (fun _ _ => rfl) bind_assoc'

/-! ## Parts of plans -/

section
variable {log : List (Call A)}

@[simp] theorem ends_pure {a b : α} : (pure a : Plan A α).Ends log b ↔ log = [] ∧ b = a := Iff.rfl

@[simp] theorem ends_randomWord {w : UInt32} : (randomWord : Plan A UInt32).Ends log w ↔ log = [] :=
  ⟨fun ⟨_, h⟩ => h.1, fun h => ⟨w, h, rfl⟩⟩

@[simp] theorem ends_log {e : Entry} {u : Unit} : (Plan.log e : Plan A Unit).Ends log u ↔ log = [] :=
  and_iff_left rfl

@[simp] theorem ends_request {r : A.Request} {x : A.Reply r} : (request r).Ends log x ↔ log = [⟨r, x⟩] := by
  constructor
  · intro h
    obtain ⟨y, rest, hl, hr, rfl⟩ := h
    rw [hl, hr]
  · intro h
    exact ⟨x, [], h, rfl, rfl⟩

theorem ends_bind {p : Plan A α} {f : α → Plan A β} {b : β} :
    (p >>= f).Ends log b ↔ ∃ l₁ l₂ a, log = l₁ ++ l₂ ∧ p.Ends l₁ a ∧ (f a).Ends l₂ b := by
  change (p.bind f).Ends log b ↔ _
  induction p generalizing log with
  | done a =>
    constructor
    · intro h
      exact ⟨[], log, a, rfl, ⟨rfl, rfl⟩, h⟩
    · intro h
      obtain ⟨_, _, _, rfl, ⟨rfl, rfl⟩, h⟩ := h
      exact h
  | raise q =>
    constructor
    · exact False.elim
    · intro h
      obtain ⟨_, _, _, _, h, _⟩ := h
      exact h
  | call r next ih =>
    constructor
    · intro h
      obtain ⟨x, rest, rfl, hx⟩ := h
      obtain ⟨l₁, l₂, a, rfl, h₁, h₂⟩ := (ih x).mp hx
      exact ⟨⟨r, x⟩ :: l₁, l₂, a, rfl, ⟨x, l₁, rfl, h₁⟩, h₂⟩
    · intro h
      obtain ⟨_, l₂, a, rfl, ⟨x, l₁, rfl, h₁⟩, h₂⟩ := h
      exact ⟨x, l₁ ++ l₂, rfl, (ih x).mpr ⟨l₁, l₂, a, rfl, h₁, h₂⟩⟩
  | sleep d next ih => exact ih
  | note e next ih => exact ih
  | remember m next ih => exact ih
  | clock next ih | draw next ih | consult next ih =>
    constructor
    · intro h
      obtain ⟨t, ht⟩ := h
      obtain ⟨l₁, l₂, a, hl, h₁, h₂⟩ := (ih t).mp ht
      exact ⟨l₁, l₂, a, hl, ⟨t, h₁⟩, h₂⟩
    · intro h
      obtain ⟨l₁, l₂, a, hl, ⟨t, h₁⟩, h₂⟩ := h
      exact ⟨t, (ih t).mpr ⟨l₁, l₂, a, hl, h₁, h₂⟩⟩

theorem ends_map {p : Plan A α} {f : α → β} {b : β} :
    (do return f (← p)).Ends log b ↔ ∃ a, p.Ends log a ∧ b = f a := by
  rw [ends_bind]
  constructor
  · intro h
    obtain ⟨l, _, a, rfl, ha, rfl, rfl⟩ := h
    exact ⟨a, by rwa [List.append_nil], rfl⟩
  · intro h
    obtain ⟨a, ha, rfl⟩ := h
    exact ⟨log, [], a, (List.append_nil _).symm, ha, rfl, rfl⟩

theorem ends_reply {r : A.Request} {f : A.Reply r → β} {b : β} :
    (do return f (← request r)).Ends log b ↔ ∃ x, log = [⟨r, x⟩] ∧ b = f x := by
  simp only [ends_map, ends_request]

end

section
variable {P : A.Request → Prop}

@[simp] theorem asks_pure (a : α) : (pure a : Plan A α).Asks P := trivial

@[simp] theorem asks_now : (now : Plan A Instant).Asks P := fun _ => trivial

@[simp] theorem asks_pause (d : Duration) : (pause d : Plan A Unit).Asks P := trivial

@[simp] theorem asks_randomWord : (randomWord : Plan A UInt32).Asks P := fun _ => trivial

@[simp] theorem asks_log (e : Entry) : (Plan.log e : Plan A Unit).Asks P := trivial

@[simp] theorem asks_memory : (memory : Plan A (Option String)).Asks P := fun _ => trivial

@[simp] theorem asks_memorize (m : Option String) : (memorize m : Plan A Unit).Asks P := trivial

theorem asks_request {r : A.Request} (h : P r) : (request r : Plan A (A.Reply r)).Asks P :=
  ⟨h, fun _ => trivial⟩

/-- The second plan need only be looked at for what the first one can end with. -/
theorem asks_bind_of_ends {p : Plan A α} {f : α → Plan A β} (hp : p.Asks P)
    (hf : ∀ log a, p.Ends log a → (f a).Asks P) : (p >>= f).Asks P := by
  change (p.bind f).Asks P
  induction p with
  | done a => exact hf [] a ⟨rfl, rfl⟩
  | raise q => trivial
  | call r next ih =>
    refine ⟨hp.1, fun x => ih x (hp.2 x) ?_⟩
    intro log a ha
    exact hf (⟨r, x⟩ :: log) a ⟨x, log, rfl, ha⟩
  | sleep d next ih => exact ih hp hf
  | note e next ih => exact ih hp hf
  | remember m next ih => exact ih hp hf
  | clock next ih | draw next ih | consult next ih =>
    exact fun t => ih t (hp t) fun log a ha => hf log a ⟨t, ha⟩

theorem asks_bind {p : Plan A α} {f : α → Plan A β} (hp : p.Asks P) (hf : ∀ a, (f a).Asks P) :
    (p >>= f).Asks P := asks_bind_of_ends hp fun _ a _ => hf a

theorem asks_reply {r : A.Request} {f : A.Reply r → α} (h : P r) : (do return f (← request r)).Asks P :=
  asks_bind (asks_request h) fun _ => asks_pure _

theorem asks_of_forall {p : Plan A α} (h : ∀ r, P r) : p.Asks P := by
  induction p with
  | done a => trivial
  | raise q => trivial
  | call r next ih => exact ⟨h r, ih⟩
  | sleep d next ih => exact ih
  | note e next ih => exact ih
  | remember m next ih => exact ih
  | clock next ih | draw next ih | consult next ih => exact ih

theorem Asks.mono {Q : A.Request → Prop} {p : Plan A α} (hp : p.Asks P) (h : ∀ r, P r → Q r) : p.Asks Q := by
  induction p with
  | done a => trivial
  | raise q => trivial
  | call r next ih => exact ⟨h r hp.1, fun x => ih x (hp.2 x)⟩
  | sleep d next ih => exact ih hp
  | note e next ih => exact ih hp
  | remember m next ih => exact ih hp
  | clock next ih | draw next ih | consult next ih => exact fun t => ih t (hp t)

theorem Asks.of_ends {p : Plan A α} (hp : p.Asks P) {log : List (Call A)} {a : α} (h : p.Ends log a) :
    ∀ e ∈ log, P e.request := by
  induction p generalizing log with
  | done a => rw [h.1]; simp
  | raise q => exact h.elim
  | call r next ih =>
    obtain ⟨x, rest, rfl, hx⟩ := h
    intro e he
    rw [List.mem_cons] at he
    rcases he with rfl | he
    · exact hp.1
    · exact ih x (hp.2 x) hx e he
  | sleep d next ih => exact ih hp h
  | note e next ih => exact ih hp h
  | remember m next ih => exact ih hp h
  | clock next ih | draw next ih | consult next ih =>
    obtain ⟨t, ht⟩ := h
    exact ih t (hp t) ht

/-- A plan that asks for nothing leaves no trace. -/
theorem ends_bind_of_quiet {p : Plan A α} {f : α → Plan A β} {log : List (Call A)} {b : β}
    (hp : p.Asks fun _ => False) (h : (p >>= f).Ends log b) : ∃ a, p.Ends [] a ∧ (f a).Ends log b := by
  obtain ⟨l, l₂, a, rfl, h₁, h₂⟩ := ends_bind.mp h
  have hl : l = [] := List.eq_nil_iff_forall_not_mem.mpr fun c hc => hp.of_ends h₁ c hc
  subst hl
  exact ⟨a, h₁, h₂⟩

end

/-! ## Attempts and patience -/

section
variable {P : A.Request → Prop} {ε : Type}

theorem asks_attempt_bind {x : Attempt A α} {f : α → Attempt A β} (hx : Asks P x.run)
    (hf : ∀ a, Asks P (f a).run) : Asks P (x >>= f).run := by
  refine asks_bind hx fun r => ?_
  cases r with
  | ok a => exact hf a
  | error e => exact asks_pure _

theorem asks_lift {p : Plan A α} (h : p.Asks P) : Asks P (ExceptT.lift p : Attempt A α).run :=
  asks_bind h fun _ => asks_pure _

theorem asks_attempts {q : Patience} {op : Plan A (Patience.Try ε α)} (h : op.Asks P) (deadline : Instant)
    (tries : Nat) (delay : Duration) : (q.attempts op deadline tries delay).Asks P := by
  induction tries generalizing delay with
  | zero => trivial
  | succ tries ih =>
    refine asks_bind h fun r => ?_
    split
    · exact asks_pure _
    · exact asks_pure _
    · refine asks_bind asks_now fun t => ?_
      split
      · exact asks_pure _
      · exact asks_bind (asks_pause _) fun _ => ih _

theorem asks_invoke (q : Patience) {op : Plan A (Patience.Try ε α)} (h : op.Asks P) : (q.invoke op).Asks P := by
  refine asks_bind asks_now fun start => ?_
  split
  · exact asks_attempts h _ _ _
  · trivial

theorem asks_require (q : Patience) (message : String) {op : Plan A (Patience.Try Fault α)} (h : op.Asks P) :
    Asks P (q.require message op).run := by
  refine asks_bind (asks_invoke q h) fun r => ?_
  split <;> exact asks_pure _

def Tried (op : Plan A (Patience.Try ε α)) (log : List (Call A)) (r : Patience.Try ε α) : Prop :=
  ∃ (before : List (List (Call A))) (last : List (Call A)), log = before.flatten ++ last ∧
    (∀ l ∈ before, op.Ends l (.ok none)) ∧ (op.Ends last r ∨ last = [] ∧ r = .ok none)

theorem ends_attempts {q : Patience} {op : Plan A (Patience.Try ε α)} {deadline : Instant} {tries : Nat}
    {delay : Duration} {log : List (Call A)} {r : Patience.Try ε α}
    (h : (q.attempts op deadline tries delay).Ends log r) : Tried op log r := by
  induction tries generalizing delay log with
  | zero => exact ⟨[], [], h.1, by simp, Or.inr ⟨rfl, h.2⟩⟩
  | succ tries ih =>
    obtain ⟨l₁, l₂, x, rfl, h₁, h₂⟩ := ends_bind.mp h
    split at h₂
    · obtain ⟨rfl, rfl⟩ := ends_pure.mp h₂
      exact ⟨[], l₁, by simp, by simp, Or.inl h₁⟩
    · obtain ⟨rfl, rfl⟩ := ends_pure.mp h₂
      exact ⟨[], l₁, by simp, by simp, Or.inl h₁⟩
    · obtain ⟨t, -, h₃⟩ := ends_bind_of_quiet asks_now h₂
      split at h₃
      · obtain ⟨rfl, rfl⟩ := ends_pure.mp h₃
        exact ⟨[], l₁, by simp, by simp, Or.inl h₁⟩
      · obtain ⟨u, -, h₄⟩ := ends_bind_of_quiet (asks_pause _) h₃
        obtain ⟨before, last, rfl, hb, hl⟩ := ih h₄
        -- this try asked for another one and joins those before the last
        refine ⟨l₁ :: before, last, by simp, ?_, hl⟩
        intro l hm
        rw [List.mem_cons] at hm
        rcases hm with rfl | hm
        · exact h₁
        · exact hb l hm

theorem ends_invoke {q : Patience} {op : Plan A (Patience.Try ε α)} {log : List (Call A)}
    {r : Patience.Try ε α} (h : (q.invoke op).Ends log r) : Tried op log r := by
  obtain ⟨t, -, ha⟩ := ends_bind_of_quiet asks_now h
  split at ha
  · exact ends_attempts ha
  · exact ha.elim

end

/-! ## Final replies -/

section
variable {final : Call A → Prop} {ε : Type}

def StopsAt (final : Call A → Prop) : Plan A α → Prop
  | done _ => True
  | call r next => ∀ x, (final ⟨r, x⟩ → (next x).Asks fun _ => False) ∧ (next x).StopsAt final
  | sleep _ next => next.StopsAt final
  | clock next => ∀ t, (next t).StopsAt final
  | draw next => ∀ w, (next w).StopsAt final
  | note _ next => next.StopsAt final
  | consult next => ∀ m, (next m).StopsAt final
  | remember _ next => next.StopsAt final
  | raise _ => True

theorem stopsAt_of_asks {p : Plan A α} (h : p.Asks fun r => ∀ x, ¬ final ⟨r, x⟩) : p.StopsAt final := by
  induction p with
  | done a => trivial
  | raise q => trivial
  | call r next ih => exact fun x => ⟨fun hx => absurd hx (h.1 x), ih x (h.2 x)⟩
  | sleep d next ih => exact ih h
  | note e next ih => exact ih h
  | remember m next ih => exact ih h
  | clock next ih | draw next ih | consult next ih => exact fun t => ih t (h t)

theorem stopsAt_request (r : A.Request) : (request r).StopsAt final := fun _ => ⟨fun _ => trivial, trivial⟩

/-- After a final reply in the first plan, the second must not ask for anything. -/
theorem stopsAt_bind {p : Plan A α} {f : α → Plan A β} (hp : p.StopsAt final) (hf : ∀ a, (f a).StopsAt final)
    (hstop : ∀ log a, p.Ends log a → (∃ c ∈ log, final c) → (f a).Asks fun _ => False) :
    (p >>= f).StopsAt final := by
  change (p.bind f).StopsAt final
  induction p with
  | done a => exact hf a
  | raise q => trivial
  | call r next ih =>
    intro x
    obtain ⟨hx, hnext⟩ := hp x
    refine ⟨fun hfin => ?_, ih x hnext fun log a ha ⟨c, hc, hcf⟩ =>
      hstop (⟨r, x⟩ :: log) a ⟨x, log, rfl, ha⟩ ⟨c, List.mem_cons_of_mem _ hc, hcf⟩⟩
    exact asks_bind_of_ends (hx hfin) fun log a ha =>
      hstop (⟨r, x⟩ :: log) a ⟨x, log, rfl, ha⟩ ⟨_, List.mem_cons_self, hfin⟩
  | sleep d next ih => exact ih hp hstop
  | note e next ih => exact ih hp hstop
  | remember m next ih => exact ih hp hstop
  | clock next ih | draw next ih | consult next ih =>
    exact fun t => ih t (hp t) fun log a ha => hstop log a ⟨t, ha⟩

theorem stopsAt_bind_of_quiet {p : Plan A α} {f : α → Plan A β} (hp : p.Asks fun _ => False)
    (hf : ∀ a, (f a).StopsAt final) : (p >>= f).StopsAt final :=
  stopsAt_bind (stopsAt_of_asks (hp.mono fun _ h => h.elim)) hf fun _ _ ha ⟨c, hc, _⟩ => (hp.of_ends ha c hc).elim

variable {op : Plan A (Patience.Try ε α)} {q : Patience}
  (hready : ∀ log r, op.Ends log r → (∃ c ∈ log, final c) → r ≠ .ok none)
include hready

theorem stopsAt_attempts (hop : op.StopsAt final) (deadline : Instant) (tries : Nat) (delay : Duration) :
    (q.attempts op deadline tries delay).StopsAt final := by
  induction tries generalizing delay with
  | zero => trivial
  | succ tries ih =>
    refine stopsAt_bind hop (fun r => ?_) fun log r hr hfin => ?_
    · split
      · exact stopsAt_of_asks (asks_pure _)
      · exact stopsAt_of_asks (asks_pure _)
      · refine stopsAt_bind_of_quiet asks_now fun t => ?_
        split
        · exact stopsAt_of_asks (asks_pure _)
        · exact stopsAt_bind_of_quiet (asks_pause _) fun _ => ih _
    · split
      · exact asks_pure _
      · exact asks_pure _
      · exact absurd rfl (hready log _ hr hfin)

theorem stopsAt_invoke (hop : op.StopsAt final) : (q.invoke op).StopsAt final := by
  refine stopsAt_bind_of_quiet asks_now fun start => ?_
  split
  · exact stopsAt_attempts hready hop _ _ _
  · trivial

theorem Tried.ends_of_final {log : List (Call A)} {r : Patience.Try ε α} (h : Tried op log r)
    (hfin : ∃ c ∈ log, final c) : ∃ last, op.Ends last r ∧ ∃ c ∈ last, final c := by
  obtain ⟨before, last, rfl, hb, hl⟩ := h
  obtain ⟨c, hc, hcf⟩ := hfin
  rw [List.mem_append, List.mem_flatten] at hc
  rcases hc with ⟨l, hm, hc⟩ | hc
  · exact absurd rfl (hready l _ (hb l hm) ⟨c, hc, hcf⟩)
  · rcases hl with hl | ⟨rfl, -⟩
    · exact ⟨last, hl, c, hc, hcf⟩
    · cases hc

end

/-! ## Plans against a larger API -/

section
variable {emb : A.Request → B.Request} {back : ∀ r, B.Reply (emb r) → A.Reply r}

theorem asks_within {P : B.Request → Prop} {p : Plan A α} (h : p.Asks fun r => P (emb r)) :
    (p.within emb back).Asks P := by
  induction p with
  | done a => trivial
  | raise q => trivial
  | call r next ih => exact ⟨h.1, fun x => ih _ (h.2 _)⟩
  | sleep d next ih => exact ih h
  | note e next ih => exact ih h
  | remember m next ih => exact ih h
  | clock next ih | draw next ih | consult next ih => exact fun t => ih t (h t)

theorem ends_within {p : Plan A α} {log : List (Call B)} {a : α} (h : (p.within emb back).Ends log a) :
    ∃ l : List ((r : A.Request) × B.Reply (emb r)), log = l.map (fun x => ⟨emb x.1, x.2⟩) ∧
      p.Ends (l.map fun x => ⟨x.1, back x.1 x.2⟩) a := by
  induction p generalizing log with
  | done a => exact ⟨[], h.1, rfl, h.2⟩
  | raise q => exact h.elim
  | call r next ih =>
    obtain ⟨x, rest, rfl, hx⟩ := h
    obtain ⟨l, rfl, hl⟩ := ih (back r x) hx
    exact ⟨⟨r, x⟩ :: l, rfl, back r x, _, rfl, hl⟩
  | sleep d next ih => exact ih h
  | note e next ih => exact ih h
  | remember m next ih => exact ih h
  | clock next ih | draw next ih | consult next ih =>
    obtain ⟨t, ht⟩ := h
    obtain ⟨l, hlog, hl⟩ := ih t ht
    exact ⟨l, hlog, t, hl⟩

end

end Plan

/-! ## Runs -/

namespace Ground

variable {A : Api} {W : Type}

/-- The same ground, with a record of the requests that it answered. -/
def recorded (g : Ground A W) : Ground A (W × List (Call A)) where
  now w := g.now w.1
  elapse d w := (g.elapse d w.1, w.2)
  note e w := (g.note e w.1, w.2)
  consult w := g.consult w.1
  remember m w := (g.remember m w.1, w.2)
  draw w := ((g.draw w.1).1, (g.draw w.1).2, w.2)
  call r w := match g.call r w.1 with
    | (.ok x, w') => (.ok x, w', w.2 ++ [⟨r, x⟩])
    | (.error p, w') => (.error p, w', w.2)

end Ground

namespace Plan

variable {A : Api} {W α : Type} {g : Ground A W}

/-- Keeping a record changes nothing, and what is recorded is one way through the plan. -/
theorem run_recorded {p : Plan A α} {w w' : W} {a : α} (h : p.run g w = (.ok a, w')) (before : List (Call A)) :
    ∃ log, p.run g.recorded (w, before) = (.ok a, w', before ++ log) ∧ p.Ends log a ∧
      ∀ e ∈ log, ∃ v v', g.call e.request v = (.ok e.reply, v') := by
  -- the record grows at its end, so the induction is for any record to begin with
  induction p generalizing w before with
  | done b =>
    simp only [run, Prod.mk.injEq, Except.ok.injEq] at h
    obtain ⟨rfl, rfl⟩ := h
    exact ⟨[], by simp [run], ⟨rfl, rfl⟩, by simp⟩
  | raise q => cases h
  | call r next ih =>
    unfold run at h
    cases hc : g.call r w with
    | mk result v =>
      rw [hc] at h
      cases result with
      | error q => cases h
      | ok x =>
        obtain ⟨log, hr, he, hl⟩ := ih x h (before ++ [⟨r, x⟩])
        have hg : g.recorded.call r (w, before) = (.ok x, v, before ++ [⟨r, x⟩]) := by
          simp only [Ground.recorded, hc]
        refine ⟨⟨r, x⟩ :: log, ?_, ⟨x, log, rfl, he⟩, ?_⟩
        · unfold run
          rw [hg]
          simp only [hr, List.append_assoc, List.singleton_append]
        · intro e hm
          rw [List.mem_cons] at hm
          rcases hm with rfl | hm
          · exact ⟨w, v, hc⟩
          · exact hl e hm
  | sleep d next ih => exact ih h before
  | note e next ih => exact ih h before
  | remember m next ih => exact ih h before
  | clock next ih =>
    obtain ⟨log, hr, he, hl⟩ := ih (g.now w) h before
    exact ⟨log, hr, ⟨_, he⟩, hl⟩
  | draw next ih =>
    obtain ⟨log, hr, he, hl⟩ := ih (g.draw w).1 h before
    exact ⟨log, hr, ⟨_, he⟩, hl⟩
  | consult next ih =>
    obtain ⟨log, hr, he, hl⟩ := ih (g.consult w) h before
    exact ⟨log, hr, ⟨_, he⟩, hl⟩

end Plan

end LogRelay
