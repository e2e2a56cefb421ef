import LogRelay.Proofs.Building
import LogRelay.Proofs.Draining

/-!
# The greedy partition of a queue

A batch that nothing joins from outside is the longest one at the front of the backlog that the limits
allow, whether or not they would allow a longer one again. So the batches of a writer that is stopped,
and gets all of them delivered, are determined by what it has when it is stopped.
-/

namespace LogRelay

namespace Measure

/-- Each batch is taken from the front of what is left, and grows until the next message would be beyond
the limits. -/
inductive IsGreedy (μ : Measure) : List Message → List (List Message) → Prop
  | nil : IsGreedy μ [] []
  | cons {batch rest batches} (hne : batch ≠ []) (hgrows : μ.Grows batch) (hstops : μ.Stops batch rest)
      (h : IsGreedy μ rest batches) : IsGreedy μ (batch ++ rest) (batch :: batches)

variable {μ : Measure} {ms batch batch' rest rest' : List Message} {bs bs' : List (List Message)}

theorem IsGreedy.flatten (h : μ.IsGreedy ms bs) : bs.flatten = ms := by
  induction h with
  | nil => rfl
  | cons _ _ _ _ ih => rw [List.flatten_cons, ih]

theorem Stops.not_grows {m : Message} {more : List Message} (hne : batch ≠ []) (hstops : μ.Stops batch (m :: rest)) :
    ¬ μ.Grows (batch ++ m :: more) := by
  intro hgrows
  have hwithin := hgrows batch.length (List.length_pos_iff.mpr hne) (by simp)
  rw [List.take_length_add_append, List.take_succ_cons, List.take_zero, totalWeight_append, totalWeight_singleton,
    hstops m rfl] at hwithin
  cases hwithin

theorem batch_unique (hne : batch ≠ []) (hne' : batch' ≠ []) (hgrows : μ.Grows batch) (hgrows' : μ.Grows batch')
    (hstops : μ.Stops batch rest) (hstops' : μ.Stops batch' rest') (h : batch ++ rest = batch' ++ rest') :
    batch = batch' ∧ rest = rest' := by
  rcases List.append_eq_append_iff.mp h with ⟨more, rfl, rfl⟩ | ⟨more, rfl, rfl⟩
  · cases more with
    | nil => simp
    | cons m more => exact absurd hgrows' (hstops.not_grows hne)
  · cases more with
    | nil => simp
    | cons m more => exact absurd hgrows (hstops'.not_grows hne')

theorem IsGreedy.unique (h : μ.IsGreedy ms bs) (h' : μ.IsGreedy ms bs') : bs = bs' := by
  induction h generalizing bs' with
  | nil =>
    generalize hms : ([] : List Message) = ms at h'
    cases h' with
    | nil => rfl
    | cons hne _ _ _ => exact absurd (List.append_eq_nil_iff.mp hms.symm).1 hne
  | @cons batch rest batches hne hgrows hstops _ ih =>
    generalize hms : batch ++ rest = ms at h'
    cases h' with
    | nil => exact absurd (List.append_eq_nil_iff.mp hms).1 hne
    | cons hne' hgrows' hstops' h' =>
      obtain ⟨rfl, rfl⟩ := batch_unique hne hne' hgrows hgrows' hstops hstops' hms
      rw [ih h']

end Measure

namespace Writer

variable {μ : Measure} {now : Instant} {w : Writer} {r : Writer × List Notice} {bs : List (List Message)}

def Remaining (μ : Measure) (w : Writer) (bs : List (List Message)) : Prop :=
  match w.phase with
  | .sending batch _ => ∃ rest, bs = batch :: rest ∧ μ.IsGreedy w.backlog.toList rest
  | _ => μ.IsGreedy (w.held ++ w.backlog.toList) bs

def NotSending (w : Writer) : Prop := ∀ batch last, w.phase ≠ .sending batch last

theorem remaining_of_sending {batch : List Message} {last : Bool} (hp : w.phase = .sending batch last) :
    w.Remaining μ bs ↔ ∃ rest, bs = batch :: rest ∧ μ.IsGreedy w.backlog.toList rest := by
  rw [Remaining, hp]

theorem NotSending.remaining (h : w.NotSending) :
    w.Remaining μ bs ↔ μ.IsGreedy (w.held ++ w.backlog.toList) bs := by
  unfold Remaining
  split
  · rename_i batch last hp
    exact absurd hp (h batch last)
  · rfl

theorem notSending_of_isBare (h : w.isBare = true) : w.NotSending := by
  intro batch last hp
  simp [isBare, hp] at h

theorem Move.notSending (hm : w.Move μ now r) : w.NotSending := by
  intro batch last hp
  cases hm <;> simp_all

/-- What moves by itself, with no panic, stays in the writer's hands and in order. -/
theorem Move.all (ht : μ.Total) (hm : w.Move μ now r) :
    r.1.held ++ r.1.backlog.toList = w.held ++ w.backlog.toList := by
  obtain ⟨taken, hq, hh | ⟨-, hnot⟩⟩ := hm.advances.taken
  · rw [hq, hh, List.append_assoc]
  · exact absurd ht hnot

theorem Move.remaining (ht : μ.Total) (hm : w.Move μ now r) (hc : w.phase.Counted μ) (h : r.1.Remaining μ bs) :
    w.Remaining μ bs := by
  rw [hm.notSending.remaining, ← hm.all ht]
  by_cases hsending : ∃ batch last, r.1.phase = .sending batch last
  · obtain ⟨batch, last, hp⟩ := hsending
    obtain ⟨rest, rfl, hrest⟩ := (remaining_of_sending hp).mp h
    have hcounted : (Phase.sending batch last).Counted μ := hp ▸ hm.counted hc
    have hheld : r.1.held = batch := by simp [held, hp]
    rw [hheld]
    exact .cons hcounted.1 hcounted.2 (hm.stops hc hp) hrest
  · exact (NotSending.remaining fun batch last hp => hsending ⟨batch, last, hp⟩).mp h

theorem Keeps.remaining (hk : w.Keeps r) (hq : r.1.backlog.toList = w.backlog.toList) :
    r.1.Remaining μ bs ↔ w.Remaining μ bs := by
  rcases hk.phase with hp | ⟨hb, hb'⟩
  · unfold Remaining
    rw [hp, hq, hk.held]
  · rw [(notSending_of_isBare hb).remaining, (notSending_of_isBare hb').remaining, hk.held, hq]

/-- The batches that are left before an event are those that are left after it, with the one that it
answers. -/
theorem Change.remaining {e : Event} (ht : μ.Total) (hchange : Change μ now w r e) (hc : w.phase.Counted μ)
    (hadd : e.isAdd = false) (havailable : ∀ result, e = .checked result → result = .ok (.ok ()))
    (hsuccess : ∀ result, e = .sent result → result = .ok (.ok [])) (h : r.1.Remaining μ bs) :
    w.Remaining μ (if e.isSent then w.held :: bs else bs) := by
  cases hchange with
  | ignore _ _ _ | enqueue _ _ _ => cases hadd
  | @call e he hk hq =>
    have hsent : e.isSent = false := by cases e <;> first | rfl | cases he
    simpa [hsent] using (hk.remaining hq).mp h
  | go hm => exact hm.remaining ht hc h
  | clear _ _ => cases havailable _ rfl
  | check _ hk hq | close hk hq => exact (hk.remaining (congrArg Backlog.toList hq)).mp h
  | @settle batch last failed hp hs =>
    cases hsuccess _ rfl
    have hheld : w.held = batch := by simp [held, hp]
    have hq := hs.backlog
    rw [Ledger.retained_nil, List.nil_append] at hq
    rw [(notSending_of_isBare hs.bare).remaining, held_of_isBare hs.bare, List.nil_append, hq] at h
    exact (remaining_of_sending hp).mpr ⟨bs, by simp [Event.isSent, hheld], h⟩
  | giveBack _ hr _ => exact absurd (hsuccess _ rfl) (hr [])

end Writer

namespace Course

variable {μ : Measure} {now : Instant} {c c' : Course} {x : Moment} {es : List Moment} {batch : List Message}
  {last : Bool} {starts : Nat}

/-! ## One batch -/

def Finishes (μ : Measure) (now : Instant) (c : Course) (last : Bool) : Prop :=
  ∃ es c' batch, (∀ x ∈ es, x.event = .go ∧ now ≤ x.now) ∧ es.Pairwise (·.now ≤ ·.now) ∧ c.run μ es = some c' ∧
    Throughout μ (fun c x => c.writer.isBuilding = true ∧ x.event.isSent = false) es c ∧
    c'.writer.phase = .sending batch last

theorem finishes_of_sending (hp : c.writer.phase = .sending batch last) : Finishes μ now c last :=
  ⟨[], c, batch, by simp, .nil, rfl, trivial, hp⟩

theorem finishes_of_go {now' : Instant} {w' : Writer} {ns : List Notice} (hb : c.writer.isBuilding = true)
    (hle : now ≤ now') (hn : c.writer.next μ now' = .go w' ns)
    (h : ∀ c', c'.writer = w' → Finishes μ now' c' last) : Finishes μ now c last := by
  have hx : ∃ c', c.step μ ⟨now', ⟨0⟩, .go⟩ = some c' ∧ c'.writer = w' := by
    simp [step, Writer.respond, hn]
  obtain ⟨c₁, hx, hw⟩ := hx
  obtain ⟨es, c', batch, hes, hsorted, hrun, hbuilding, hp⟩ := h c₁ hw
  refine ⟨⟨now', ⟨0⟩, .go⟩ :: es, c', batch, ?_, ?_, Option.bind_eq_some_iff.mpr ⟨c₁, hx, hrun⟩, ⟨⟨hb, rfl⟩, ?_⟩, hp⟩
  · intro y hy
    rcases List.mem_cons.mp hy with rfl | hy
    · exact ⟨rfl, hle⟩
    · exact ⟨(hes y hy).1, Nat.le_trans hle (hes y hy).2⟩
  · exact List.pairwise_cons.mpr ⟨fun y hy => (hes y hy).2, hsorted⟩
  · intro c₂ hx₂
    rw [hx, Option.some.injEq] at hx₂
    exact hx₂ ▸ hbuilding

theorem finishes_of_exhausted {b : Batch} {limit : Instant} (hp : c.writer.phase = .collecting b limit last)
    (he : c.writer.backlog.isEmpty = true) : Finishes μ now c last := by
  have hb : c.writer.isBuilding = true := by simp [Writer.isBuilding, hp]
  cases hi : c.writer.backlog.interrupted with
  | true =>
    exact finishes_of_go hb (Nat.le_refl now) (Writer.next_cut hp he hi) fun c' hw => finishes_of_sending (by rw [hw])
  | false =>
    refine finishes_of_go hb (Nat.le_max_left now limit)
      (Writer.next_lapse hp he hi (Nat.le_max_right now limit)) fun c' hw => ?_
    exact finishes_of_sending (by rw [hw])

theorem finishes_of_collecting (ht : μ.Total) {b : Batch} {limit : Instant}
    (hp : c.writer.phase = .collecting b limit last) : Finishes μ now c last := by
  cases he : c.writer.backlog.isEmpty with
  | true => exact finishes_of_exhausted hp he
  | false =>
    cases hf : μ.fill b.bytes b.messages.length c.writer.backlog.toList with
    | error e => exact absurd ht (Measure.fill_error hf).2
    | ok f =>
      have hb : c.writer.isBuilding = true := by simp [Writer.isBuilding, hp]
      refine finishes_of_go hb (Nat.le_refl now) (Writer.next_fill hp he hf) fun c' hw => ?_
      cases hfull : f.full with
      | true =>
        have hp' : c'.writer.phase = .sending (b.messages ++ f.taken) last := by rw [hw]; simp [hfull]
        exact finishes_of_sending hp'
      | false =>
        have hp' : c'.writer.phase = .collecting ⟨b.messages ++ f.taken, f.bytes⟩ limit last := by
          rw [hw]; simp [hfull]
        refine finishes_of_exhausted hp' ?_
        rw [hw, Backlog.isEmpty_iff, Backlog.toList_withMessages, Measure.fill_left hf hfull]

theorem finishes_of_waiting (ht : μ.Total) {limit : Option Instant} (hp : c.writer.phase = .waiting limit last)
    (hq : c.writer.backlog.toList ≠ []) : Finishes μ now c last := by
  cases hpop : c.writer.backlog.pop? with
  | none => exact absurd (Backlog.pop?_eq_none hpop) hq
  | some mq =>
    obtain ⟨bytes, hbytes⟩ := ht.size mq.1
    have hb : c.writer.isBuilding = true := by simp [Writer.isBuilding, hp]
    exact finishes_of_go hb (Nat.le_refl now) (Writer.next_begin hp hpop hbytes) fun c' hw =>
      finishes_of_collecting ht (by rw [hw])

/-- What is built of a queue that nothing joins. -/
theorem Builds.greedy (h : Builds μ c es c' batch last) (hadd : ∀ x ∈ es, x.event.isAdd = false) :
    batch ≠ [] ∧ batch ++ c'.writer.backlog.toList = c.writer.backlog.toList ∧ μ.Grows batch ∧
      μ.Stops batch c'.writer.backlog.toList := by
  obtain ⟨limit, hbegun⟩ := h.begun
  obtain ⟨-, hall, hstops⟩ : c'.writer.phase.Counted μ ∧
      c'.writer.held ++ c'.writer.backlog.toList = c.writer.backlog.toList ∧
      ∀ batch last, c'.writer.phase = .sending batch last → μ.Stops batch c'.writer.backlog.toList := by
    refine h.induct (P := fun c' => c'.writer.phase.Counted μ ∧
      c'.writer.held ++ c'.writer.backlog.toList = c.writer.backlog.toList ∧
      ∀ batch last, c'.writer.phase = .sending batch last → μ.Stops batch c'.writer.backlog.toList)
      (fun x hx c₁ c₂ hstep hsent hb₁ hb₂ hP => ?_) ?_
    · obtain ⟨hc, hall, hstops⟩ := hP
      obtain ⟨r, hr, hw, -⟩ := step_respond hstep
      refine ⟨step_counted hstep hc, ?_⟩
      rw [hw] at hb₂ ⊢
      rcases Writer.respond_building hb₁ (hadd x hx) hsent hr with hm | ⟨hk, hq⟩
      · exact ⟨(hm.builds hb₂).2.trans hall, fun batch last hp => hm.stops hc hp⟩
      · refine ⟨by rw [hk.held, hq, hall], fun batch last hp => ?_⟩
        rcases hk.phase with hp' | ⟨-, hb'⟩
        · rw [hq]
          exact hstops batch last (hp'.symm.trans hp)
        · exact absurd hp (Writer.notSending_of_isBare hb' batch last)
    · rw [hbegun]
      exact ⟨trivial, by simp [Writer.held, hbegun], fun batch last hp => by cases hp⟩
  have hcounted : (Phase.sending batch last).Counted μ := h.sending ▸ h.counted
  have hheld : c'.writer.held = batch := by simp [Writer.held, h.sending]
  rw [hheld] at hall
  exact ⟨hcounted.1, hall, hcounted.2, hstops batch last h.sending⟩

/-! ## All batches -/

/-- The batches that were answered, in order. -/
def batches (μ : Measure) : List Moment → Course → List (List Message)
  | [], _ => []
  | x :: es, c =>
    let rest := ((c.step μ x).map (batches μ es)).getD []
    if x.event.isSent then c.writer.held :: rest else rest

theorem batches_cons (h : c.step μ x = some c') :
    batches μ (x :: es) c =
      if x.event.isSent then c.writer.held :: batches μ es c' else batches μ es c' := by
  simp [batches, h]

theorem delivers_of_success (hsuccess : ∀ y ∈ es, ∀ result, y.event = .sent result → result = .ok (.ok []))
    (hc : c.writer.phase.Counted μ) (h : c.run μ es = some c') : Throughout μ Delivers es c := by
  induction es generalizing c with
  | nil => trivial
  | cons x es ih =>
    obtain ⟨c₁, h₁, h₂⟩ := run_cons h
    refine ⟨fun result he => ?_, fun c₂ hx => ?_⟩
    · obtain rfl := hsuccess x (by simp) result he
      obtain ⟨r, hr, -⟩ := step_respond h₁
      rw [he] at hr
      obtain ⟨batch, last, hp, -⟩ := Writer.respond_sent hr
      rw [hp] at hc
      have hheld : c.writer.held = batch := by simp [Writer.held, hp]
      rw [hheld]
      exact ⟨[], rfl, 0, List.length_pos_iff.mpr hc.1, List.not_mem_nil⟩
    · rw [h₁, Option.some.injEq] at hx
      subst hx
      exact ih (fun y hy => hsuccess y (List.mem_cons_of_mem x hy)) (step_counted h₁ hc) h₂

theorem Draining.remaining (ht : μ.Total) (h : Draining μ starts es c) (hc : c.writer.phase.Counted μ)
    (hsuccess : ∀ y ∈ es, ∀ result, y.event = .sent result → result = .ok (.ok []))
    (hrun : c.run μ es = some c') (hover : c'.writer.IsOver) : c.writer.Remaining μ (batches μ es c) := by
  induction es generalizing c starts with
  | nil =>
    rw [run, Option.some.injEq] at hrun
    subst hrun
    have hempty : c.writer.backlog.toList = [] := (Backlog.isEmpty_iff _).mp (h.thorough (Or.inr hover.1))
    rw [(Writer.notSending_of_isBare hover.bare).remaining, Writer.held_of_isBare hover.bare, hempty]
    exact .nil
  | cons x es ih =>
    obtain ⟨c₁, h₁, h₂⟩ := run_cons hrun
    obtain ⟨r, hr, hw, -⟩ := step_respond h₁
    have hrest := ih (h.step ht h₁).1 (step_counted h₁ hc) (fun y hy => hsuccess y (List.mem_cons_of_mem x hy)) h₂
    rw [hw] at hrest
    rw [batches_cons h₁]
    exact (Writer.change_of_respond hr).remaining ht hc (h.quiet x (by simp)) (h.available x (by simp))
      (hsuccess x (by simp)) hrest

section
variable {s : Settings} {limit : Nat} {d : Diagnostics} {before after : List Moment} {c₀ : Course}

theorem Shutdown.remaining (ht : μ.Total) (h : Shutdown μ (new s limit d) before x after c₀ c)
    (hready : s.synchronous = true → c₀.writer.initialized = true)
    (havailable : ∀ y ∈ before ++ after, ∀ result, y.event = .checked result → result = .ok (.ok ()))
    (hsuccess : ∀ y ∈ after, ∀ result, y.event = .sent result → result = .ok (.ok [])) :
    after.countP (·.event.isStep) ≤ 5 * c₀.writer.pending + 10 ∧
      (c.writer.IsOver → c₀.writer.Remaining μ (batches μ (x :: after) c₀)) := by
  have hc₀ : c₀.writer.phase.Counted μ := run_phase_counted h.past trivial
  have hsent : ∀ y ∈ x :: after, ∀ result, y.event = .sent result → result = .ok (.ok []) := by
    intro y hy result he
    rcases List.mem_cons.mp hy with rfl | hy
    · rw [h.stop] at he
      cases he
    · exact hsuccess y hy result he
  obtain ⟨c₁, h₁, h₂, -, hdraining, hsteps⟩ := h.draining ht hready havailable (delivers_of_success hsent hc₀ h.future)
  refine ⟨hsteps, fun hover => ?_⟩
  have hrest := hdraining.remaining ht (step_counted h₁ hc₀) hsuccess h₂ hover
  obtain ⟨r, hr, hw, -⟩ := step_respond h₁
  rw [hw] at hrest
  rw [batches_cons h₁]
  exact (Writer.change_of_respond hr).remaining ht hc₀ (by rw [h.stop]; rfl) (by simp [h.stop]) (hsent x (by simp)) hrest

end

/-- A writer that is about to take a message off a queue that has one sends a batch in time. If nothing
joins the queue meanwhile, the batch is the greedy one: it is not empty, it has left the rest of the queue
behind, each message after its first was within the limits, and the next one would not be. And a writer
that is stopped, and has every batch delivered, comes to its end with just the greedy partition of what
it had: after the batch that was with the destination, if there was one. -/
theorem batches_greedy (ht : μ.Total) :
    (∀ c limit last now, c.writer.phase = .waiting limit last → c.writer.backlog.toList ≠ [] →
      ∃ es c' batch, (∀ x ∈ es, x.event = .go ∧ now ≤ x.now) ∧ es.Pairwise (·.now ≤ ·.now) ∧
        Builds μ c es c' batch last) ∧
    (∀ c es c' batch last, Builds μ c es c' batch last → (∀ x ∈ es, x.event.isAdd = false) →
      batch ≠ [] ∧ batch ++ c'.writer.backlog.toList = c.writer.backlog.toList ∧ μ.Grows batch ∧
        μ.Stops batch c'.writer.backlog.toList) ∧
    ∀ s limit d before x after c₀ c, Shutdown μ (new s limit d) before x after c₀ c →
      (s.synchronous = true → c₀.writer.initialized = true) →
      (∀ y ∈ before ++ after, ∀ result, y.event = .checked result → result = .ok (.ok ())) →
      (∀ y ∈ after, ∀ result, y.event = .sent result → result = .ok (.ok [])) →
      after.countP (·.event.isStep) ≤ 5 * c₀.writer.pending + 10 ∧
      ((s.synchronous = false → (before ++ after).countP (·.event.isStart) = 1) →
        c.writer.IsOver ∨ ∃ t, c.writer.GoesOn μ t) ∧
      (c.writer.IsOver →
        (batches μ (x :: after) c₀).flatten = c₀.writer.held ++ c₀.writer.backlog.toList ∧
        (c₀.writer.NotSending → ∀ bs,
          μ.IsGreedy (c₀.writer.held ++ c₀.writer.backlog.toList) bs ↔ bs = batches μ (x :: after) c₀) ∧
        ∀ batch last, c₀.writer.phase = .sending batch last → ∀ bs,
          μ.IsGreedy c₀.writer.backlog.toList bs ↔ batch :: bs = batches μ (x :: after) c₀) := by
  refine ⟨fun c limit last now hp hq => ?_, fun c es c' batch last h hadd => h.greedy hadd, ?_⟩
  · obtain ⟨es, c', batch, hes, hsorted, hrun, hbuilding, hsending⟩ : Finishes μ now c last :=
      finishes_of_waiting ht hp hq
    exact ⟨es, c', batch, hes, hsorted, ⟨limit, hp⟩, hq, hrun, hbuilding, hsending⟩
  · intro s limit d before x after c₀ c h hready havailable hsuccess
    obtain ⟨hsteps, hremaining⟩ := h.remaining ht hready havailable hsuccess
    have hcalm : ∀ y ∈ before ++ after, ∀ p, y.event ≠ .checked (.error p) := by
      intro y hy p he
      cases havailable y hy _ he
    refine ⟨hsteps, h.over_or_goes_on ht hcalm, fun hover => ?_⟩
    have hrest := hremaining hover
    by_cases hsending : ∃ batch last, c₀.writer.phase = .sending batch last
    · obtain ⟨batch, last, hp⟩ := hsending
      obtain ⟨rest, hbatches, hgreedy⟩ := (Writer.remaining_of_sending hp).mp hrest
      have hheld : c₀.writer.held = batch := by simp [Writer.held, hp]
      rw [hbatches, hheld, List.flatten_cons, hgreedy.flatten]
      refine ⟨rfl, fun hnot => absurd hp (hnot batch last), fun batch' last' hp' bs => ?_⟩
      rw [hp] at hp'
      cases hp'
      rw [List.cons.injEq, eq_self, true_and]
      exact ⟨fun hbs => hbs.unique hgreedy, fun hbs => hbs ▸ hgreedy⟩
    · have hnot : c₀.writer.NotSending := fun batch last hp => hsending ⟨batch, last, hp⟩
      have hgreedy := hnot.remaining.mp hrest
      exact ⟨hgreedy.flatten, fun _ bs => ⟨fun hbs => hbs.unique hgreedy, fun hbs => hbs ▸ hgreedy⟩,
        fun batch last hp => absurd hp (hnot batch last)⟩

def laden : List Moment :=
  [.start, .checked (.ok (.ok ())), .go, .add ⟨⟨0⟩, "a"⟩, .add ⟨⟨0⟩, "b"⟩, .add ⟨⟨0⟩, "c"⟩, .add ⟨⟨0⟩, "dddddddd"⟩,
    .add ⟨⟨0⟩, "e"⟩].map (⟨0, ⟨0⟩, ·⟩)

def unladen : List Moment :=
  [.go, .go, .sent (.ok (.ok [])), .go, .go, .go, .sent (.ok (.ok [])), .go, .go, .go, .sent (.ok (.ok [])), .go, .go,
    .go, .sent (.ok (.ok [])), .go, .closed (.ok ())].map (⟨0, ⟨0⟩, ·⟩)

theorem batches_greedy_unladen :
    ∃ c₀ c, Shutdown pairs (new { target := .sns {} } 8 {}) laden ⟨0, ⟨0⟩, .stop⟩ unladen c₀ c ∧ c.writer.IsOver ∧
      (∃ es c' batch, (∀ x ∈ es, x.event = .go ∧ 5 ≤ x.now) ∧ Builds pairs c₀ es c' batch false ∧ batch ≠ [] ∧
        batch ++ c'.writer.backlog.toList = c₀.writer.backlog.toList) ∧
      (batches pairs (⟨0, ⟨0⟩, .stop⟩ :: unladen) c₀).map (·.map (·.text)) = [["a", "b"], ["c"], ["dddddddd"], ["e"]] ∧
      pairs.IsGreedy c₀.writer.backlog.toList (batches pairs (⟨0, ⟨0⟩, .stop⟩ :: unladen) c₀) := by
  have ht : pairs.Total := ⟨fun m => ⟨m.size, rfl⟩, fun _ _ => ⟨_, rfl⟩⟩
  obtain ⟨c₀, c, h, hover, hp, hq, hheld, hbatches⟩ : ∃ c₀ c,
      Shutdown pairs (new { target := .sns {} } 8 {}) laden ⟨0, ⟨0⟩, .stop⟩ unladen c₀ c ∧ c.writer.IsOver ∧
      c₀.writer.phase = .waiting none false ∧ c₀.writer.backlog.toList ≠ [] ∧ c₀.writer.held = [] ∧
      (batches pairs (⟨0, ⟨0⟩, .stop⟩ :: unladen) c₀).map (·.map (·.text)) = [["a", "b"], ["c"], ["dddddddd"], ["e"]] :=
    ⟨_, _, ⟨rfl, rfl, rfl, rfl, by decide, by decide⟩, ⟨rfl, Or.inl rfl⟩, rfl, by decide, rfl, rfl⟩
  obtain ⟨hbuilt, hgreedy, hdrained⟩ := batches_greedy ht
  obtain ⟨es, c', batch, hes, -, hbuilds⟩ := hbuilt c₀ none false 5 hp hq
  obtain ⟨hne, hall, -⟩ := hgreedy c₀ es c' batch false hbuilds fun x hx => by rw [(hes x hx).1]; rfl
  obtain ⟨-, -, hend⟩ := hdrained _ 8 {} laden _ unladen c₀ c h (fun hs => by cases hs)
    (by simp [laden, unladen]) (by simp [unladen])
  obtain ⟨-, hnot, -⟩ := hend hover
  have hpartition := (hnot (fun batch last hs => by rw [hp] at hs; cases hs) _).mpr rfl
  rw [hheld] at hpartition
  exact ⟨c₀, c, h, hover, ⟨es, c', batch, hes, hbuilds, hne, hall⟩, hbatches, hpartition⟩

end Course

end LogRelay
