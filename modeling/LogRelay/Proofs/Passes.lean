import LogRelay.Proofs.Policy
import LogRelay.World.Running

/-!
# What a synchronous writer does at once

With no appointments to keep, time passes in a plan and nothing else. A synchronous writer that is given
a message then makes one pass over its backlog: it counts what goes into a batch and sends that. However
the pass ends, the writer is at rest again.
-/

namespace LogRelay

/-- Counting a message or checking the limits may end in this panic. -/
def Measure.Panics (μ : Measure) (p : Panic) : Prop :=
  (∃ m, μ.effectiveSize m = .error p) ∨ ∃ bytes count, μ.withinLimits bytes count = .error p

theorem Measure.Total.not_panics {μ : Measure} (h : μ.Total) (p : Panic) : ¬ μ.Panics p := by
  rintro (⟨m, hm⟩ | ⟨bytes, count, hb⟩)
  · obtain ⟨n, hn⟩ := h.size m
    rw [hm] at hn
    cases hn
  · obtain ⟨b, hb'⟩ := h.limits bytes count
    rw [hb] at hb'
    cases hb'

theorem Measure.fill_panics {μ : Measure} {bytes count : Nat} {ms left : List Message} {p : Panic}
    (h : μ.fill bytes count ms = .error (p, left)) : μ.Panics p := by
  induction ms generalizing bytes count with
  | nil => cases h
  | cons m rest ih =>
    unfold fill at h
    split at h
    · rename_i q hs
      cases h
      exact .inl ⟨m, hs⟩
    · split at h
      · rename_i q hw
        cases h
        exact .inr ⟨_, _, hw⟩
      · cases h
      · split at h
        · rename_i e he
          cases h
          exact ih he
        · cases h

namespace Writer

variable {w : Writer}

theorem queue_up (h : (w.synchronous && w.initialized && !w.isStopped) = true) (m : Message) (now : Instant) :
    w.queue m now = { w with backlog := w.backlog.enqueue m, phase := .waiting (some now) false } := by
  unfold queue
  exact if_pos h

theorem queue_not_up (h : ¬ (w.synchronous && w.initialized && !w.isStopped) = true) (m : Message)
    (now : Instant) :
    w.queue m now = { w with backlog := w.backlog.enqueue m } := by
  unfold queue
  exact if_neg h

theorem checked_synchronous (result : Except Panic (Except Failure Unit)) :
    (w.checked result).1.synchronous = w.synchronous := by
  rcases result with p | e | _ <;> rfl

variable (hs : w.synchronous = true)
include hs

theorem checked_phase (result : Except Panic (Except Failure Unit)) : (w.checked result).1.phase = .idle := by
  rcases result with p | e | _ <;> simp [checked, hs]

variable (hd : w.isStopped = false)
include hd

theorem panicked_unstopped (p : Panic) : w.panicked p = ({ w with phase := .idle }, [.passPanicked p]) := by
  simp [panicked, hs, hd]

theorem turn_unstopped (progressed last : Bool) : w.turn progressed last = ({ w with phase := .idle }, []) := by
  simp [turn, hs, hd]

theorem sent_unstopped (batch : List Message) (last : Bool) (result : Except Panic (Except Failure (List Nat))) :
    (w.sent batch last result).1 =
      { w with backlog := w.backlog.requeue (returned batch result), phase := .idle } := by
  rw [sent_fst, turn_unstopped]
  · exact hs
  · exact hd

theorem sent_panicked (batch : List Message) (last : Bool) (p : Panic) :
    (w.sent batch last (.error p)).2 = [.refused batch.length p.toFailure] := by
  change Notice.refused batch.length p.toFailure ::
    ({ w with backlog := w.backlog.requeue batch }.turn false last).2 = _
  rw [turn_unstopped (w := { w with backlog := w.backlog.requeue batch }) hs hd]

end Writer

end LogRelay

namespace LogRelay.World

variable {A : Api} {σ : Type} {env : Environment A σ} {w w' : World A σ} {id : Nat} {cell : Cell A}

/-! ## Putting a writer in its place -/

theorem map_modify {α : Type} {g : Cell A → α} {f : Cell A → Cell A} (hg : ∀ c, g (f c) = g c)
    (cells : Array (Cell A)) (id j : Nat) : ((cells.modify id f)[j]?).map g = (cells[j]?).map g := by
  rw [Array.getElem?_modify]
  split
  · cases cells[j]? with
    | none => rfl
    | some c => exact congrArg some (hg c)
  · rfl

theorem getElem?_put (id j : Nat) (r : Writer × List Notice) (w : World A σ) :
    (w.put id r).cells[j]? =
      if id = j then (w.cells[j]?).map ({ · with writer := r.1 }) else w.cells[j]? := by
  change (w.cells.modify id _)[j]? = _
  rw [Array.getElem?_modify]

theorem getElem?_put_self (hc : w.cells[id]? = some cell) (r : Writer × List Notice) :
    (w.put id r).cells[id]? = some { cell with writer := r.1 } := by
  rw [getElem?_put, if_pos rfl, hc]
  rfl

/-- What a writer has been in between does not show. -/
theorem put_put (id : Nat) (x : Writer) (r : Writer × List Notice) (w : World A σ) :
    (w.put id (x, [])).put id r = w.put id r := by
  have hcells : (w.cells.modify id ({ · with writer := x })).modify id ({ · with writer := r.1 }) =
      w.cells.modify id ({ · with writer := r.1 }) := by
    apply Array.ext_getElem?
    intro j
    simp only [Array.getElem?_modify]
    split
    · rw [Option.map_map]
      rfl
    · rfl
  unfold put adjust record
  rw [hcells]
  rfl

theorem put_self (hc : w.cells[id]? = some cell) : w.put id (cell.writer, []) = w := by
  have hcells : w.cells.modify id ({ · with writer := cell.writer }) = w.cells := by
    apply Array.ext_getElem?
    intro j
    rw [Array.getElem?_modify]
    split
    · rename_i hj
      subst hj
      rw [hc]
      rfl
    · rfl
  unfold put adjust record
  rw [hcells]
  rfl

theorem change_of_cell (hc : w.cells[id]? = some cell) (f : Writer → Writer × List Notice) :
    w.change id f = w.put id (f cell.writer) := by
  simp [change, writer?, hc]

theorem holds_of_cell (hc : w.cells[id]? = some cell) (p : Writer → Bool) : w.holds id p = p cell.writer := by
  simp [holds, writer?, hc]

/-! ## Which writers change -/

structure Apart (changed : Nat → Prop) (w w' : World A σ) : Prop where
  now : w.now ≤ w'.now
  agenda : w'.agenda = w.agenda
  size : w'.cells.size = w.cells.size
  destinations : ∀ j : Nat, (w'.cells[j]?).map Cell.destination = (w.cells[j]?).map Cell.destination
  writers : ∀ j : Nat, ¬ changed j → w'.writer? j = w.writer? j

namespace Apart

variable {changed changed' : Nat → Prop}

theorem refl (changed : Nat → Prop) (w : World A σ) : Apart changed w w :=
  ⟨Nat.le_refl _, rfl, rfl, fun _ => rfl, fun _ _ => rfl⟩

theorem trans {w₁ w₂ w₃ : World A σ} (h : Apart changed w₁ w₂) (h' : Apart changed w₂ w₃) : Apart changed w₁ w₃ :=
  ⟨Nat.le_trans h.now h'.now, h'.agenda.trans h.agenda, h'.size.trans h.size,
    fun j => (h'.destinations j).trans (h.destinations j), fun j hj => (h'.writers j hj).trans (h.writers j hj)⟩

theorem mono (h : Apart changed w w') (hle : ∀ j, changed j → changed' j) : Apart changed' w w' :=
  ⟨h.now, h.agenda, h.size, h.destinations, fun j hj => h.writers j fun hc => hj (hle j hc)⟩

theorem put (id : Nat) (r : Writer × List Notice) (w : World A σ) : Apart (· = id) w (w.put id r) := by
  refine ⟨Nat.le_refl _, rfl, Array.size_modify, fun j => ?_, fun j hj => ?_⟩
  · exact map_modify (f := ({ · with writer := r.1 })) (fun _ => rfl) w.cells id j
  · unfold writer?
    rw [getElem?_put, if_neg fun h => hj h.symm]

theorem seat (h : Apart changed w w') {cell : Cell A} (hc : w.cells[id]? = some cell) :
    ∃ cell', w'.cells[id]? = some cell' ∧ cell'.destination = cell.destination ∧
      (¬ changed id → cell'.writer = cell.writer) := by
  have hd := h.destinations id
  rw [hc] at hd
  obtain ⟨cell', hc', hd'⟩ := Option.map_eq_some_iff.mp hd
  refine ⟨cell', hc', hd', fun hid => ?_⟩
  have hw := h.writers id hid
  simpa [writer?, hc, hc'] using hw

end Apart

theorem perform_apart (ha : w.agenda = []) (run : Nat → World A σ → World A σ) (id : Nat) {α : Type}
    (plan : Plan A α) : Apart (fun _ => False) w (w.perform env run id plan).2 := by
  have helapse : ∀ (d : Duration) (v : World A σ), Apart (fun _ => False) w v →
      Apart (fun _ => False) w (v.elapse run d) := by
    intro d v h
    have hv : v.elapse run d = { v with now := max v.now (v.now + d) } := by
      have hl : v.agenda.length = 0 := by rw [h.agenda, ha]; rfl
      unfold elapse
      rw [hl]
      rfl
    rw [hv]
    exact ⟨Nat.le_trans h.now (Nat.le_max_left _ _), h.agenda, h.size, h.destinations, h.writers⟩
  have hall : ∀ v : World A σ, Apart (fun _ => False) w v →
      Apart (fun _ => False) w (v.perform env run id plan).2 := by
    unfold perform
    induction plan with
    | done a => exact fun v h => h
    | call r next ih =>
      intro v h
      have hcall : Apart (fun _ => False) w ((ground env run id).call r v).2 := by
        have hv : Apart (fun _ => False) w { v with outside := (env.ask id r v.now v.outside).2 } :=
          ⟨h.now, h.agenda, h.size, h.destinations, h.writers⟩
        unfold ground
        dsimp only
        split
        · have he := helapse ‹Duration› _ hv
          exact ⟨he.now, he.agenda, he.size, he.destinations, he.writers⟩
        · exact ⟨hv.now, hv.agenda, hv.size, hv.destinations, hv.writers⟩
      rw [Plan.run]
      split
      · rename_i x v' heq
        rw [heq] at hcall
        exact ih x v' hcall
      · rename_i p v' heq
        rw [heq] at hcall
        exact hcall
    | sleep d next ih => exact fun v h => ih _ (helapse d v h)
    | clock next ih => exact fun v h => ih _ v h
    | draw next ih => exact fun v h => ih _ _ ⟨h.now, h.agenda, h.size, h.destinations, h.writers⟩
    | note e next ih => exact fun v h => ih _ ⟨h.now, h.agenda, h.size, h.destinations, h.writers⟩
    | consult next ih => exact fun v h => ih _ v h
    | remember m next ih =>
      intro v h
      refine ih _ ⟨h.now, h.agenda, Array.size_modify.trans h.size, fun j => ?_, fun j hj => ?_⟩
      · exact (map_modify (f := ({ · with memory := m })) (fun _ => rfl) v.cells id j).trans (h.destinations j)
      · exact (map_modify (f := ({ · with memory := m })) (fun _ => rfl) v.cells id j).trans (h.writers j hj)
    | raise p => exact fun v h => h
  exact hall w (.refl _ w)

section
variable {run : Nat → World A σ → World A σ} {α : Type} {plan : Plan A α} {result : Except Panic α} {v : World A σ}

theorem Apart.of_perform (hr : w.perform env run id plan = (result, v)) (ha : w.agenda = []) :
    Apart (fun _ => False) w v := by
  have h := @perform_apart A σ env w ha run id α plan
  rw [hr] at h
  exact h

theorem perform_seat (hr : w.perform env run id plan = (result, v)) (ha : w.agenda = [])
    (hc : w.cells[id]? = some cell) :
    ∃ cell', v.cells[id]? = some cell' ∧ cell'.destination = cell.destination ∧ cell'.writer = cell.writer := by
  obtain ⟨cell', hc', hd, hw⟩ := (Apart.of_perform hr ha).seat hc
  exact ⟨cell', hc', hd, hw not_false⟩

end

/-! ## One step after the other -/

section
variable (hc : w.cells[id]? = some cell)
include hc

theorem drive_rest (hn : cell.writer.next cell.destination.toMeasure w.now = .rest) (n : Nat) :
    drive env n id w = w := by
  cases n with
  | zero => rfl
  | succ n => simp only [drive, hc, hn]

theorem drive_go {x : Writer} {ns : List Notice}
    (hn : cell.writer.next cell.destination.toMeasure w.now = .go x ns) (n : Nat) :
    drive env (n + 1) id w = drive env n id (w.put id (x, ns)) := by
  simp only [drive, hc, hn]

theorem drive_makeAvailable (hp : cell.writer.phase = .checking) (n : Nat) :
    drive env (n + 1) id w =
      drive env n id ((w.perform env (drive env n) id cell.destination.makeAvailable).2.change id
        (·.checked (w.perform env (drive env n) id cell.destination.makeAvailable).1)) := by
  have hn : cell.writer.next cell.destination.toMeasure w.now = .makeAvailable := by simp [Writer.next, hp]
  simp only [drive, hc, hn]

theorem drive_send {batch : List Message} {last : Bool} (hp : cell.writer.phase = .sending batch last) (n : Nat) :
    drive env (n + 1) id w =
      drive env n id ((w.perform env (drive env n) id (cell.destination.send batch)).2.change id
        (·.sent batch last (w.perform env (drive env n) id (cell.destination.send batch)).1)) := by
  have hn : cell.writer.next cell.destination.toMeasure w.now = .send batch last := by simp [Writer.next, hp]
  simp only [drive, hc, hn]

theorem drive_shutdown (hp : cell.writer.phase = .closing) (n : Nat) :
    drive env (n + 1) id w =
      drive env n id ((w.perform env (drive env n) id cell.destination.shutdown).2.change id
        (·.closed (w.perform env (drive env n) id cell.destination.shutdown).1)) := by
  have hn : cell.writer.next cell.destination.toMeasure w.now = .shutdown := by simp [Writer.next, hp]
  simp only [drive, hc, hn]

end

/-! ## A pass -/

/-- What becomes of the messages `ms` that a synchronous writer has before it: there is none, or one of
them cannot be counted, or a batch is made of the first of them and sent. -/
inductive Passes (env : Environment A σ) (id : Nat) (cell : Cell A) (ms : List Message) (w : World A σ) :
    World A σ → Prop
  | nothing {b : Backlog} (hms : ms = []) (hq : cell.writer.backlog.SamePolicy b) :
    Passes env id cell ms w (w.put id ({ cell.writer with backlog := b, phase := .idle }, []))
  | counting {b : Backlog} {p : Panic} (hq : cell.writer.backlog.SamePolicy b)
      (hp : cell.destination.toMeasure.Panics p) :
    Passes env id cell ms w (w.put id ({ cell.writer with backlog := b, phase := .idle }, [.passPanicked p]))
  | sending {b : Backlog} {batch : List Message} {n : Nat} {result : Except Panic (Except Failure (List Nat))}
      {v : World A σ} (hms : ms = batch ++ b.toList) (hne : batch ≠ []) (hq : cell.writer.backlog.SamePolicy b)
      (hr : (w.put id ({ cell.writer with backlog := b, phase := .sending batch false }, [])).perform env
        (drive env n) id (cell.destination.send batch) = (result, v)) :
    Passes env id cell ms w (v.change id (·.sent batch false result))

theorem Passes.of_put {b : Backlog} {phase : Phase} {ms : List Message} (hb : cell.writer.backlog.SamePolicy b)
    (h : Passes env id { cell with writer := { cell.writer with backlog := b, phase } } ms
      (w.put id ({ cell.writer with backlog := b, phase }, [])) w') : Passes env id cell ms w w' := by
  cases h with
  | nothing hms hq =>
    rw [put_put]
    exact .nothing hms (hb.trans hq)
  | counting hq hp =>
    rw [put_put]
    exact .counting (hb.trans hq) hp
  | sending hms hne hq hr =>
    rw [put_put] at hr
    exact .sending hms hne (hb.trans hq) hr

section
variable (ha : w.agenda = []) (hc : w.cells[id]? = some cell) (hs : cell.writer.synchronous = true)
  (hd : cell.writer.isStopped = false)
include hc hs hd

include ha in
theorem passes_sending {batch : List Message} (hp : cell.writer.phase = .sending batch false) (hne : batch ≠ [])
    (n : Nat) : Passes env id cell (batch ++ cell.writer.backlog.toList) w (drive env (n + 2) id w) := by
  rw [drive_send hc hp]
  cases hr : w.perform env (drive env (n + 1)) id (cell.destination.send batch) with
  | mk result v =>
    obtain ⟨cell', hc', -, hw⟩ := perform_seat hr ha hc
    have hfst := Writer.sent_unstopped (w := cell'.writer) (by rw [hw, hs]) (by rw [hw, hd]) batch false result
    have hrest : drive env (n + 1) id (v.change id (·.sent batch false result)) =
        v.change id (·.sent batch false result) := by
      rw [change_of_cell hc']
      refine drive_rest (getElem?_put_self hc' _) ?_ _
      rw [hfst]
      rfl
    rw [hrest]
    refine .sending (n := n + 1) rfl hne (.refl _) ?_
    rw [← hr, ← hp, put_self hc]

theorem drive_panicked {p : Panic} {b : Backlog}
    (hn : cell.writer.next cell.destination.toMeasure w.now =
      .go ({ cell.writer with backlog := b }.panicked p).1 ({ cell.writer with backlog := b }.panicked p).2)
    (n : Nat) : drive env (n + 1) id w =
      w.put id ({ cell.writer with backlog := b, phase := .idle }, [.passPanicked p]) := by
  rw [Writer.panicked_unstopped (w := { cell.writer with backlog := b }) hs hd] at hn
  rw [drive_go hc hn]
  exact drive_rest (getElem?_put_self hc _) rfl _

include ha in
theorem passes_go {b : Backlog} {batch : List Message} (hne : batch ≠ []) (hb : cell.writer.backlog.SamePolicy b)
    (hn : cell.writer.next cell.destination.toMeasure w.now =
      .go { cell.writer with backlog := b, phase := .sending batch false } []) (n : Nat) :
    Passes env id cell (batch ++ b.toList) w (drive env (n + 3) id w) := by
  have hc' := getElem?_put_self hc ({ cell.writer with backlog := b, phase := .sending batch false }, [])
  rw [drive_go hc hn]
  apply Passes.of_put hb
  refine passes_sending (w := w.put id _) ha hc' ?_ ?_ ?_ hne n
  · exact hs
  · exact hd
  · rfl

include ha in
theorem passes_collected {batch : Batch} {limit : Instant}
    (hp : cell.writer.phase = .collecting batch limit false) (hl : limit ≤ w.now) (hne : batch.messages ≠ [])
    (he : cell.writer.backlog.isEmpty = true) (n : Nat) :
    Passes env id cell batch.messages w (drive env (n + 3) id w) := by
  have hlist := (Backlog.isEmpty_iff _).mp he
  rw [← List.append_nil batch.messages, ← hlist]
  by_cases hi : cell.writer.backlog.interrupted = true
  · exact passes_go ha hc hs hd (b := cell.writer.backlog.clearInterrupt) hne ⟨rfl, rfl⟩
      (by simp [Writer.next, hp, he, hi]) n
  · exact passes_go ha hc hs hd (b := cell.writer.backlog) hne (.refl _) (by simp [Writer.next, hp, he, hi, hl]) n

include ha in
theorem passes_collecting {batch : Batch} {limit : Instant}
    (hp : cell.writer.phase = .collecting batch limit false) (hl : limit ≤ w.now) (hne : batch.messages ≠ [])
    (n : Nat) :
    Passes env id cell (batch.messages ++ cell.writer.backlog.toList) w (drive env (n + 4) id w) := by
  by_cases he : cell.writer.backlog.isEmpty = true
  · rw [(Backlog.isEmpty_iff _).mp he, List.append_nil]
    exact passes_collected ha hc hs hd hp hl hne he (n + 1)
  · cases hf : cell.destination.toMeasure.fill batch.bytes batch.messages.length cell.writer.backlog.toList with
    | error e =>
      obtain ⟨p, left⟩ := e
      rw [drive_panicked hc hs hd (p := p) (b := cell.writer.backlog.withMessages left)
        (by simp [Writer.next, hp, he, Writer.collect, hf]) (n + 3)]
      exact .counting ⟨rfl, rfl⟩ (Measure.fill_panics hf)
    | ok f =>
      have htaken := (Measure.fill_ok hf).1
      have hne' : batch.messages ++ f.taken ≠ [] := by simp [hne]
      by_cases hfull : f.full = true
      · have h := @passes_go A σ env w id cell ha hc hs hd (cell.writer.backlog.withMessages f.left) _ hne'
          ⟨rfl, rfl⟩ (by simp [Writer.next, hp, he, Writer.collect, hf, hfull]) (n + 1)
        rw [htaken, ← List.append_assoc]
        exact h
      · -- nothing is left, and the batch is as large as it gets
        have hleft := Measure.fill_left hf (by simpa using hfull)
        have hn : cell.writer.next cell.destination.toMeasure w.now = .go { cell.writer with
            backlog := cell.writer.backlog.withMessages f.left
            phase := .collecting ⟨batch.messages ++ f.taken, f.bytes⟩ limit false } [] := by
          simp [Writer.next, hp, he, Writer.collect, hf, hfull]
        have he' : (cell.writer.backlog.withMessages f.left).isEmpty = true := by
          rw [Backlog.isEmpty_iff, hleft]
          rfl
        have hc' := getElem?_put_self hc ({ cell.writer with
          backlog := cell.writer.backlog.withMessages f.left
          phase := .collecting ⟨batch.messages ++ f.taken, f.bytes⟩ limit false }, [])
        rw [drive_go hc hn, htaken, hleft, List.append_nil]
        rw [hleft] at hc' he'
        apply Passes.of_put (b := cell.writer.backlog.withMessages []) ⟨rfl, rfl⟩
        refine passes_collected (w := w.put id _) ha hc' ?_ ?_ rfl ?_ hne' he' n
        · exact hs
        · exact hd
        · exact hl

include ha in
theorem passes_waiting {limit : Option Instant} (hp : cell.writer.phase = .waiting limit false)
    (hl : limit.any (· ≤ w.now) = true) (n : Nat) :
    Passes env id cell cell.writer.backlog.toList w (drive env (n + 5) id w) := by
  cases hq : cell.writer.backlog.pop? with
  | none =>
    have hlist := Backlog.pop?_eq_none hq
    have hgo : ∃ b : Backlog, cell.writer.backlog.SamePolicy b ∧
        cell.writer.next cell.destination.toMeasure w.now =
          .go { cell.writer with backlog := b, phase := .idle } [] := by
      have hdeadline : cell.writer.deadline = none := by simpa [Writer.isStopped] using hd
      by_cases hi : cell.writer.backlog.interrupted = true
      · refine ⟨cell.writer.backlog.clearInterrupt, ⟨rfl, rfl⟩, ?_⟩
        simp [Writer.next, hp, hq, hi, Writer.turn, hs, Writer.isStopped, hdeadline]
      · refine ⟨cell.writer.backlog, .refl _, ?_⟩
        simp [Writer.next, hp, hq, hi, hl, Writer.turn, hs, Writer.isStopped, hdeadline]
    obtain ⟨b, hb, hn⟩ := hgo
    rw [drive_go hc hn, drive_rest (getElem?_put_self hc _) rfl]
    exact .nothing hlist hb
  | some r =>
    obtain ⟨m, q⟩ := r
    have hpolicy := (Backlog.pop?_eq_some hq).2.samePolicy
    rw [(Backlog.pop?_eq_some hq).1]
    cases hb : cell.destination.effectiveSize m with
    | error p =>
      rw [drive_panicked hc hs hd (p := p) (b := q) (by simp [Writer.next, hp, hq, Writer.begin, hb]) (n + 4)]
      exact .counting hpolicy (.inl ⟨m, hb⟩)
    | ok bytes =>
      have hn : cell.writer.next cell.destination.toMeasure w.now =
          .go { cell.writer with backlog := q, phase := .collecting ⟨[m], bytes⟩ w.now false } [] := by
        simp [Writer.next, hp, hq, Writer.begin, hb, Writer.window, hs]
      have hc' := getElem?_put_self hc ({ cell.writer with
        backlog := q
        phase := .collecting ⟨[m], bytes⟩ w.now false }, [])
      rw [drive_go hc hn]
      apply Passes.of_put hpolicy
      refine passes_collecting (w := w.put id _) ha hc' ?_ ?_ rfl ?_ ?_ n
      · exact hs
      · exact hd
      · exact Nat.le_refl _
      · simp

end

/-! ## At rest again -/

structure Rests (id : Nat) (cell : Cell A) (w w' : World A σ) : Prop where
  apart : Apart (· = id) w w'
  cell : ∃ cell', w'.cells[id]? = some cell' ∧ cell'.destination = cell.destination ∧
    cell.writer.backlog.SamePolicy cell'.writer.backlog ∧
    cell'.writer = { cell.writer with backlog := cell'.writer.backlog, phase := .idle }

theorem rests_put (hc : w.cells[id]? = some cell) {b : Backlog} (hb : cell.writer.backlog.SamePolicy b)
    (ns : List Notice) : Rests id cell w (w.put id ({ cell.writer with backlog := b, phase := .idle }, ns)) :=
  ⟨.put id _ w, _, getElem?_put_self hc _, rfl, hb, rfl⟩

theorem run_rest (hc : w.cells[id]? = some cell) (hp : cell.writer.phase = .idle) : w.run env id = w :=
  drive_rest hc (by simp [Writer.next, hp]) _

section
variable (ha : w.agenda = []) (hc : w.cells[id]? = some cell) (hs : cell.writer.synchronous = true)
include ha hc hs

theorem Passes.rests (hd : cell.writer.isStopped = false) {ms : List Message} (h : Passes env id cell ms w w') :
    Rests id cell w w' := by
  cases h with
  | nothing hms hq => exact rests_put hc hq _
  | counting hq hp => exact rests_put hc hq _
  | @sending b batch n result v hms hne hq hr =>
    have hput := getElem?_put_self hc ({ cell.writer with backlog := b, phase := .sending batch false }, [])
    have hv := Apart.of_perform hr ha
    obtain ⟨cell', hc', hd', hw⟩ := perform_seat hr ha hput
    have hfst := Writer.sent_unstopped (w := cell'.writer) (by rw [hw]; exact hs) (by rw [hw]; exact hd)
      batch false result
    rw [change_of_cell hc']
    refine ⟨?_, _, getElem?_put_self hc' _, hd', ?_, ?_⟩
    · exact ((Apart.put id _ w).trans (hv.mono fun _ h => h.elim)).trans (.put id _ v)
    · rw [hfst, hw]
      exact ⟨hq.threshold, hq.action⟩
    · rw [hfst, hw]

variable (env) (hp : cell.writer.phase = .idle)
include hp

/-- A synchronous writer takes a message into its backlog, and if it is up it makes a pass. -/
theorem add_passes (m : Message) :
    ((cell.writer.initialized && !cell.writer.isStopped) = false ∨ cell.writer.admitted? m = none) ∧
      (∃ b, cell.writer.backlog.SamePolicy b ∧ w.add (run env) id m =
        w.put id ({ cell.writer with backlog := b, phase := .idle }, (cell.writer.add m w.now).2)) ∨
    cell.writer.initialized = true ∧ cell.writer.isStopped = false ∧ ∃ m', cell.writer.admitted? m = some m' ∧
      Passes env id cell (cell.writer.backlog.enqueue m').toList (w.record (cell.writer.add m w.now).2)
        (w.add (run env) id m) := by
  have hput := getElem?_put_self hc (cell.writer.add m w.now)
  have hadd : w.add (run env) id m = (w.put id (cell.writer.add m w.now)).run env id := by
    have hsync : (cell.writer.add m w.now).1.synchronous = true := by
      rw [Writer.add_fst]
      split
      · refine Eq.trans ?_ hs
        exact (Writer.queue_keeps (by simp [Writer.isEngaged, hp]) _ _).make.synchronous
      · exact hs
    unfold add settle
    rw [change_of_cell hc, holds_of_cell hput, if_pos hsync]
  rw [hadd]
  cases hm : cell.writer.admitted? m with
  | none =>
    have hfst : (cell.writer.add m w.now).1 = cell.writer := by rw [Writer.add_fst, hm]
    refine .inl ⟨.inr rfl, cell.writer.backlog, .refl _, ?_⟩
    rw [run_rest hput (by rw [hfst]; exact hp), ← hp]
    exact congrArg (fun x => w.put id (x, (cell.writer.add m w.now).2)) hfst
  | some m' =>
    have hfst : (cell.writer.add m w.now).1 = cell.writer.queue m' w.now := by rw [Writer.add_fst, hm]
    by_cases hgo : (cell.writer.synchronous && cell.writer.initialized && !cell.writer.isStopped) = true
    · have hq := Writer.queue_up hgo m' w.now
      simp only [Bool.and_eq_true, Bool.not_eq_true'] at hgo
      have hlimit : stepLimit = (stepLimit - 5) + 5 := by decide
      have hw : w.put id (cell.writer.add m w.now) =
          (w.record (cell.writer.add m w.now).2).put id (cell.writer.queue m' w.now, []) := by
        rw [← hfst]
        rfl
      rw [hfst] at hput
      refine .inr ⟨hgo.1.2, hgo.2, m', rfl, ?_⟩
      rw [hq] at hput hw
      unfold run
      rw [hlimit, hw]
      apply Passes.of_put (Backlog.enqueue_samePolicy _ _)
      refine passes_waiting (w := (w.record _).put id _) ha ?_ ?_ ?_ rfl ?_ (stepLimit - 5)
      · rw [hw] at hput
        exact hput
      · exact hs
      · exact hgo.2
      · simp [record, put, adjust]
    · have hq : cell.writer.queue m' w.now =
          { cell.writer with backlog := cell.writer.backlog.enqueue m', phase := .idle } := by
        rw [Writer.queue_not_up hgo, ← hp]
      refine .inl ⟨.inl ?_, cell.writer.backlog.enqueue m', Backlog.enqueue_samePolicy _ _, ?_⟩
      · simpa [hs] using hgo
      rw [run_rest hput (by rw [hfst, hq]), ← hq]
      exact congrArg (fun x => w.put id (x, (cell.writer.add m w.now).2)) hfst

theorem add_rests (m : Message) : Rests id cell w (w.add (run env) id m) := by
  rcases add_passes env ha hc hs hp m with ⟨-, b, hq, hb⟩ | ⟨-, hd, m', -, hpass⟩
  · rw [hb]
    exact rests_put hc hq _
  · have h := Passes.rests (w := w.record _) ha hc hs hd hpass
    exact ⟨⟨h.apart.now, h.apart.agenda, h.apart.size, h.apart.destinations, h.apart.writers⟩, h.cell⟩

/-- A synchronous writer that is started checks its destination and rests. -/
theorem start_run : ∃ n result v,
    (w.put id ({ cell.writer with phase := .checking }, [])).perform env (drive env n) id
      cell.destination.makeAvailable = (result, v) ∧
    (w.set id Writer.start).run env id = v.change id (·.checked result) := by
  have hput := getElem?_put_self hc ({ cell.writer with phase := .checking }, [])
  have hset : w.set id Writer.start = w.put id ({ cell.writer with phase := .checking }, []) := by
    unfold set
    rw [change_of_cell hc]
    simp only [Writer.start, hp]
  have hlimit : stepLimit = (stepLimit - 1) + 1 := by decide
  cases hr : (w.put id ({ cell.writer with phase := .checking }, [])).perform env (drive env (stepLimit - 1)) id
    cell.destination.makeAvailable with
  | mk result v =>
    obtain ⟨cell', hc', -, hw⟩ := perform_seat hr ha hput
    refine ⟨_, result, v, hr, ?_⟩
    rw [hset]
    unfold run
    rw [hlimit, drive_makeAvailable hput rfl, hr, change_of_cell hc']
    refine drive_rest (getElem?_put_self hc' _) ?_ _
    have hs' : cell'.writer.synchronous = true := by rw [hw]; exact hs
    simp [Writer.next, Writer.checked_phase hs']

omit hp in
/-- A synchronous writer that has nothing to send shuts its destination down when it is stopped. -/
theorem stop_run (hd : cell.writer.isStopped = false)
    (he : (cell.writer.initialized && !cell.writer.backlog.isEmpty) = false) : ∃ n x result v,
    (w.put id (x, [.stopping])).perform env (drive env n) id cell.destination.shutdown = (result, v) ∧
      w.stop (run env) id = v.change id (·.closed result) := by
  have hstop : cell.writer.stop w.now = ({ cell.writer with
      deadline := some (w.now + Duration.ofMillis cell.writer.batchDelay), phase := .closing }, [.stopping]) := by
    simp [Writer.stop, hd, hs, he]
  have hput := getElem?_put_self hc (cell.writer.stop w.now)
  have hrun : w.stop (run env) id = (w.put id (cell.writer.stop w.now)).run env id := by
    have hsync : (cell.writer.stop w.now).1.synchronous = true := by rw [hstop]; exact hs
    unfold stop settle
    rw [change_of_cell hc, holds_of_cell hput, if_pos hsync]
  have hlimit : stepLimit = (stepLimit - 1) + 1 := by decide
  rw [hrun]
  rw [hstop] at hput ⊢
  cases hr : (w.put id _).perform env (drive env (stepLimit - 1)) id cell.destination.shutdown with
  | mk result v =>
    obtain ⟨cell', hc', -, hw⟩ := perform_seat hr ha hput
    refine ⟨_, _, result, v, hr, ?_⟩
    unfold run
    rw [hlimit, drive_shutdown hput rfl, hr, change_of_cell hc']
    refine drive_rest (getElem?_put_self hc' _) ?_ _
    have hs' : cell'.writer.synchronous = true := by rw [hw]; exact hs
    have hd' : cell'.writer.isStopped = true := by rw [hw]; rfl
    cases result with
    | ok _ => simp [Writer.next, Writer.closed]
    | error p => simp [Writer.next, Writer.closed, Writer.panicked, hs', hd']

end

end LogRelay.World
