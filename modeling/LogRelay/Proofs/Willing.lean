import LogRelay.Proofs.Passes

/-!
# Destinations that never fail

A synchronous writer whose destination never fails delivers every message by itself as soon as it is given
it, and rests with an empty backlog. What has become of the writers is read from a record that something
outside keeps of the destinations.
-/

namespace LogRelay

variable {A : Api} {σ : Type}

open World (drive run)

inductive Note
  /-- The destination of the next writer was made. -/
  | made
  | delivered (id : Nat) (batch : List Message)
  | shut (id : Nat)
deriving DecidableEq

def Note.isMade : Note → Bool
  | .made => true
  | _ => false

theorem Note.countP_delivered (id : Nat) (ms : List Message) :
    (ms.map (.delivered id [·])).countP isMade = 0 := by
  rw [List.countP_map]
  exact List.countP_eq_zero.mpr fun m _ => Bool.false_ne_true

def Message.Fits (limit : Nat) (m : Message) : Prop := 0 < m.size ∧ m.size ≤ limit

section
variable (env : Environment A σ) (record : σ → List Note)

/-- The plan of the writer's destination ends well, and `notes` are what is put on record meanwhile. -/
def Plan.Succeeds {α : Type} (plan : Plan A α) (id : Nat) (x : α) (notes : List Note) : Prop :=
  ∀ (n : Nat) (w : World A σ), w.agenda = [] → ∃ v, w.perform env (drive env n) id plan = (.ok x, v) ∧
    record v.outside = record w.outside ++ notes

/-- A destination that never fails, and of which it is on record what it delivered and that it was shut
down. -/
structure Destination.Willing (limit : Nat) (d : Destination A) : Prop where
  total : d.toMeasure.Total
  limit : ∃ size, d.maxMessageSize = .ok size ∧ limit ≤ size
  makeAvailable : ∀ id, d.makeAvailable.Succeeds env record id (.ok ()) []
  send : ∀ size, d.maxMessageSize = .ok size → ∀ id batch, batch ≠ [] → (∀ m ∈ batch, m.Fits size) →
    (d.send batch).Succeeds env record id (.ok []) [.delivered id batch]
  shutdown : ∀ id, d.shutdown.Succeeds env record id () [.shut id]

/-- Destinations are always to be had, and never fail. -/
def Environment.Obliges (limit : Nat) : Prop :=
  ∀ s now o, ∃ d o', env.connect s now o = (.ok d, o') ∧ d.Willing env record limit ∧
    record o' = record o ++ [.made]

end

structure Writer.IsReady (limit : Nat) (w : Writer) : Prop where
  synchronous : w.synchronous = true
  idle : w.phase = .idle
  initialized : w.initialized = true
  unstopped : w.isStopped = false
  empty : w.backlog.toList = []
  threshold : 1 ≤ w.backlog.threshold
  limit : limit ≤ w.maxMessageSize
  failure : w.failure = none

namespace World

variable {env : Environment A σ} {record : σ → List Note} {limit id : Nat} {w w' : World A σ} {m : Message}

structure Adds (record : σ → List Note) (w : World A σ) (notes : List Note) (w' : World A σ) : Prop where
  agenda : w'.agenda = w.agenda
  size : w'.cells.size = w.cells.size + notes.countP Note.isMade
  record : record w'.outside = record w.outside ++ notes

theorem Adds.refl (w : World A σ) : Adds record w [] w := ⟨rfl, rfl, (List.append_nil _).symm⟩

theorem Adds.trans {w₁ w₂ w₃ : World A σ} {notes notes' : List Note} (h : Adds record w₁ notes w₂)
    (h' : Adds record w₂ notes' w₃) : Adds record w₁ (notes ++ notes') w₃ := by
  refine ⟨h'.agenda.trans h.agenda, ?_, ?_⟩
  · rw [h'.size, h.size, List.countP_append, Nat.add_assoc]
  · rw [h'.record, h.record, List.append_assoc]

structure Ready (env : Environment A σ) (record : σ → List Note) (limit id : Nat) (w : World A σ) : Prop where
  agenda : w.agenda = []
  cell : ∃ cell, w.cells[id]? = some cell ∧ cell.writer.IsReady limit ∧ cell.destination.Willing env record limit

section
variable (ha : w.agenda = []) {cell : Cell A} (hc : w.cells[id]? = some cell)
include ha hc

theorem adds_change {α : Type} {plan : Plan A α} {a : α} {notes : List Note}
    (hplan : plan.Succeeds env record id a notes) (hmade : notes.countP Note.isMade = 0) {x : Writer}
    {ns : List Notice} {n : Nat} {r : Except Panic α} {v : World A σ}
    (hr : (w.put id (x, ns)).perform env (drive env n) id plan = (r, v))
    (f : Except Panic α → Writer → Writer × List Notice) :
    Adds record w notes (v.change id (f r)) ∧
      ∃ cell', (v.change id (f r)).cells[id]? = some cell' ∧ cell'.destination = cell.destination ∧
        cell'.writer = (f (.ok a) x).1 := by
  have hput := getElem?_put_self hc (x, ns)
  obtain ⟨v', hv', hrecord⟩ := hplan n (w.put id (x, ns)) ha
  rw [hr] at hv'
  cases hv'
  have hapart := Apart.of_perform hr ha
  obtain ⟨cell', hc', hd, hw⟩ := perform_seat hr ha hput
  rw [change_of_cell hc', hw]
  refine ⟨⟨hapart.agenda, ?_, hrecord⟩, _, getElem?_put_self hc' _, hd, rfl⟩
  have hsize : (w.put id (x, ns)).cells.size = w.cells.size := Array.size_modify
  rw [hmade, Nat.add_zero, ← hsize, ← hapart.size]
  exact Array.size_modify

variable (hd : cell.destination.Willing env record limit)
include hd

theorem Passes.delivers (hw : cell.writer.IsReady limit) (hm : m.Fits limit) (h : Passes env id cell [m] w w') :
    Adds record w [.delivered id [m]] w' ∧ Ready env record limit id w' := by
  cases h with
  | nothing hms hq => cases hms
  | counting hq hp => exact absurd hp (hd.total.not_panics _)
  | @sending b batch n result v hms hne hq hr =>
    obtain ⟨rfl, hb⟩ : batch = [m] ∧ b.toList = [] := by
      cases batch with
      | nil => exact absurd rfl hne
      | cons m' rest =>
        rw [List.cons_append, List.cons.injEq] at hms
        have hnil := List.append_eq_nil_iff.mp hms.2.symm
        rw [hms.1, hnil.1]
        exact ⟨rfl, hnil.2⟩
    obtain ⟨size, hsize, hle⟩ := hd.limit
    have hsend := hd.send size hsize id [m] hne fun m' hm' => by
      rw [List.mem_singleton.mp hm']
      exact ⟨hm.1, Nat.le_trans hm.2 hle⟩
    obtain ⟨hadds, cell', hc', hdest, hcell⟩ := adds_change ha hc hsend rfl hr fun r x => x.sent [m] false r
    refine ⟨hadds, hadds.agenda.trans ha, cell', hc', ?_, hdest ▸ hd⟩
    rw [hcell, Writer.sent_unstopped]
    · exact ⟨hw.synchronous, rfl, hw.initialized, hw.unstopped, by simp [Writer.returned, Ledger.retained_nil, hb],
        hq.threshold ▸ hw.threshold, hw.limit, hw.failure⟩
    · exact hw.synchronous
    · exact hw.unstopped

theorem start_ready {s : Settings} {size : Nat} (hw : cell.writer = Writer.create s size)
    (hs : s.synchronous = true) (ht : 1 ≤ s.discardThreshold) (hl : limit ≤ size) :
    Adds record w [] ((w.set id Writer.start).run env id) ∧
      Ready env record limit id ((w.set id Writer.start).run env id) := by
  obtain ⟨n, result, v, hr, hrun⟩ := start_run env ha hc (by rw [hw]; exact hs) (by rw [hw]; rfl)
  rw [hrun]
  obtain ⟨hadds, cell', hc', hdest, hcell⟩ := adds_change ha hc (hd.makeAvailable id) rfl hr Writer.checked
  refine ⟨hadds, hadds.agenda.trans ha, cell', hc', ?_, hdest ▸ hd⟩
  rw [hcell, hw]
  exact ⟨hs, by simp [Writer.checked, Writer.create, hs], rfl, rfl, rfl, ht, hl, rfl⟩

end

/-! ## A ready writer -/

namespace Ready

variable (h : w.Ready env record limit id)
include h

theorem add (hm : m.Fits limit) :
    Adds record w [.delivered id [m]] (w.add (run env) id m) ∧
      (w.add (run env) id m).Ready env record limit id := by
  obtain ⟨ha, cell, hc, hw, hd⟩ := h
  have hadmitted : cell.writer.admitted? m = some m := by
    have hzero : m.size ≠ 0 := Nat.ne_of_gt hm.1
    simp [Writer.admitted?, hzero, Nat.le_trans hm.2 hw.limit]
  rcases add_passes env ha hc hw.synchronous hw.idle m with ⟨hnot, -⟩ | ⟨-, -, m', hm', hpass⟩
  · rw [hadmitted, hw.initialized, hw.unstopped] at hnot
    rcases hnot with hnot | hnot <;> cases hnot
  · rw [hadmitted] at hm'
    cases hm'
    rw [Backlog.toList_enqueue, hw.empty, List.nil_append, DiscardAction.keep_of_length_le hw.threshold] at hpass
    obtain ⟨hadds, hready⟩ := Passes.delivers (w := w.record _) ha hc hd hw hm hpass
    exact ⟨⟨hadds.agenda, hadds.size, hadds.record⟩, hready⟩

/-- Stopping the writer shuts its destination down and brings it to its end, and no panic gets past it. -/
theorem stop : Adds record w [.shut id] (w.stop (run env) id) ∧
    ∃ x, (w.stop (run env) id).writer? id = some x ∧ x.finished = true ∧ x.unwound? = none := by
  obtain ⟨ha, cell, hc, hw, hd⟩ := h
  have hempty : cell.writer.backlog.isEmpty = true := (Backlog.isEmpty_iff _).mpr hw.empty
  obtain ⟨n, x, result, v, hr, hrun⟩ :=
    stop_run env ha hc hw.synchronous hw.unstopped (by simp [hempty])
  rw [hrun]
  obtain ⟨hadds, cell', hc', -, hcell⟩ := adds_change ha hc (hd.shutdown id) rfl hr Writer.closed
  refine ⟨hadds, cell'.writer, by rw [writer?, hc']; rfl, ?_, ?_⟩
  · rw [hcell]
    rfl
  · rw [hcell]
    rfl

theorem set {f : Writer → Writer} (hf : ∀ x : Writer, x.IsReady limit → (f x).IsReady limit) :
    Adds record w [] (w.set id f) ∧ (w.set id f).Ready env record limit id := by
  obtain ⟨ha, cell, hc, hw, hd⟩ := h
  unfold World.set
  rw [change_of_cell hc]
  refine ⟨⟨rfl, Array.size_modify, (List.append_nil _).symm⟩, ha, _, getElem?_put_self hc _, hf _ hw, hd⟩

end Ready

theorem awaitEnd_finished (d : Duration) (h : w.holds id (·.finished) = true) : w.awaitEnd (run env) id d = w := by
  unfold awaitEnd stimulate keep await
  exact if_pos (by simp [h])

end World

end LogRelay
