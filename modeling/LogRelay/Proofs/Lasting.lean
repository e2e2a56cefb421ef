import LogRelay.Appender

/-!
# What lasts in a world

Running a writer changes the world in a few ways only: the clock moves on, an appointment is kept, a
writer is called, goes on by itself or takes in an answer. What survives each of these survives any
run, and with it everything that an appender does.
-/

namespace LogRelay

inductive Writer.Called (Tunes : Prop) (w : Writer) (now : Instant) : Writer × List Notice → Prop
  | add (m : Message) : Called Tunes w now (w.add m now)
  | stop : Called Tunes w now (w.stop now)
  | setBatchDelay (ht : Tunes) (d : Duration) : Called Tunes w now (w.setBatchDelay d, [])
  | setThreshold (ht : Tunes) (n : Nat) : Called Tunes w now (w.setThreshold n, [])
  | setAction (ht : Tunes) (a : DiscardAction) : Called Tunes w now (w.setAction a, [])

variable {A : Api} {σ : Type}

def Stimulus.Tunes : Stimulus σ → Prop
  | .setBatchDelay _ | .setThreshold _ | .setAction _ => True
  | _ => False

structure Appointment.Fits (a : Appointment σ) (Calls : Nat → Prop) (Tunes : Prop) : Prop where
  calls : Calls a.writer
  tunes : a.stimulus.Tunes → Tunes

namespace World

/-- `P` survives every change that running writers makes to a world. `Calls` are the writers that
are called meanwhile: those that have appointments, and those that wait for nothing. `Tunes` says
whether they may be tuned. -/
structure Lasting (env : Environment A σ) (Calls : Nat → Prop) (Tunes : Prop) (P : World A σ → Prop) :
    Prop where
  clock : ∀ {w t}, P w → w.now ≤ t → P { w with now := t }
  appointment : ∀ {w a rest}, P w → w.agenda = a :: rest → a.Fits Calls Tunes ∧ P { w with agenda := rest }
  endless : ∀ {w id cell}, P w → w.cells[id]? = some cell →
    cell.writer.next cell.destination.toMeasure w.now = .wait none → Calls id
  outside : ∀ {w} s, P w → P { w with outside := s }
  threads : ∀ {w} ids, P w → P { w with threads := ids }
  runsStopped : ∀ {w} b, P w → P { w with runsStopped := b }
  diagnostics : ∀ {w} d, P w → P { w with diagnostics := d }
  remembered : ∀ {w} id m, P w → P (w.adjust id ({ · with memory := m }))
  called : ∀ {w id cell r}, Calls id → P w → w.cells[id]? = some cell → cell.writer.Called Tunes w.now r →
    P (w.put id r)
  started : ∀ {w id cell}, P w → w.cells[id]? = some cell → P (w.put id (cell.writer.start, []))
  moved : ∀ {w id cell r}, P w → w.cells[id]? = some cell →
    cell.writer.next cell.destination.toMeasure w.now = .go r.1 r.2 → P (w.put id r)
  checked : ∀ {w id cell} result, P w → w.cells[id]? = some cell → P (w.put id (cell.writer.checked result))
  sent : ∀ {w id cell} batch last result, P w → w.cells[id]? = some cell →
    P (w.put id (cell.writer.sent batch last result))
  closed : ∀ {n w w' id cell cell' result}, P w → w.cells[id]? = some cell →
    w.perform env (drive env n) id cell.destination.shutdown = (result, w') → P w' →
    w'.cells[id]? = some cell' → P (w'.put id (cell'.writer.closed result))

theorem change_eq (id : Nat) (f : Writer → Writer × List Notice) (w : World A σ) :
    w.change id f = w ∨ ∃ cell, w.cells[id]? = some cell ∧ w.change id f = w.put id (f cell.writer) := by
  unfold change writer?
  cases hc : w.cells[id]? with
  | none => exact .inl rfl
  | some cell => exact .inr ⟨cell, rfl, rfl⟩

variable {P : World A σ → Prop} {w : World A σ}

theorem change_induct {id : Nat} {f : Writer → Writer × List Notice} (hP : P w)
    (hf : ∀ cell, w.cells[id]? = some cell → P (w.put id (f cell.writer))) : P (w.change id f) := by
  rcases change_eq id f w with heq | ⟨cell, hc, heq⟩
  · rw [heq]
    exact hP
  · rw [heq]
    exact hf cell hc

theorem settle_induct {run : Nat → World A σ → World A σ} {id : Nat} (hP : P w) (hrun : P (run id w)) :
    P (w.settle run id) := by
  unfold settle
  split
  · exact hrun
  · exact hP

namespace Lasting

variable {env : Environment A σ} {Calls : Nat → Prop} {Tunes : Prop}

section
variable (h : Lasting env Calls Tunes P)
include h

theorem call {id : Nat} {f : Writer → Writer × List Notice} (hi : Calls id) (hP : P w)
    (hf : ∀ writer : Writer, writer.Called Tunes w.now (f writer)) : P (w.change id f) :=
  change_induct hP fun cell hc => h.called hi hP hc (hf cell.writer)

theorem start (id : Nat) (hP : P w) : P (w.set id Writer.start) := change_induct hP fun _ hc => h.started hP hc

theorem begin (id : Nat) (hP : P w) : P (w.begin id) := h.start id (h.threads _ hP)

theorem nextDue? {limit : Option Instant} {a : Appointment σ} {w' : World A σ} (hP : P w)
    (hn : w.nextDue? limit = some (a, w')) : a.Fits Calls Tunes ∧ P w' := by
  unfold World.nextDue? at hn
  split at hn
  · cases hn
  · rename_i a' rest ha
    split at hn
    · cases hn
      obtain ⟨hi, hP'⟩ := h.appointment hP ha
      exact ⟨hi, h.clock hP' (Nat.le_max_left _ _)⟩
    · cases hn

section
variable {run : Nat → World A σ → World A σ} (hrun : ∀ id w, P w → P (run id w))
include hrun

theorem add {id : Nat} (hi : Calls id) (m : Message) (hP : P w) : P (w.add run id m) := by
  have hP' := h.call hi hP fun _ => .add m
  exact settle_induct hP' (hrun id _ hP')

theorem addAll {id : Nat} (hi : Calls id) (drafts : List Draft) (hP : P w) : P (w.addAll run id drafts) := by
  have hfold : ∀ (ds : List Draft) (v : World A σ), P v →
      P (ds.foldl (fun v d => v.add run id (d.message w.wall)) v) := by
    intro ds
    induction ds with
    | nil => exact fun v hv => hv
    | cons d ds ih => exact fun v hv => ih _ (h.add hrun hi _ hv)
  exact hfold drafts w hP

theorem stop {id : Nat} (hi : Calls id) (hP : P w) : P (w.stop run id) := by
  have hP' := h.call hi hP fun _ => .stop
  exact settle_induct hP' (hrun id _ hP')

theorem finishStopped (isOver : World A σ → Bool) (n : Nat) (hP : P w) : P (w.finishStopped run isOver n) := by
  induction n generalizing w with
  | zero => exact hP
  | succ n ih =>
    unfold World.finishStopped
    split
    · exact hP
    · split
      · rename_i id w' hb
        unfold beginStopped? at hb
        obtain ⟨id', -, hb⟩ := Option.map_eq_some_iff.mp hb
        cases hb
        exact ih (hrun _ _ (h.begin _ hP))
      · exact hP

theorem giveWay (isOver : World A σ → Bool) (hP : P w) : P (w.giveWay run isOver) := by
  unfold World.giveWay
  split
  · exact h.runsStopped _ (h.finishStopped hrun isOver _ (h.runsStopped _ hP))
  · exact hP

end

section
variable {keep : Appointment σ → World A σ → World A σ} (hkeep : ∀ a w, a.Fits Calls Tunes → P w → P (keep a w))
include hkeep

theorem attend {giveUp : World A σ → World A σ} {limit : Option Instant}
    (hgive : limit = none → ∀ w, P w → P (giveUp w)) (isOver : World A σ → Bool) (n : Nat) (hP : P w) :
    P (attend keep giveUp isOver limit n w) := by
  induction n generalizing w with
  | zero => exact hP
  | succ n ih =>
    unfold World.attend
    split
    · rename_i a w' hn
      obtain ⟨hi, hP'⟩ := h.nextDue? hP hn
      dsimp only
      split
      · exact hkeep _ _ hi hP'
      · exact ih (hkeep _ _ hi hP')
    · split
      · exact h.clock hP (Nat.le_max_left _ _)
      · exact hgive rfl _ hP

theorem passTo (target : Instant) (n : Nat) (hP : P w) : P (passTo keep target n w) := by
  induction n generalizing w with
  | zero => exact h.clock hP (Nat.le_max_left _ _)
  | succ n ih =>
    unfold World.passTo
    split
    · rename_i a w' hn
      obtain ⟨hi, hP'⟩ := h.nextDue? hP hn
      exact ih (hkeep _ _ hi hP')
    · exact h.clock hP (Nat.le_max_left _ _)

theorem await {run : Nat → World A σ → World A σ} (hrun : ∀ id w, P w → P (run id w))
    {giveUp : World A σ → World A σ} {limit : Option Instant}
    (hgive : limit = none → ∀ w, P w → P (giveUp w)) (isOver : World A σ → Bool) (hP : P w) :
    P (w.await run keep giveUp isOver limit) := by
  unfold World.await
  split
  · exact hP
  · dsimp only
    split
    · exact h.giveWay hrun isOver hP
    · exact h.attend hkeep hgive isOver _ (h.giveWay hrun isOver hP)

end

section
variable {run : Nat → World A σ → World A σ} (hrun : ∀ id w, P w → P (run id w))
include hrun

theorem keep (n : Nat) (a : Appointment σ) (w : World A σ) (hi : a.Fits Calls Tunes) (hP : P w) :
    P (World.keep run n a w) := by
  induction n generalizing a w with
  | zero => exact hP
  | succ n ih =>
    unfold World.keep
    split
    · exact h.addAll hrun hi.calls _ hP
    · exact h.stop hrun hi.calls hP
    · rename_i hs
      exact h.call hi.calls hP fun _ => .setBatchDelay (hi.tunes (hs ▸ trivial)) _
    · rename_i hs
      exact h.call hi.calls hP fun _ => .setThreshold (hi.tunes (hs ▸ trivial)) _
    · rename_i hs
      exact h.call hi.calls hP fun _ => .setAction (hi.tunes (hs ▸ trivial)) _
    · exact h.await ih hrun (fun hn => by cases hn) _ hP
    · exact h.await ih hrun (fun hn => by cases hn) _ hP
    · exact h.passTo ih _ _ hP
    · exact h.outside _ hP

theorem elapse (d : Duration) (hP : P w) : P (w.elapse run d) := h.passTo (h.keep hrun _) _ _ hP

theorem abandon {id : Nat} (hi : Calls id) (hP : P w) : P (w.abandon run id) := by
  unfold World.abandon
  split
  · exact hP
  · exact h.stop hrun hi hP

theorem awaitMessage {id : Nat} {limit : Option Instant} (hi : limit = none → Calls id) (hP : P w) :
    P (w.awaitMessage run id limit) :=
  h.await (h.keep hrun _) hrun (fun hn _ => h.abandon hrun (hi hn)) _ hP

theorem perform {α : Type} (id : Nat) (plan : Plan A α) (hP : P w) : P (w.perform env run id plan).2 := by
  unfold World.perform
  induction plan generalizing w with
  | done a => exact hP
  | call r next ih =>
    have hcall : P (((ground env run id).call r w).2) := by
      unfold ground
      dsimp only
      split
      · exact h.outside _ (h.elapse hrun _ (h.outside _ hP))
      · exact h.outside _ (h.outside _ hP)
    rw [Plan.run]
    split
    · rename_i x w' heq
      rw [heq] at hcall
      exact ih x hcall
    · rename_i p w' heq
      rw [heq] at hcall
      exact hcall
  | sleep d next ih => exact ih (h.elapse hrun d hP)
  | clock next ih => exact ih _ hP
  | draw next ih => exact ih _ (h.outside _ hP)
  | note e next ih => exact ih (h.diagnostics _ hP)
  | consult next ih => exact ih _ hP
  | remember m next ih => exact ih (h.remembered id m hP)
  | raise p => exact hP

end

theorem drive (n id : Nat) (w : World A σ) (hP : P w) : P (drive env n id w) := by
  induction n generalizing id w with
  | zero => exact hP
  | succ n ih =>
    unfold World.drive
    split
    · exact hP
    · rename_i cell hc
      split
      · exact hP
      · rename_i writer ns hn
        exact ih _ _ (h.moved hP hc hn)
      · rename_i limit hn
        have hP' := h.awaitMessage ih (fun hl => h.endless hP hc (hl ▸ hn)) hP
        dsimp only
        split
        · exact hP'
        · exact ih _ _ hP'
      · have hP' := h.perform ih id cell.destination.makeAvailable hP
        exact ih _ _ (change_induct hP' fun _ hc' => h.checked _ hP' hc')
      · rename_i batch last hn
        have hP' := h.perform ih id (cell.destination.send batch) hP
        exact ih _ _ (change_induct hP' fun _ hc' => h.sent batch last _ hP' hc')
      · have hP' := h.perform ih id cell.destination.shutdown hP
        exact ih _ _ (change_induct hP' fun _ hc' => h.closed hP hc rfl hP' hc')

theorem run (id : Nat) (w : World A σ) (hP : P w) : P (run env id w) := h.drive _ id w hP

end

end Lasting

end World

end LogRelay
