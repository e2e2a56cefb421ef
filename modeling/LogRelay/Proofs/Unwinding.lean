import LogRelay.Proofs.Acts
import LogRelay.Proofs.Passes

/-!
# Panics that reach the application

A panic of the destination is caught and recorded while a synchronous writer takes a message. What gets
past the writer does so while it is being stopped: a panic in counting what is left, or in shutting the
destination down. An appender stops a writer when it rotates and when it is closed.
-/

namespace LogRelay

variable {A : Api} {σ : Type} {env : Environment A σ}

open World (drive run)

/-- The destination may raise this panic while its writer is being stopped, other than by sending. -/
def Destination.LetsOut (env : Environment A σ) (d : Destination A) (p : Panic) : Prop :=
  d.toMeasure.Panics p ∨ ∃ n id, ∃ w : World A σ, (w.perform env (drive env n) id d.shutdown).1 = .error p

/-! ## Where a panic that got out comes from -/

namespace Writer

variable {w : Writer} {now : Instant} {r : Writer × List Notice} {p : Panic}

theorem queue_isStopped (m : Message) (now : Instant) : (w.queue m now).isStopped = w.isStopped := by
  by_cases hup : (w.synchronous && w.initialized && !w.isStopped) = true
  · rw [queue_up hup]
    rfl
  · rw [queue_not_up hup]
    rfl

theorem queue_unwound {m : Message} (h : (w.queue m now).phase = .unwound p) : w.phase = .unwound p := by
  by_cases hup : (w.synchronous && w.initialized && !w.isStopped) = true
  · rw [queue_up hup] at h
    cases h
  · rw [queue_not_up hup] at h
    exact h

theorem Called.isStopped {Tunes : Prop} (hr : w.Called Tunes now r) (hd : w.isStopped = true) : r.1.isStopped = true := by
  cases hr with
  | add m =>
    rw [add_fst]
    split
    · rw [queue_isStopped]
      exact hd
    · exact hd
  | stop =>
    unfold Writer.stop
    rw [if_pos hd]
    exact hd
  | setBatchDelay _ _ | setThreshold _ _ | setAction _ _ => exact hd

theorem Called.unwound {Tunes : Prop} (hr : w.Called Tunes now r) (h : r.1.phase = .unwound p) : w.phase = .unwound p := by
  cases hr with
  | add m =>
    rw [add_fst] at h
    split at h
    · exact queue_unwound h
    · exact h
  | stop =>
    unfold Writer.stop at h
    dsimp only at h
    split at h
    · exact h
    · split at h
      · exact h
      · split at h <;> cases h
  | setBatchDelay _ _ | setThreshold _ _ | setAction _ _ => exact h

theorem panicked_unwound {q : Panic} (h : (w.panicked q).1.phase = .unwound p) :
    p = q ∧ (w.panicked q).1.isStopped = true := by
  unfold panicked at h ⊢
  by_cases hs : (!w.synchronous) = true
  · rw [if_pos hs] at h
    cases h
  · rw [if_neg hs] at h ⊢
    by_cases hd : w.isStopped = true
    · rw [if_pos hd] at h ⊢
      cases h
      exact ⟨rfl, hd⟩
    · rw [if_neg hd] at h
      cases h

theorem unwound?_eq_some_iff : w.unwound? = some p ↔ w.phase = .unwound p := by
  unfold unwound?
  split
  · rename_i q hq
    rw [hq]
    simp
  · rename_i hq
    simpa using hq p

theorem turn_not_unwound (progressed last : Bool) : (w.turn progressed last).1.phase ≠ .unwound p := by
  unfold turn
  repeat' split
  all_goals exact fun h => by cases h

theorem Move.unwound {μ : Measure} (hm : w.Move μ now r) (h : r.1.phase = .unwound p) :
    r.1.isStopped = true ∧ μ.Panics p := by
  cases hm with
  | balk hp hq hb =>
    obtain ⟨rfl, hd⟩ := panicked_unwound h
    exact ⟨hd, .inl ⟨_, hb⟩⟩
  | spill hp hf =>
    obtain ⟨rfl, hd⟩ := panicked_unwound h
    exact ⟨hd, Measure.fill_panics hf⟩
  | interrupted _ _ _ | expire _ _ _ _ => exact absurd h (turn_not_unwound _ _)
  | @fill batch limit last f hp hf hm =>
    dsimp only at h
    split at h <;> cases h
  | _ => cases h

theorem checked_not_unwound (result : Except Panic (Except Failure Unit)) :
    (w.checked result).1.phase ≠ .unwound p := by
  unfold checked
  rcases result with q | e | _
  · exact fun h => by cases h
  · by_cases hs : w.synchronous = true <;> simp [hs]
  · by_cases hs : w.synchronous = true <;> simp [hs]

theorem sent_not_unwound (batch : List Message) (last : Bool) (result : Except Panic (Except Failure (List Nat))) :
    (w.sent batch last result).1.phase ≠ .unwound p := by
  rw [sent_fst]
  exact turn_not_unwound _ _

theorem closed_unwound {result : Except Panic Unit} (h : (w.closed result).1.phase = .unwound p) :
    result = .error p ∧ (w.closed result).1.isStopped = true := by
  cases result with
  | ok _ => cases h
  | error q =>
    obtain ⟨rfl, hd⟩ := panicked_unwound h
    exact ⟨rfl, hd⟩

end Writer

namespace World

variable {w w' : World A σ} {id : Nat} {cell : Cell A} {p : Panic}

theorem lasting_destination (env : Environment A σ) (id : Nat) (d : Destination A) :
    Appender.Lasting env True (fun _ => True) (fun w => (w.cells[id]?).map Cell.destination = some d) := by
  refine Appender.lasting_of_adjust (fun h hc _ _ => by rwa [hc]) (fun i f hf h => ?_) fun {w s d' o limit} h _ => ?_
  · exact (map_modify hf _ i id).trans h
  · obtain ⟨cell, hc, hd⟩ := Option.map_eq_some_iff.mp h
    have hlt : id < w.cells.size := (Array.getElem?_eq_some_iff.mp hc).1
    simp [Array.getElem?_push, Nat.ne_of_lt hlt, hc, hd]

def Accounted (env : Environment A σ) (w : World A σ) : Prop :=
  ∀ (id : Nat) (cell : Cell A) (p : Panic), w.cells[id]? = some cell → cell.writer.phase = .unwound p →
    cell.writer.isStopped = true ∧ cell.destination.LetsOut env p

theorem Accounted.put {r : Writer × List Notice} (h : Accounted env w) (hc : w.cells[id]? = some cell)
    (hr : ∀ p, r.1.phase = .unwound p → r.1.isStopped = true ∧ cell.destination.LetsOut env p) :
    Accounted env (w.put id r) := by
  intro j c p hj hp
  by_cases hid : id = j
  · subst hid
    rw [getElem?_put_self hc] at hj
    cases hj
    exact hr p hp
  · rw [getElem?_put, if_neg hid] at hj
    exact h j c p hj hp

theorem lasting_accounted (env : Environment A σ) :
    Appender.Lasting env True (fun _ => True) (Accounted env) where
  clock h _ := h
  appointment h _ := ⟨⟨trivial, fun _ => trivial⟩, h⟩
  endless _ _ _ := trivial
  outside _ h := h
  threads _ h := h
  runsStopped _ h := h
  diagnostics _ h := h
  remembered := by
    intro w i m h j c p hj hp
    change (w.cells.modify i _)[j]? = some c at hj
    rw [Array.getElem?_modify] at hj
    split at hj
    · obtain ⟨c', hc', rfl⟩ := Option.map_eq_some_iff.mp hj
      exact h j c' p hc' hp
    · exact h j c p hj hp
  called := by
    intro w id cell r _ h hc hr
    refine h.put hc fun p hp => ?_
    obtain ⟨hd, hl⟩ := h id cell p hc (hr.unwound hp)
    exact ⟨hr.isStopped hd, hl⟩
  started := by
    intro w id cell h hc
    refine h.put hc fun p hp => ?_
    unfold Writer.start at hp ⊢
    split at hp
    · cases hp
    · simp only [*]
      exact h id cell p hc hp
  moved := by
    intro w id cell r h hc hn
    refine h.put hc fun p hp => ?_
    obtain ⟨hd, hl⟩ := (Writer.move_of_next hn).unwound hp
    exact ⟨hd, .inl hl⟩
  checked result h hc := h.put hc fun p hp => absurd hp (Writer.checked_not_unwound result)
  sent batch last result h hc := h.put hc fun p hp => absurd hp (Writer.sent_not_unwound batch last result)
  closed := by
    intro n w w' id cell cell' result h hc hr h' hc'
    refine h'.put hc' fun p hp => ?_
    obtain ⟨rfl, hd⟩ := Writer.closed_unwound hp
    have hdest := (lasting_destination env id cell.destination).perform
      ((lasting_destination env id cell.destination).drive n) id cell.destination.shutdown
      (by rw [hc]; rfl : (w.cells[id]?).map Cell.destination = some cell.destination)
    rw [hr, hc'] at hdest
    rw [← Option.some.inj hdest] at hr
    exact ⟨hd, .inr ⟨n, id, w, by rw [hr]⟩⟩
  made := by
    intro w s d o limit _ h _ _ j c p hj hp
    change (w.cells.push _)[j]? = some c at hj
    rw [Array.getElem?_push] at hj
    split at hj
    · cases hj
      cases hp
    · exact h j c p hj hp

theorem unwound?_eq_some (h : w.unwound? = some p) :
    ∃ (id : Nat) (cell : Cell A), w.cells[id]? = some cell ∧ cell.writer.phase = .unwound p := by
  obtain ⟨cell, hmem, hcell⟩ := List.exists_of_findSome?_eq_some h
  obtain ⟨id, hid⟩ := List.getElem?_of_mem hmem
  exact ⟨id, cell, by rw [← Array.getElem?_toList]; exact hid, Writer.unwound?_eq_some_iff.mp hcell⟩

theorem unwound?_eq_none :
    w.unwound? = none ↔ ∀ (id : Nat) (cell : Cell A) (p : Panic), w.cells[id]? = some cell →
      cell.writer.phase ≠ .unwound p := by
  constructor
  · intro h id cell p hc hp
    have hmem : cell ∈ w.cells.toList := by
      rw [← Array.getElem?_toList] at hc
      exact List.mem_of_getElem? hc
    have hnone := List.findSome?_eq_none_iff.mp h cell hmem
    rw [Writer.unwound?_eq_some_iff.mpr hp] at hnone
    cases hnone
  · intro h
    cases hu : w.unwound? with
    | none => rfl
    | some p =>
      obtain ⟨id, cell, hc, hp⟩ := unwound?_eq_some hu
      exact absurd hp (h id cell p hc)

theorem accounted_of_none (h : w.unwound? = none) : Accounted env w := fun id cell p hc hp =>
  absurd hp (unwound?_eq_none.mp h id cell p hc)

/-- The origin of a panic that got out. -/
def Blamed (env : Environment A σ) (w : World A σ) (p : Panic) : Prop :=
  ∃ cell ∈ w.cells, cell.writer.isStopped = true ∧ cell.destination.LetsOut env p

theorem Accounted.blamed (h : Accounted env w) (hu : w.unwound? = some p) : w.Blamed env p := by
  obtain ⟨id, cell, hc, hp⟩ := unwound?_eq_some hu
  exact ⟨cell, Array.mem_of_getElem? hc, h id cell p hc hp⟩

/-! ## What holds panics in -/

structure Contained (w : World A σ) : Prop where
  agenda : w.agenda = []
  unwound : w.unwound? = none

def Waits (id : Nat) (w : World A σ) : Prop :=
  ∃ cell, w.cells[id]? = some cell ∧ cell.writer.synchronous = true ∧ cell.writer.phase = .idle

theorem Contained.of_apart (h : Contained w) (hw : Apart (· = id) w w') (hi : w'.Waits id) : Contained w' := by
  refine ⟨hw.agenda.trans h.agenda, unwound?_eq_none.mpr fun j c p hc hp => ?_⟩
  by_cases hj : j = id
  · subst hj
    obtain ⟨cell, hc', -, hidle⟩ := hi
    rw [hc] at hc'
    cases hc'
    rw [hidle] at hp
    cases hp
  · have hwriter := hw.writers j hj
    unfold writer? at hwriter
    rw [hc] at hwriter
    obtain ⟨c', hc', heq⟩ := Option.map_eq_some_iff.mp hwriter.symm
    exact unwound?_eq_none.mp h.unwound j c' p hc' (heq ▸ hp)

theorem Contained.put (h : Contained w) (hc : w.cells[id]? = some cell) {r : Writer × List Notice}
    (hs : r.1.synchronous = true) (hp : r.1.phase = .idle) : Contained (w.put id r) ∧ (w.put id r).Waits id := by
  have hw : (w.put id r).Waits id := ⟨_, getElem?_put_self hc r, hs, hp⟩
  exact ⟨h.of_apart (.put id r w) hw, hw⟩

variable (env) in
theorem Contained.add (h : Contained w) (hw : w.Waits id) (m : Message) :
    (w.add (run env) id m).Contained ∧ (w.add (run env) id m).Waits id := by
  obtain ⟨cell, hc, hs, hp⟩ := hw
  obtain ⟨hapart, cell', hc', -, -, hcell'⟩ := add_rests env h.agenda hc hs hp m
  have hw' : (w.add (run env) id m).Waits id := ⟨cell', hc', by rw [hcell']; exact hs, by rw [hcell']⟩
  exact ⟨h.of_apart hapart hw', hw'⟩

theorem Contained.start (h : Contained w) (hw : w.Waits id) :
    ((w.set id Writer.start).run env id).Contained ∧ ((w.set id Writer.start).run env id).Waits id := by
  obtain ⟨cell, hc, hs, hp⟩ := hw
  obtain ⟨n, result, v, hr, heq⟩ := start_run env h.agenda hc hs hp
  have hput := getElem?_put_self hc ({ cell.writer with phase := .checking }, [])
  obtain ⟨cell', hc', -, hcell'⟩ := perform_seat hr h.agenda hput
  have hs' : cell'.writer.synchronous = true := by rw [hcell']; exact hs
  rw [heq, change_of_cell hc']
  have hw' : (v.put id (cell'.writer.checked result)).Waits id := by
    exact ⟨_, getElem?_put_self hc' _, (Writer.checked_synchronous result).trans hs',
      Writer.checked_phase hs' result⟩
  have hv := (Apart.put id _ w).trans ((Apart.of_perform hr h.agenda).mono fun _ h => h.elim)
  exact ⟨h.of_apart (hv.trans (.put id _ v)) hw', hw'⟩

inductive Call
  | add (m : Message)
  | stop

def call (env : Environment A σ) (id : Nat) (w : World A σ) : Call → World A σ
  | .add m => w.add (run env) id m
  | .stop => w.stop (run env) id

def calls (env : Environment A σ) (id : Nat) (cs : List Call) (w : World A σ) : World A σ :=
  cs.foldl (call env id) w

variable (env) in
theorem Contained.calls (h : Contained w) (hw : w.Waits id) {cs : List Call} (hcs : .stop ∉ cs) :
    (w.calls env id cs).Contained ∧ (w.calls env id cs).Waits id := by
  induction cs generalizing w with
  | nil => exact ⟨h, hw⟩
  | cons c cs ih =>
    rw [List.mem_cons, not_or] at hcs
    cases c with
    | add m =>
      obtain ⟨h', hw'⟩ := h.add env hw m
      exact ih h' hw' hcs.2
    | stop => exact absurd rfl hcs.1

theorem Accounted.calls (h : Accounted env w) (cs : List Call) : Accounted env (w.calls env id cs) := by
  induction cs generalizing w with
  | nil => exact h
  | cons c cs ih =>
    refine ih ?_
    cases c with
    | add m => exact (lasting_accounted env).add id m h
    | stop => exact (lasting_accounted env).stop id h

def Records (message : String) (e : Failure) (w : World A σ) : Prop :=
  ∃ last, w.diagnostics.statistics.lastError = some last ∧ last.message = message ∧
    last.causes = e.text :: e.chains

/-- A synchronous writer asks nothing of its destination when it is given a message, or cannot count one
and records it, or sends a batch and records the panic if there is one. -/
theorem add_records (ha : w.agenda = []) (hc : w.cells[id]? = some cell) (hs : cell.writer.synchronous = true)
    (hp : cell.writer.phase = .idle) (m : Message) :
    (∃ x ns, w.add (run env) id m = w.put id (x, ns)) ∨
    (∃ p, cell.destination.toMeasure.Panics p ∧
      (w.add (run env) id m).Records "synchronous send panicked" p.toFailure ∧
      (w.add (run env) id m).diagnostics.statistics.failures = w.diagnostics.statistics.failures + 1) ∨
    ∃ batch n u, ∃ v : World A σ, ∃ result,
      v.perform env (drive env n) id (cell.destination.send batch) = (result, u) ∧
      ∀ p, result = .error p → (w.add (run env) id m).Records "failed to send batch" p.toFailure := by
  have hfailures : ∀ ns, ns = (cell.writer.add m w.now).2 →
      (w.record ns).diagnostics.statistics.failures = w.diagnostics.statistics.failures := by
    rintro ns rfl
    unfold Writer.add
    repeat' split
    all_goals rfl
  rcases add_passes env ha hc hs hp m with ⟨-, b, -, hb⟩ | ⟨-, hd, m', -, hpass⟩
  · exact .inl ⟨_, _, hb⟩
  · have hf := hfailures _ rfl
    generalize w.add (run env) id m = w' at hpass ⊢
    cases hpass with
    | @nothing b hms hq =>
      exact .inl ⟨{ cell.writer with backlog := b, phase := .idle }, (cell.writer.add m w.now).2, rfl⟩
    | @counting b p hq hpanics =>
      refine .inr (.inl ⟨p, hpanics, ⟨_, rfl, rfl, rfl⟩, ?_⟩)
      rw [← hf]
      rfl
    | @sending b batch n result v hms hne hq hr =>
      refine .inr (.inr ⟨batch, n, v, _, result, hr, ?_⟩)
      rintro p rfl
      have hput := getElem?_put_self (w := w.record (cell.writer.add m w.now).2) hc
        ({ cell.writer with backlog := b, phase := .sending batch false }, [])
      obtain ⟨cell', hc', -, hcell'⟩ := perform_seat hr ha hput
      have hnotices := Writer.sent_panicked (w := cell'.writer) (by rw [hcell']; exact hs)
        (by rw [hcell']; exact hd) batch false p
      rw [change_of_cell hc']
      unfold Records put record
      rw [hnotices]
      exact ⟨_, rfl, rfl, rfl⟩

end World

/-! ## What an appender lets out -/

namespace Appender

open World (Contained Waits)

variable {a : Appender} {w : World A σ}

/-- The writer at hand is a synchronous one, at rest, and so will be all others. -/
structure IsInline (a : Appender) (w : World A σ) : Prop where
  contained : w.Contained
  synchronous : a.settings.synchronous = true
  current : ∀ id, a.current = some id → w.Waits id

section
variable (env)

theorem addText_contained {id : Nat} (h : w.Contained) (hw : w.Waits id) (text : Option String)
    (time : Timestamp) :
    (addText env id text time w).Contained ∧ (addText env id text time w).Waits id := by
  unfold addText
  split
  · exact h.add env hw _
  · exact ⟨h, hw⟩

theorem connect_contained (h : w.Contained) {s : Settings} (hs : s.synchronous = true) :
    (connect env s w).2.Contained ∧ ∀ id, (connect env s w).1 = .ok (.ok id) → (connect env s w).2.Waits id := by
  unfold connect
  dsimp only
  split
  · exact ⟨⟨h.agenda, h.unwound⟩, fun id hid => by cases hid⟩
  · rename_i d hd
    split
    · exact ⟨⟨h.agenda, h.unwound⟩, fun id hid => by cases hid⟩
    · refine ⟨⟨h.agenda, World.unwound?_eq_none.mpr fun j c p hc hp => ?_⟩, fun id hid => ?_⟩
      · change (w.cells.push _)[j]? = some c at hc
        rw [Array.getElem?_push] at hc
        split at hc
        · cases hc
          cases hp
        · exact World.unwound?_eq_none.mp h.unwound j c p hc hp
      · cases hid
        exact ⟨_, Array.getElem?_push_size, hs, rfl⟩

theorem launch_contained {id : Nat} (h : w.Contained) (hw : w.Waits id) :
    (launch env id w).2.Contained ∧ (launch env id w).2.Waits id := by
  obtain ⟨cell, hc, hs, hp⟩ := hw
  unfold launch
  rw [World.holds_of_cell hc, if_pos hs]
  exact h.start ⟨cell, hc, hs, hp⟩

theorem startWriter_contained (h : w.Contained) (hs : a.settings.synchronous = true) :
    (a.startWriter env w).2.Contained ∧
      ∀ id, (a.startWriter env w).1 = .ok (.ok id) → (a.startWriter env w).2.Waits id := by
  have hc := connect_contained env h
    (s := a.settings.resolve (w.host.vocabulary w.wall a.sequence)) hs
  unfold startWriter
  dsimp only
  split
  · rename_i p v heq
    rw [heq] at hc
    exact ⟨hc.1, fun id hid => by cases hid⟩
  · rename_i e v heq
    rw [heq] at hc
    exact ⟨hc.1, fun id hid => by cases hid⟩
  · rename_i id v heq
    rw [heq] at hc
    have hl := launch_contained env hc.1 (hc.2 id rfl)
    split
    · rename_i e u heq'
      rw [heq'] at hl
      exact ⟨hl.1, fun id hid => by cases hid⟩
    · rename_i u heq'
      rw [heq'] at hl
      have ht := addText_contained env hl.1 hl.2 a.header w.wall
      refine ⟨ht.1, fun id' hid => ?_⟩
      cases hid
      exact ht.2

end

theorem IsInline.replaceWriter (h : a.IsInline w) (hn : a.current = none) :
    (a.replaceWriter env w).1.IsInline (a.replaceWriter env w).2 := by
  have hs := startWriter_contained env h.contained h.synchronous
  unfold Appender.replaceWriter
  split
  · rename_i id v heq
    rw [heq] at hs
    refine ⟨hs.1, h.synchronous, fun id' hid => ?_⟩
    cases hid
    exact hs.2 id rfl
  · rename_i e v heq
    rw [heq] at hs
    exact ⟨⟨hs.1.agenda, hs.1.unwound⟩, h.synchronous, fun id hid => by rw [hn] at hid; cases hid⟩
  · rename_i p v heq
    rw [heq] at hs
    exact ⟨hs.1, h.synchronous, fun id hid => by rw [hn] at hid; cases hid⟩

theorem IsInline.mended (h : a.IsInline w) : a.mended.IsInline w := ⟨h.contained, h.synchronous, h.current⟩

variable (env) in
theorem IsInline.equip (h : a.IsInline w) : (a.equip env w).1.IsInline (a.equip env w).2 := by
  have hd : (a.dropFailed w).1.IsInline (a.dropFailed w).2 := by
    unfold dropFailed
    split
    · exact ⟨⟨h.contained.agenda, h.contained.unwound⟩, h.synchronous, fun id hid => by cases hid⟩
    · exact h
  unfold Appender.equip
  dsimp only
  split
  · rename_i hn
    exact hd.replaceWriter (Option.isNone_iff_eq_none.mp hn)
  · exact hd

theorem IsInline.set (h : a.IsInline w) {f : Writer → Writer}
    (hf : ∀ x : Writer, (f x).synchronous = x.synchronous ∧ (f x).phase = x.phase) : a.IsInline (a.set f w) := by
  cases hc : a.current with
  | none =>
    rw [set_of_none hc]
    exact h
  | some id =>
    obtain ⟨cell, hcell, hs, hp⟩ := h.current id hc
    have hput := h.contained.put hcell (r := (f cell.writer, [])) ((hf _).1.trans hs) ((hf _).2.trans hp)
    rw [set_of_some hc]
    unfold World.set
    rw [World.change_of_cell hcell]
    refine ⟨hput.1, h.synchronous, fun id' hid => ?_⟩
    rw [hc] at hid
    cases hid
    exact hput.2

def Scene.stops (x : Scene A σ) : Bool :=
  match x.act with
  | .rotate | .close => true
  | _ => x.appends && x.before.rotation.isDue x.reading

theorem IsInline.appendMessage (h : a.IsInline w) (m : Message)
    (hd : a.closed = true ∨ a.rotation.isDue w.wall.millis = false) :
    (a.appendMessage env m w).1.IsInline (a.appendMessage env m w).2 := by
  by_cases ho : a.closed = true
  · unfold Appender.appendMessage
    rw [if_pos ho]
    exact h
  · have hd : a.rotation.isDue w.wall.millis = false := hd.resolve_left ho
    have he := h.mended.equip env
    have hready : a.mended.prepare env w = a.mended.equip env w := by
      rw [prepare_eq, turned_of_not_due (a := a.mended) hd]
      rfl
    rw [appendMessage_eq m (Bool.eq_false_iff.mpr ho), hready]
    split
    · rename_i id hid
      obtain ⟨hc, hw⟩ := he.contained.add env (he.current id hid) m
      refine ⟨hc, he.synchronous, fun id' hid' => ?_⟩
      rw [hid] at hid'
      cases hid'
      exact hw
    · exact he

theorem IsInline.scene (h : a.IsInline w) {x : Turn A σ} (hx : x.Idles) (hn : (x.scene env a w).stops = false) :
    (x.scene env a w).after.IsInline (x.scene env a w).outcome := by
  obtain ⟨hcells, hagenda⟩ := hx w
  have hv : a.IsInline (x.meanwhile w) := by
    refine ⟨⟨hagenda.trans h.contained.agenda, ?_⟩, h.synchronous, fun id hid => ?_⟩
    · unfold World.unwound?
      rw [hcells]
      exact h.contained.unwound
    · obtain ⟨cell, hc, hcell⟩ := h.current id hid
      exact ⟨cell, by rw [hcells]; exact hc, hcell⟩
  obtain ⟨meanwhile, act⟩ := x
  have hlog : ∀ m, act.message? (meanwhile w).wall = some m →
      a.closed = true ∨ a.rotation.isDue (meanwhile w).wall.millis = false := by
    intro m hm
    by_cases ho : a.closed = true
    · exact .inl ho
    · have happends : (Turn.scene env ⟨meanwhile, act⟩ a w).appends = true := by
        change (if a.closed then none else act.message? (meanwhile w).wall).isSome = true
        rw [if_neg ho, hm]
        rfl
      unfold Scene.stops at hn
      rw [happends, Bool.true_and] at hn
      cases act with
      | append _ | appendMessage _ => exact .inr hn
      | _ => cases hm
  cases act with
  | append text => exact hv.appendMessage _ (hlog _ rfl)
  | appendMessage m => exact hv.appendMessage m (hlog m rfl)
  | rotate | close => cases hn
  | setBatchDelay d =>
    have hset := hv.set (f := (·.setBatchDelay d)) fun _ => ⟨rfl, rfl⟩
    exact ⟨hset.contained, h.synchronous, hset.current⟩
  | setThreshold n =>
    have hset := hv.set (f := (·.setThreshold n)) fun _ => ⟨rfl, rfl⟩
    exact ⟨hset.contained, h.synchronous, hset.current⟩
  | setAction d =>
    have hset := hv.set (f := (·.setAction d)) fun _ => ⟨rfl, rfl⟩
    exact ⟨hset.contained, h.synchronous, hset.current⟩

theorem IsInline.play {turns : List (Turn A σ)} (h : a.IsInline w) (hx : ∀ x ∈ turns, x.Idles)
    (hn : ∀ x ∈ scenes env turns a w, x.stops = false) :
    (play env turns a w).1.IsInline (play env turns a w).2 := by
  induction turns generalizing a w with
  | nil => exact h
  | cons x rest ih =>
    refine ih (h.scene (hx x List.mem_cons_self) (hn _ List.mem_cons_self)) ?_ ?_
    · exact fun y hy => hx y (List.mem_cons_of_mem x hy)
    · exact fun y hy => hn y (List.mem_cons_of_mem _ hy)

end Appender

/-- A panic reaches the application only when a writer is stopped, and only one that was raised in counting
messages or in shutting a destination down. Taking a message, a synchronous writer records the panics of its
destination and comes back to rest. -/
theorem panics_let_out (env : Environment A σ) :
    (∀ (w : World A σ) (id : Nat), w.Contained → w.Waits id →
      (∀ cs p, (w.calls env id cs).unwound? = some p → .stop ∈ cs ∧ (w.calls env id cs).Blamed env p) ∧
      ∀ m, (w.add (run env) id m).Contained ∧ (w.add (run env) id m).Waits id ∧
        ∃ cell, w.cells[id]? = some cell ∧
          ((∃ x ns, w.add (run env) id m = w.put id (x, ns)) ∨
          (∃ p, cell.destination.toMeasure.Panics p ∧
            (w.add (run env) id m).Records "synchronous send panicked" p.toFailure ∧
            (w.add (run env) id m).diagnostics.statistics.failures = w.diagnostics.statistics.failures + 1) ∨
          ∃ batch n u, ∃ v : World A σ, ∃ result,
            v.perform env (drive env n) id (cell.destination.send batch) = (result, u) ∧
            ∀ p, result = .error p → (w.add (run env) id m).Records "failed to send batch" p.toFailure)) ∧
    ∀ (a : Appender) (w : World A σ) (turns : List (Appender.Turn A σ)), a.IsInline w →
      (∀ x ∈ turns, x.Idles) → ∀ p, (Appender.play env turns a w).2.unwound? = some p →
        (∃ x ∈ Appender.scenes env turns a w, x.stops = true) ∧ (Appender.play env turns a w).2.Blamed env p := by
  refine ⟨fun w id h hw => ⟨fun cs p hu => ⟨?_, ?_⟩, fun m => ?_⟩, fun a w turns h hx p hu => ⟨?_, ?_⟩⟩
  · by_cases hcs : World.Call.stop ∈ cs
    · exact hcs
    · have hnone := (h.calls env hw hcs).1.unwound
      rw [hu] at hnone
      cases hnone
  · exact ((World.accounted_of_none h.unwound).calls cs).blamed hu
  · obtain ⟨hc, hw'⟩ := h.add env hw m
    obtain ⟨cell, hcell, hs, hp⟩ := hw
    exact ⟨hc, hw', cell, hcell, World.add_records h.agenda hcell hs hp m⟩
  · by_cases hn : ∃ x ∈ Appender.scenes env turns a w, x.stops = true
    · exact hn
    · have hcalm : ∀ x ∈ Appender.scenes env turns a w, x.stops = false := by
        intro x hx
        exact Bool.eq_false_iff.mpr fun hs => hn ⟨x, hx, hs⟩
      have hnone := (h.play hx hcalm).contained.unwound
      rw [hu] at hnone
      cases hnone
  · have hmeanwhile : ∀ x ∈ turns, ∀ v, World.Accounted env v → World.Accounted env (x.meanwhile v) := by
      intro x hmem v hv id cell p hc
      rw [(hx x hmem v).1] at hc
      exact hv id cell p hc
    exact ((World.lasting_accounted env).play hmeanwhile a (World.accounted_of_none h.contained.unwound)).blamed hu

def fragile : Destination ⟨Empty, fun _ => Unit⟩ where
  effectiveSize m := if m.text = "bad" then .error { payload := some "cannot count" } else .ok m.size
  withinLimits _ _ := .ok true
  name _ := "fragile"
  maxMessageSize := .ok 100
  makeAvailable := .done (.ok ())
  send _ := .done (.ok [])
  shutdown := .done ()

def glassworks : Environment ⟨Empty, fun _ => Unit⟩ Unit where
  ask _ r := nomatch r
  draw o := (0, o)
  connect _ _ o := (.ok fragile, o)
  spawn o := (.ok (), o)

def laden : World ⟨Empty, fun _ => Unit⟩ Unit :=
  let s : Settings := { target := .sns {}, synchronous := true }
  let w : World ⟨Empty, fun _ => Unit⟩ Unit :=
    { epoch := ⟨0⟩, host := { startup := ⟨0⟩, process := 1 }, outside := ()
      cells := #[{ writer := Writer.create s 100, destination := fragile }] }
  ((w.add (run glassworks) 0 { time := ⟨0⟩, text := "bad" }).set 0 Writer.start).run glassworks 0

theorem laden_contained : laden.Contained ∧ laden.Waits 0 :=
  ⟨⟨by decide +kernel, by decide +kernel⟩, _, rfl, by decide +kernel, rfl⟩

theorem panics_let_out_laden :
    laden.Contained ∧ laden.Waits 0 ∧
    (laden.calls glassworks 0 [.stop]).unwound? = some ⟨some "cannot count"⟩ ∧
    (laden.calls glassworks 0 [.stop]).Blamed glassworks ⟨some "cannot count"⟩ ∧
    (laden.add (run glassworks) 0 { time := ⟨0⟩, text := "good" }).Contained := by
  obtain ⟨hcontained, hwaits⟩ := laden_contained
  have hgets : (laden.calls glassworks 0 [.stop]).unwound? = some ⟨some "cannot count"⟩ := by decide +kernel
  obtain ⟨hcalls, hadd⟩ := (panics_let_out glassworks).1 laden 0 hcontained hwaits
  exact ⟨hcontained, hwaits, hgets, (hcalls _ _ hgets).2, (hadd _).1⟩

/-- The panic gets past the writer when it is stopped, and past an appender that rotates. -/
theorem panic_gets_out :
    (¬ ∀ (w : World ⟨Empty, fun _ => Unit⟩ Unit) (id : Nat) (cs : List World.Call), w.Contained → w.Waits id →
      (w.calls glassworks id cs).unwound? = none) ∧
    ¬ ∀ (a : Appender) (w : World ⟨Empty, fun _ => Unit⟩ Unit)
      (turns : List (Appender.Turn ⟨Empty, fun _ => Unit⟩ Unit)),
      a.IsInline w → (∀ x ∈ turns, x.Idles) → (Appender.play glassworks turns a w).2.unwound? = none := by
  obtain ⟨hcontained, hwaits⟩ := laden_contained
  constructor
  · intro h
    have hnone := h laden 0 [.stop] hcontained hwaits
    revert hnone
    decide +kernel
  · intro h
    let s : Settings := { target := .sns {}, synchronous := true }
    have hnone := h { Appender.fresh s none none 0 with current := some 0 } laden [{ act := .rotate }]
      ⟨hcontained, rfl, fun id hid => by cases hid; exact hwaits⟩
      (fun x hx => by rw [List.mem_singleton.mp hx]; exact fun _ => ⟨rfl, rfl⟩)
    revert hnone
    decide +kernel

end LogRelay
