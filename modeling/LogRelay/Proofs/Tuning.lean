import LogRelay.Proofs.Acts
import LogRelay.Proofs.Passes

/-!
# Settings that are changed while writers run

An appender remembers its settings, and tells the writer at hand when one of them changes. Nothing else
tunes a writer, except that a writer whose destination is not available changes its own policy so that
it keeps no messages. Whatever else writers and appenders do in between, in whatever order, the writer
at hand has the settings that were asked for last.
-/

namespace LogRelay

variable {A : Api} {σ : Type}

namespace Writer

variable {μ : Measure} {now : Instant} {w : Writer} {r : Writer × List Notice}

inductive Goes (μ : Measure) (now : Instant) (w : Writer) : Writer × List Notice → Prop
  | called {r : Writer × List Notice} (h : w.Called False now r) : Goes μ now w r
  | started : Goes μ now w (w.start, [])
  | moved {r : Writer × List Notice} (h : w.Move μ now r) : Goes μ now w r
  | checked (result : Except Panic (Except Failure Unit)) (h : ∀ e, result ≠ .ok (.error e)) :
    Goes μ now w (w.checked result)
  | sent (batch : List Message) (last : Bool) (result : Except Panic (Except Failure (List Nat))) :
    Goes μ now w (w.sent batch last result)
  | closed (result : Except Panic Unit) : Goes μ now w (w.closed result)

theorem Goes.sameTuning (h : w.Goes μ now r) : SameTuning w r.1 := by
  cases h with
  | called h =>
    cases h with
    | add m => exact add_sameTuning m now w
    | stop => exact stop_sameTuning now w
    | setBatchDelay ht _ | setThreshold ht _ | setAction ht _ => exact ht.elim
  | started => exact start_sameTuning w
  | moved h => exact h.sameTuning
  | checked result h => exact checked_sameTuning h w
  | sent batch last result => exact sent_sameTuning batch last result w
  | closed result => exact closed_sameTuning result w

end Writer

/-- The writer has the batch delay of the settings and, unless it is exempt, their policy too. -/
structure Settings.Governs (s : Settings) (exempt : Prop) (w : Writer) : Prop where
  batchDelay : w.batchDelay = s.batchDelay
  policy : exempt ∨ w.backlog.threshold = s.discardThreshold ∧ w.backlog.action = s.discardAction

def Settings.Resolves (s s' : Settings) : Prop := ∃ v, s' = s.resolve v

namespace Settings.Governs

variable {s : Settings} {exempt exempt' : Prop} {w w' : Writer}

theorem mono (h : s.Governs exempt w) (he : exempt → exempt') : s.Governs exempt' w :=
  ⟨h.batchDelay, h.policy.imp_left he⟩

theorem same (h : s.Governs exempt w) (hs : w.SameTuning w') : s.Governs exempt w' := by
  refine ⟨hs.batchDelay.trans h.batchDelay, h.policy.imp_right fun hp => ?_⟩
  exact ⟨hs.policy.threshold.trans hp.1, hs.policy.action.trans hp.2⟩

theorem created {s' : Settings} (hs : s.Resolves s') (limit : Nat) : s.Governs exempt (Writer.create s' limit) := by
  obtain ⟨v, rfl⟩ := hs
  exact ⟨rfl, .inr ⟨rfl, rfl⟩⟩

end Settings.Governs

/-! ## What may become of a world -/

namespace World

/-- What the world `w₀` may have become while nobody tuned a writer. Writers went on in any order and took in any
answers, new ones were made from settings such as `Makes` says, and what is not a writer changed in any way.
Listed are the writers that were told that their destinations are not available. -/
inductive Passage (env : Environment A σ) (Makes : Settings → Prop) (w₀ : World A σ) : List Nat → World A σ → Prop
  | here : Passage env Makes w₀ [] w₀
  | aside {R w w'} (h : Passage env Makes w₀ R w) (hw : ∀ id, w'.writer? id = w.writer? id) :
    Passage env Makes w₀ R w'
  | goes {R w cell r} (id : Nat) (h : Passage env Makes w₀ R w) (hc : w.cells[id]? = some cell)
      (hr : cell.writer.Goes cell.destination.toMeasure w.now r) :
    Passage env Makes w₀ R (w.put id r)
  | refused {R w id cell} (e : Failure) (h : Passage env Makes w₀ R w) (hc : w.cells[id]? = some cell) :
    Passage env Makes w₀ (R ++ [id]) (w.put id (cell.writer.checked (.ok (.error e))))
  | made {R w s d o limit} (h : Passage env Makes w₀ R w) (hs : Makes s)
      (hd : env.connect s w.now w.outside = (.ok d, o)) (hl : d.maxMessageSize = .ok limit) :
    Passage env Makes w₀ R { w with
      outside := o
      cells := w.cells.push { writer := Writer.create s limit, destination := d } }

def Untuned (w : World A σ) : Prop := ∀ a ∈ w.agenda, ¬ a.stimulus.Tunes

variable {env : Environment A σ} {Makes : Settings → Prop} {w₀ w w' : World A σ} {R : List Nat}

/-- All that is done in a world is a passage of it. -/
theorem lasting_passage (env : Environment A σ) (Makes : Settings → Prop) (w₀ : World A σ) :
    Appender.Lasting env False Makes (fun w => w.Untuned ∧ ∃ R, w₀.Passage env Makes R w) where
  clock h _ := ⟨h.1, h.2.imp fun _ hp => hp.aside fun _ => rfl⟩
  appointment := by
    intro w a rest h ha
    have hmem : ∀ b ∈ a :: rest, ¬ b.stimulus.Tunes := ha ▸ h.1
    refine ⟨⟨trivial, hmem a List.mem_cons_self⟩, fun b hb => hmem b (List.mem_cons_of_mem a hb), ?_⟩
    exact h.2.imp fun _ hp => hp.aside fun _ => rfl
  endless _ _ _ := trivial
  outside _ h := ⟨h.1, h.2.imp fun _ hp => hp.aside fun _ => rfl⟩
  threads _ h := ⟨h.1, h.2.imp fun _ hp => hp.aside fun _ => rfl⟩
  runsStopped _ h := ⟨h.1, h.2.imp fun _ hp => hp.aside fun _ => rfl⟩
  diagnostics _ h := ⟨h.1, h.2.imp fun _ hp => hp.aside fun _ => rfl⟩
  remembered id m h :=
    ⟨h.1, h.2.imp fun _ hp => hp.aside fun j => map_modify (f := ({ · with memory := m })) (fun _ => rfl) _ id j⟩
  called _ h hc hr := ⟨h.1, h.2.imp fun _ hp => hp.goes _ hc (.called hr)⟩
  started h hc := ⟨h.1, h.2.imp fun _ hp => hp.goes _ hc .started⟩
  moved h hc hn := ⟨h.1, h.2.imp fun _ hp => hp.goes _ hc (.moved (Writer.move_of_next hn))⟩
  checked := by
    intro w id cell result h hc
    obtain ⟨hu, R, hp⟩ := h
    refine ⟨hu, ?_⟩
    rcases result with p | e | u
    · exact ⟨R, hp.goes _ hc (.checked _ (by simp))⟩
    · -- the one answer that leaves a mark
      exact ⟨R ++ [id], hp.refused e hc⟩
    · exact ⟨R, hp.goes _ hc (.checked _ (by simp))⟩
  sent batch last result h hc := ⟨h.1, h.2.imp fun _ hp => hp.goes _ hc (.sent batch last result)⟩
  closed _ _ _ h hc := ⟨h.1, h.2.imp fun _ hp => hp.goes _ hc (.closed _)⟩
  made hs h hd hl := ⟨h.1, h.2.imp fun _ hp => hp.made hs hd hl⟩

theorem writer?_put {id : Nat} {cell : Cell A} (hc : w.cells[id]? = some cell) (r : Writer × List Notice)
    (j : Nat) : (w.put id r).writer? j = if id = j then some r.1 else w.writer? j := by
  unfold writer?
  rw [getElem?_put]
  split
  · rename_i hj
    subst hj
    rw [hc]
    rfl
  · rfl

theorem writer?_push (w : World A σ) (cell : Cell A) (o : σ) (j : Nat) :
    { w with outside := o, cells := w.cells.push cell }.writer? j =
      if j = w.cells.size then some cell.writer else w.writer? j := by
  unfold writer?
  rw [Array.getElem?_push]
  split <;> rfl

namespace Passage

theorem of_cells (h : w₀.Passage env Makes R w) (hc : w'.cells = w.cells) : w₀.Passage env Makes R w' :=
  h.aside fun id => by rw [writer?, writer?, hc]

theorem isSome_writer? (h : w₀.Passage env Makes R w) {id : Nat} (h₀ : (w₀.writer? id).isSome = true) :
    (w.writer? id).isSome = true := by
  induction h with
  | here => exact h₀
  | aside _ hw ih => rwa [hw]
  | goes _ _ hc _ ih | refused _ _ hc ih =>
    rw [writer?_put hc]
    split
    · rfl
    · exact ih
  | made _ _ _ _ ih =>
    rw [writer?_push]
    split
    · rfl
    · exact ih

theorem governs {s : Settings} (h : w₀.Passage env Makes R w) (hm : ∀ s', Makes s' → s.Resolves s') {Q : Prop}
    {id : Nat} (h₀ : ∀ x, w₀.writer? id = some x → s.Governs Q x) :
    ∀ x, w.writer? id = some x → s.Governs (Q ∨ id ∈ R) x := by
  induction h with
  | here => exact fun x hx => (h₀ x hx).mono .inl
  | aside _ hw ih => rwa [hw]
  | @goes R w cell r i _ hc hr ih =>
    intro x hx
    rw [writer?_put hc] at hx
    split at hx
    · rename_i hid
      subst hid
      cases hx
      exact (ih cell.writer (by rw [writer?, hc]; rfl)).same hr.sameTuning
    · exact ih x hx
  | @refused R w i cell e _ hc ih =>
    intro x hx
    rw [writer?_put hc] at hx
    split at hx
    · rename_i hid
      subst hid
      cases hx
      -- of its settings such a writer keeps the batch delay only
      have hcell := ih cell.writer (by rw [writer?, hc]; rfl)
      exact ⟨hcell.batchDelay, .inl (.inr (by simp))⟩
    · exact (ih x hx).mono (Or.imp_right (List.mem_append_left _))
  | @made R w s' d o limit _ hs _ _ ih =>
    intro x hx
    rw [writer?_push] at hx
    split at hx
    · cases hx
      exact .created (hm s' hs) _
    · exact ih x hx

end Passage

end World

/-! ## What may become of an appender -/

namespace Appender

/-- What may have become of an appender, and of the world `w₀` in which it was built. One act was done after the
other, and in between writers went on. A panic that got out of an act left the appender without a writer.
Listed are the acts, and the writers that were told that their destinations are not available. -/
inductive Reaches (env : Environment A σ) (s : Settings) (header footer : Option String) (w₀ : World A σ) :
    List Act → List Nat → Appender → World A σ → Prop
  | built {R a w} (hb : build env s header footer w₀ = (.ok (.ok a), w)) (hw : w₀.Passage env s.Resolves R w) :
    Reaches env s header footer w₀ [] R a w
  | meanwhile {xs R R' a w w'} (h : Reaches env s header footer w₀ xs R a w)
      (hw : w.Passage env (fun _ => False) R' w') :
    Reaches env s header footer w₀ xs (R ++ R') a w'
  | tuned {xs R a w x} (h : Reaches env s header footer w₀ xs R a w) (hx : x.Tunes) :
    Reaches env s header footer w₀ (xs ++ [x]) R (a.act env x w).1 (a.act env x w).2
  | acted {xs R R' a w x} (h : Reaches env s header footer w₀ xs R a w) (hx : ¬ x.Tunes)
      (hw : w.Passage env a.settings.Resolves R' (a.act env x w).2) :
    Reaches env s header footer w₀ (xs ++ [x]) (R ++ R') (a.act env x w).1 (a.act env x w).2
  | broken {xs R R' a a' w w' x} (h : Reaches env s header footer w₀ xs R a w) (hx : ¬ x.Tunes)
      (hs : a'.settings = a.settings) (hn : a'.current = none) (hw : w.Passage env a.settings.Resolves R' w') :
    Reaches env s header footer w₀ (xs ++ [x]) (R ++ R') a' w'

def Act.batchDelay? : Act → Option Nat
  | .setBatchDelay d => some (min (d / 1000000) (2 ^ 64 - 1))
  | _ => none

def Act.threshold? : Act → Option Nat
  | .setThreshold n => some n
  | _ => none

def Act.action? : Act → Option DiscardAction
  | .setAction x => some x
  | _ => none

def settingsAfter (s : Settings) (xs : List Act) : Settings :=
  { s with
    batchDelay := (xs.filterMap Act.batchDelay?).getLast?.getD s.batchDelay
    discardThreshold := (xs.filterMap Act.threshold?).getLast?.getD s.discardThreshold
    discardAction := (xs.filterMap Act.action?).getLast?.getD s.discardAction }

variable {env : Environment A σ} {a a' : Appender} {w w' : World A σ} {x : Act}

theorem lasting_size (env : Environment A σ) (n : Nat) :
    Lasting env True (fun _ => True) (fun w => n ≤ w.cells.size) := by
  refine lasting_of_adjust (fun h hc _ _ => by rwa [hc]) (fun id f _ h => ?_) fun h _ => ?_
  · exact Nat.le_trans h (Nat.le_of_eq Array.size_modify.symm)
  · exact Nat.le_trans h (by simp)

structure Follows (a : Appender) (w : World A σ) (a' : Appender) (w' : World A σ) : Prop where
  settings : a'.settings = a.settings
  size : w.cells.size ≤ w'.cells.size
  current : ∀ id, a'.current = some id → a.current = some id ∨ w.cells.size ≤ id ∧ id < w'.cells.size

theorem Follows.trans {a₁ a₂ a₃ : Appender} {w₁ w₂ w₃ : World A σ} (h : Follows a₁ w₁ a₂ w₂)
    (h' : Follows a₂ w₂ a₃ w₃) : Follows a₁ w₁ a₃ w₃ := by
  have hsize := h.size
  have hsize' := h'.size
  refine ⟨h'.settings.trans h.settings, Nat.le_trans hsize hsize', fun id hid => ?_⟩
  rcases h'.current id hid with hc | hnew
  · rcases h.current id hc with hc | hnew
    · exact .inl hc
    · exact .inr (by omega)
  · exact .inr (by omega)

theorem follows_of_kept (hs : a'.settings = a.settings) (hsize : w.cells.size ≤ w'.cells.size)
    (hc : a'.current = a.current ∨ a'.current = none) : Follows a w a' w' := by
  refine ⟨hs, hsize, fun id hid => .inl ?_⟩
  rcases hc with hc | hc
  · rwa [← hc]
  · rw [hc] at hid
    cases hid

theorem startWriter_new {id : Nat} {v : World A σ} (h : a.startWriter env w = (.ok (.ok id), v)) :
    id = w.cells.size ∧ id < v.cells.size := by
  unfold startWriter at h
  dsimp only at h
  split at h
  · cases h
  · cases h
  · rename_i i u hu
    have hnew : i = w.cells.size ∧ i < u.cells.size := by
      unfold connect at hu
      dsimp only at hu
      split at hu
      · cases hu
      · split at hu
        · cases hu
        · cases hu
          exact ⟨rfl, by simp⟩
    have hlaunch := (lasting_size env (i + 1)).launch i hnew.2
    split at h
    · cases h
    · rename_i u' hu'
      rw [hu'] at hlaunch
      cases h
      exact ⟨hnew.1, (lasting_size env (id + 1)).addText id _ _ hlaunch⟩

theorem replaceWriter_follows (a : Appender) (w : World A σ) :
    Follows a w (a.replaceWriter env w).1 (a.replaceWriter env w).2 := by
  have hsize := (lasting_size env w.cells.size).replaceWriter (a := a) (fun _ => trivial) (Nat.le_refl _)
  refine ⟨(replaceWriter_same a w).settings, hsize, fun id hid => ?_⟩
  unfold replaceWriter at hid ⊢
  split at hid
  · rename_i i v hv
    cases hid
    obtain ⟨hnew, hlt⟩ := startWriter_new hv
    exact .inr ⟨Nat.le_of_eq hnew.symm, hlt⟩
  · exact .inl hid
  · exact .inl hid

theorem mended_follows (a : Appender) (w : World A σ) : Follows a w a.mended w :=
  follows_of_kept rfl (Nat.le_refl _) (.inl rfl)

theorem switch_follows (a : Appender) (w : World A σ) :
    Follows a w (a.switch env w).1 (a.switch env w).2 := by
  have hsize := (lasting_size env w.cells.size).leave a (Nat.le_refl _)
  cases ho : a.obstacle? (a.leave env w) with
  | some p =>
    rw [switch_of_obstacle ho]
    exact follows_of_kept rfl hsize (.inr rfl)
  | none =>
    have hleft : Follows a w (a.advanced env w) (a.leave env w) := follows_of_kept rfl hsize (.inr rfl)
    rw [switch_of_clear ho]
    exact hleft.trans (replaceWriter_follows _ _)

theorem equip_follows (a : Appender) (w : World A σ) : Follows a w (a.equip env w).1 (a.equip env w).2 := by
  have hdrop : Follows a w (a.dropFailed w).1 (a.dropFailed w).2 := by
    unfold dropFailed
    split
    · exact follows_of_kept rfl (Nat.le_refl _) (.inr rfl)
    · exact follows_of_kept rfl (Nat.le_refl _) (.inl rfl)
  unfold equip
  dsimp only
  split
  · exact hdrop.trans (replaceWriter_follows _ _)
  · exact hdrop

variable (env) in
theorem prepare_follows (a : Appender) (w : World A σ) :
    Follows a w (a.prepare env w).1 (a.prepare env w).2 := by
  have hturn : Follows a w (a.turned env w).1 (a.turned env w).2 := by
    unfold turned
    split
    · exact switch_follows a w
    · exact follows_of_kept rfl (Nat.le_refl _) (.inl rfl)
  rw [prepare_eq]
  split
  · exact hturn
  · exact hturn.trans (equip_follows _ _)

theorem appendMessage_follows (m : Message) (a : Appender) (w : World A σ) :
    Follows a w (a.appendMessage env m w).1 (a.appendMessage env m w).2 := by
  by_cases ho : a.closed = true
  · unfold appendMessage
    rw [if_pos ho]
    exact follows_of_kept rfl (Nat.le_refl _) (.inl rfl)
  · have hready := (mended_follows a w).trans (prepare_follows env a.mended w)
    rw [appendMessage_eq m (Bool.eq_false_iff.mpr ho)]
    split
    · exact hready.trans (follows_of_kept rfl ((lasting_size env _).add _ m (Nat.le_refl _)) (.inl rfl))
    · exact hready

theorem close_follows (a : Appender) (w : World A σ) : Follows a w (a.close env w).1 (a.close env w).2 := by
  have hsize := (lasting_size env w.cells.size).close a (Nat.le_refl _)
  refine follows_of_kept ?_ hsize ?_
  all_goals
    unfold close
    split
  · rfl
  · split
    · rfl
    · dsimp only
      split <;> rfl
  · exact .inl rfl
  · split
    · exact .inl rfl
    · dsimp only
      split <;> exact .inr rfl

theorem act_follows (hx : ¬ x.Tunes) (a : Appender) (w : World A σ) :
    Follows a w (a.act env x w).1 (a.act env x w).2 := by
  cases x with
  | append text => exact appendMessage_follows _ a w
  | appendMessage m => exact appendMessage_follows m a w
  | rotate =>
    change Follows a w (if a.closed then (a, w) else a.mended.switch env w).1
      (if a.closed then (a, w) else a.mended.switch env w).2
    split
    · exact follows_of_kept rfl (Nat.le_refl _) (.inl rfl)
    · exact (mended_follows a w).trans (switch_follows a.mended w)
  | close => exact close_follows a w
  | setBatchDelay _ | setThreshold _ | setAction _ => exact absurd trivial hx

theorem writer?_set {f : Writer → Writer} {id : Nat} (hc : a.current = some id) :
    (a.set f w).writer? id = (w.writer? id).map f := by
  rw [set_of_some hc]
  cases hcell : w.cells[id]? with
  | none => simp [World.set, World.change, World.writer?, hcell]
  | some cell =>
    have hw : w.writer? id = some cell.writer := by
      rw [World.writer?, hcell]
      rfl
    rw [World.set, World.change_of_cell hcell, World.writer?_put hcell, if_pos rfl, hw]
    rfl

structure Tuned (s : Settings) (R : List Nat) (a : Appender) (w : World A σ) : Prop where
  settings : a.settings = s
  governs : ∀ id, a.current = some id → ∃ y, w.writer? id = some y ∧ s.Governs (id ∈ R) y

theorem Tuned.of_passage {s : Settings} {R R' : List Nat} {Makes : Settings → Prop} (h : Tuned s R a w)
    (hm : ∀ s', Makes s' → s.Resolves s') (hw : w.Passage env Makes R' w') (hs : a'.settings = a.settings)
    (hc : ∀ id, a'.current = some id → a.current = some id ∨ w.cells.size ≤ id ∧ id < w'.cells.size) :
    Tuned s (R ++ R') a' w' := by
  refine ⟨hs.trans h.settings, fun id hid => ?_⟩
  have hthere : (w'.writer? id).isSome = true ∧ ∀ y, w.writer? id = some y → s.Governs (id ∈ R) y := by
    rcases hc id hid with hold | ⟨hnew, hlt⟩
    · obtain ⟨y, hy, hg⟩ := h.governs id hold
      refine ⟨hw.isSome_writer? (by rw [hy]; rfl), fun z hz => ?_⟩
      rw [hy] at hz
      cases hz
      exact hg
    · -- it was made on the way, so nothing is asked of the world before
      have hnone : w.writer? id = none := by simp [World.writer?, hnew]
      refine ⟨by simp [World.writer?, hlt], fun z hz => ?_⟩
      rw [hnone] at hz
      cases hz
  obtain ⟨y, hy⟩ := Option.isSome_iff_exists.mp hthere.1
  exact ⟨y, hy, (hw.governs hm hthere.2 y hy).mono List.mem_append.mpr⟩

theorem Tuned.set {s s' : Settings} {R : List Nat} {f : Writer → Writer} (h : Tuned s R a w)
    (hs : a'.settings = s') (hc : a'.current = a.current)
    (hf : ∀ {exempt y}, s.Governs exempt y → s'.Governs exempt (f y)) : Tuned s' R a' (a.set f w) := by
  refine ⟨hs, fun id hid => ?_⟩
  rw [hc] at hid
  obtain ⟨y, hy, hg⟩ := h.governs id hid
  refine ⟨f y, ?_, hf hg⟩
  rw [writer?_set hid, hy]
  rfl

theorem settingsAfter_append (s : Settings) (xs : List Act) (x : Act) :
    settingsAfter s (xs ++ [x]) = settingsAfter (settingsAfter s xs) [x] := by
  simp [settingsAfter, List.filterMap_append, List.getLast?_append]

theorem settingsAfter_of_not_tunes (s : Settings) (hx : ¬ x.Tunes) : settingsAfter s [x] = s := by
  cases x with
  | setBatchDelay _ | setThreshold _ | setAction _ => exact absurd trivial hx
  | _ => rfl

theorem Tuned.act {s : Settings} {R : List Nat} (h : Tuned s R a w) (hx : x.Tunes) :
    Tuned (settingsAfter s [x]) R (a.act env x w).1 (a.act env x w).2 := by
  obtain rfl := h.settings
  cases x with
  | setBatchDelay d => exact h.set rfl rfl fun hy => ⟨rfl, hy.policy⟩
  | setThreshold n => exact h.set rfl rfl fun hy => ⟨hy.batchDelay, hy.policy.imp_right fun hp => ⟨rfl, hp.2⟩⟩
  | setAction x => exact h.set rfl rfl fun hy => ⟨hy.batchDelay, hy.policy.imp_right fun hp => ⟨hp.1, rfl⟩⟩
  | append _ | appendMessage _ | rotate | close => exact hx.elim

variable {s : Settings} {header footer : Option String} {w₀ : World A σ} {xs : List Act} {R : List Nat}

theorem Reaches.isTuned (h : Reaches env s header footer w₀ xs R a w) : Tuned (settingsAfter s xs) R a w := by
  induction h with
  | @built R a w hb hw =>
    have hnone : Tuned s [] (fresh s header footer w₀.wall.millis) w₀ := ⟨rfl, by simp [fresh]⟩
    rw [build_eq] at hb
    split at hb
    · rename_i id v hv
      cases hb
      obtain ⟨hnew, hlt⟩ := startWriter_new hv
      refine hnone.of_passage (fun _ hs => hs) hw rfl fun i hi => ?_
      cases hi
      exact .inr ⟨Nat.le_of_eq hnew.symm, hlt⟩
    · cases hb
    · cases hb
  | meanwhile _ hw ih => exact ih.of_passage (fun _ hs => hs.elim) hw rfl fun _ => .inl
  | tuned _ hx ih =>
    rw [settingsAfter_append]
    exact ih.act hx
  | acted _ hx hw ih =>
    rw [settingsAfter_append, settingsAfter_of_not_tunes _ hx]
    obtain ⟨hs, -, hc⟩ := act_follows hx _ _
    exact ih.of_passage (fun _ hr => ih.settings ▸ hr) hw hs hc
  | broken _ hx hs hn _ ih =>
    -- without a writer there are only the remembered settings
    rw [settingsAfter_append, settingsAfter_of_not_tunes _ hx]
    exact ⟨hs.trans ih.settings, by simp [hn]⟩

theorem set_untuned {f : Writer → Writer} (hu : w.Untuned) : (a.set f w).Untuned := by
  unfold set
  split
  · exact World.change_induct (P := World.Untuned) hu fun _ _ => hu
  · exact hu

theorem reaches_build (hb : build env s header footer w₀ = (.ok (.ok a), w)) (hu : w₀.Untuned) :
    w.Untuned ∧ ∃ R, Reaches env s header footer w₀ [] R a w := by
  have hl := (World.lasting_passage env s.Resolves w₀).build (fun v => ⟨v, rfl⟩) header footer ⟨hu, [], .here⟩
  rw [hb] at hl
  obtain ⟨hu', R, hw⟩ := hl
  exact ⟨hu', R, .built hb hw⟩

/-- From where an appender has come, every act leads on. -/
theorem Reaches.act (h : Reaches env s header footer w₀ xs R a w) (hu : w.Untuned) (x : Act) :
    (a.act env x w).2.Untuned ∧
    ∃ R', Reaches env s header footer w₀ (xs ++ [x]) (R ++ R') (a.act env x w).1 (a.act env x w).2 := by
  by_cases hx : x.Tunes
  · refine ⟨?_, [], by rw [List.append_nil]; exact h.tuned hx⟩
    cases x with
    | setBatchDelay _ | setThreshold _ | setAction _ => exact set_untuned hu
    | append _ | appendMessage _ | rotate | close => exact hx.elim
  · have hl := World.lasting_passage env a.settings.Resolves w
    obtain ⟨hu', R', hw⟩ := hl.act hx (fun v => ⟨v, rfl⟩) ⟨hu, [], .here⟩
    exact ⟨hu', R', h.acted hx hw⟩

/-- So does running a writer on its thread. -/
theorem Reaches.run (h : Reaches env s header footer w₀ xs R a w) (hu : w.Untuned) (id : Nat) :
    ((w.begin id).run env id).Untuned ∧
    ∃ R', Reaches env s header footer w₀ xs (R ++ R') a ((w.begin id).run env id) := by
  have hl := World.lasting_passage env (fun _ => False) w
  obtain ⟨hu', R', hw⟩ := hl.run id _ (hl.begin id ⟨hu, [], .here⟩)
  exact ⟨hu', R', h.meanwhile hw⟩

theorem Reaches.acted_as (h : Reaches env s header footer w₀ xs R a w) (hx : ¬ x.Tunes) {R' : List Nat}
    {b : Appender} {v : World A σ} (hw : w.Passage env a.settings.Resolves R' v) (ha : (a.act env x w).1 = b)
    (hc : (a.act env x w).2.cells = v.cells) : Reaches env s header footer w₀ (xs ++ [x]) (R ++ R') b v := by
  have h' := (h.acted hx (hw.of_cells hc)).meanwhile (World.Passage.here.of_cells hc.symm)
  rwa [ha, List.append_nil] at h'

/-- Whatever was done and wherever it went wrong, the writer at hand has the settings that were set last. Only
a writer that was told that its destination is not available may have another policy. -/
theorem settings_last (h : Reaches env s header footer w₀ xs R a w) :
    a.settings = settingsAfter s xs ∧
    (∀ id, a.current = some id → ∃ y, w.writer? id = some y ∧ (settingsAfter s xs).Governs (id ∈ R) y) ∧
    (w.Untuned → ∀ x, (a.act env x w).2.Untuned ∧
      ∃ R', Reaches env s header footer w₀ (xs ++ [x]) (R ++ R') (a.act env x w).1 (a.act env x w).2) :=
  ⟨h.isTuned.settings, h.isTuned.governs, h.act⟩

def frail : Destination ⟨Empty, fun _ => Unit⟩ where
  effectiveSize _ := .error { payload := some "cannot count" }
  withinLimits _ _ := .ok true
  name _ := "frail"
  maxMessageSize := .ok 100
  makeAvailable := .done (.ok ())
  send _ := .done (.ok [])
  shutdown := .done ()

def workshop : Environment ⟨Empty, fun _ => Unit⟩ Nat where
  ask _ r := nomatch r
  draw n := (0, n)
  connect _ _ n := (if n = 1 then .error { message := "out of stock" } else .ok frail, n + 1)
  spawn n := (.ok (), n)

abbrev shop (n : Nat) (cells : Array (Cell ⟨Empty, fun _ => Unit⟩)) : World ⟨Empty, fun _ => Unit⟩ Nat :=
  { epoch := ⟨0⟩, host := { startup := ⟨0⟩, process := 1 }, outside := n, cells }

abbrev frailly (x : Writer) : Cell ⟨Empty, fun _ => Unit⟩ := { writer := x, destination := frail }

abbrev plain : Settings := { target := .sns {} }

abbrev early : Settings := { plain with discardThreshold := 5 }

abbrev late : Settings := { early with batchDelay := 2 ^ 64 - 1 }

/-- The first writer is left, no second one can be made, and the third breaks down at its first message. -/
theorem settings_last_workshop : ∃ a w y,
    Reaches workshop plain none none (shop 0 #[])
      [.setThreshold 5, .rotate, .setBatchDelay (10 ^ 30), .append "a"] [] a w ∧
    a.current = some 1 ∧ w.writer? 1 = some y ∧ y.failure.isSome = true ∧
    y.batchDelay = 2 ^ 64 - 1 ∧ y.backlog.threshold = 5 ∧ y.backlog.action = .oldest := by
  have v : Vocabulary := (shop 0 #[]).host.vocabulary ⟨0⟩ 0
  have h₁ : Reaches workshop plain none none (shop 0 #[]) [.setThreshold 5] []
      { fresh early none none 0 with current := some 0 } (shop 1 #[frailly (Writer.create early 100)]) := by
    have hb : build workshop plain none none (shop 0 #[]) = (.ok (.ok _), _) := rfl
    have h₀ := Reaches.built hb ((World.Passage.here.made (s := plain) ⟨v, rfl⟩ rfl rfl).of_cells rfl)
    exact (h₀.tuned (x := .setThreshold 5) trivial).meanwhile (World.Passage.here.of_cells rfl)
  have h₂ := h₁.acted_as (x := .rotate) (b := { fresh early none none 0 with sequence := 0 + 1 })
    (v := shop 2 #[frailly ((Writer.create early 100).stop 0).1]) not_false
    ((World.Passage.here.goes 0 rfl (.called .stop)).of_cells rfl) rfl rfl
  have h₃ : Reaches workshop plain none none (shop 0 #[])
      [.setThreshold 5, .rotate, .setBatchDelay (10 ^ 30)] []
      { fresh late none none 0 with sequence := 0 + 1 } (shop 2 #[frailly ((Writer.create early 100).stop 0).1]) :=
    h₂.tuned (x := .setBatchDelay (10 ^ 30)) trivial
  have h₄ := h₃.acted_as (x := .append "a")
    (b := { fresh late none none 0 with sequence := 0 + 1, current := some 1, rotation := ⟨.none, 0, 0 + 1, 0⟩ })
    (v := shop 3 #[frailly ((Writer.create early 100).stop 0).1,
      frailly ((Writer.create late 100).add ⟨⟨0⟩, "a"⟩ 0).1]) not_false
    (((World.Passage.here.made (s := late) ⟨v, rfl⟩ rfl rfl).goes 1 rfl
      (.called (.add ⟨⟨0⟩, "a"⟩))).of_cells rfl) rfl rfl
  have h₅ := ((h₄.meanwhile (World.Passage.here.goes 1 rfl .started)).meanwhile
    (World.Passage.here.goes 1 rfl (.checked (.ok (.ok ())) (by simp)))).meanwhile
    ((World.Passage.here.goes 1 rfl (.moved (.await rfl rfl (by decide)))).goes 1 rfl (.moved (.balk rfl rfl rfl)))
  obtain ⟨y, hy, hg⟩ := (settings_last h₅).2.1 1 rfl
  obtain ⟨hthreshold, haction⟩ := hg.policy.resolve_left (by simp)
  refine ⟨_, _, y, h₅, rfl, hy, ?_, hg.batchDelay, hthreshold, haction⟩
  cases hy
  rfl

end Appender

end LogRelay
