import LogRelay.Proofs.Lasting

/-!
# What is done with an appender

An appender is used by one act after the other. Between two acts anything may happen to the world. An
act changes the world as running writers does, and by making writers; of the appender it changes the
rotation and the sequence number only where it leaves one writer for the next.
-/

namespace LogRelay

namespace Appender

inductive Act
  | append (text : String)
  | appendMessage (m : Message)
  | rotate
  | close
  | setBatchDelay (d : Duration)
  | setThreshold (n : Nat)
  | setAction (x : DiscardAction)

def Act.Tunes : Act → Prop
  | .setBatchDelay _ | .setThreshold _ | .setAction _ => True
  | _ => False

def Act.message? (now : Timestamp) : Act → Option Message
  | .append text => some { time := now, text }
  | .appendMessage m => some m
  | _ => none

variable {A : Api} {σ : Type}

def act (env : Environment A σ) : Act → Appender → World A σ → Appender × World A σ
  | .append text => append env text
  | .appendMessage m => appendMessage env m
  | .rotate => rotate env
  | .close => close env
  | .setBatchDelay d => setBatchDelay d
  | .setThreshold n => setThreshold n
  | .setAction x => setAction x

/-- An act, and what happens before it. -/
structure Turn (A : Api) (σ : Type) where
  meanwhile : World A σ → World A σ := id
  act : Act

/-- What happens between the acts leaves the writers alone. -/
def Turn.Idles (x : Turn A σ) : Prop := ∀ v, (x.meanwhile v).cells = v.cells ∧ (x.meanwhile v).agenda = v.agenda

/-- An act as it was seen: the appender and the world before it and after it. -/
structure Scene (A : Api) (σ : Type) where
  before : Appender
  world : World A σ
  act : Act
  after : Appender
  outcome : World A σ

namespace Scene

def reading (x : Scene A σ) : Int := x.world.wall.millis

def message? (x : Scene A σ) : Option Message := if x.before.closed then none else x.act.message? x.world.wall

def appends (x : Scene A σ) : Bool := x.message?.isSome

def rotates (x : Scene A σ) : Bool := x.after.sequence != x.before.sequence

end Scene

variable {env : Environment A σ}

def Turn.scene (env : Environment A σ) (x : Turn A σ) (a : Appender) (w : World A σ) : Scene A σ :=
  let r := a.act env x.act (x.meanwhile w)
  { before := a, world := x.meanwhile w, act := x.act, after := r.1, outcome := r.2 }

def scenes (env : Environment A σ) : List (Turn A σ) → Appender → World A σ → List (Scene A σ)
  | [], _, _ => []
  | x :: rest, a, w => x.scene env a w :: scenes env rest (x.scene env a w).after (x.scene env a w).outcome

def play (env : Environment A σ) : List (Turn A σ) → Appender → World A σ → Appender × World A σ
  | [], a, w => (a, w)
  | x :: rest, a, w => play env rest (x.scene env a w).after (x.scene env a w).outcome

theorem scenes_cut {turns : List (Turn A σ)} {a : Appender} {w : World A σ} {pre post : List (Scene A σ)}
    {x : Scene A σ} (h : scenes env turns a w = pre ++ x :: post) :
    ∃ before y after, turns = before ++ y :: after ∧ pre = scenes env before a w ∧
      x = y.scene env (play env before a w).1 (play env before a w).2 ∧
      play env turns a w = play env after x.after x.outcome := by
  induction turns generalizing a w pre with
  | nil => cases pre <;> cases h
  | cons y rest ih =>
    cases pre with
    | nil =>
      cases h
      exact ⟨[], y, rest, rfl, rfl, rfl, rfl⟩
    | cons z pre =>
      rw [scenes, List.cons_append, List.cons.injEq] at h
      obtain ⟨rfl, h⟩ := h
      obtain ⟨before, z, after, rfl, rfl, hx, hplay⟩ := ih h
      exact ⟨y :: before, z, after, rfl, rfl, hx, hplay⟩

theorem act_of_message {a : Appender} {x : Act} {w : World A σ} {m : Message} (h : x.message? w.wall = some m) :
    a.act env x w = a.appendMessage env m w := by
  cases x with
  | append text =>
    cases h
    rfl
  | appendMessage m' =>
    cases h
    rfl
  | _ => cases h

def fresh (s : Settings) (header footer : Option String) (now : Int) : Appender :=
  { settings := s, header, footer
    rotation := Rotation.begin s.target.rotation.1 s.target.rotation.2 now
    sequence := s.target.initialSequence }

theorem build_eq (s : Settings) (header footer : Option String) (w : World A σ) :
    build env s header footer w =
      match (fresh s header footer w.wall.millis).startWriter env w with
      | (.ok (.ok id), v) => (.ok (.ok { fresh s header footer w.wall.millis with current := some id }), v)
      | (.ok (.error e), v) => (.ok (.error e), v)
      | (.error p, v) => (.error p, v) := rfl

theorem prepare_eq (a : Appender) (w : World A σ) :
    a.prepare env w =
      if (a.turned env w).1.broken.isSome then a.turned env w else (a.turned env w).1.equip env (a.turned env w).2 :=
  rfl

theorem appendMessage_eq {a : Appender} {w : World A σ} (m : Message) (ho : a.closed = false) :
    a.appendMessage env m w =
      match (a.mended.prepare env w).1.current with
      | some id =>
        ({ (a.mended.prepare env w).1 with rotation := (a.mended.prepare env w).1.rotation.countMessage },
          (a.mended.prepare env w).2.add (World.run env) id m)
      | none => a.mended.prepare env w := by
  unfold appendMessage
  rw [ho]
  rfl

/-! ## What of the appender stays as it is -/

structure SameButWriter (a a' : Appender) : Prop where
  settings : a'.settings = a.settings
  header : a'.header = a.header
  footer : a'.footer = a.footer
  rotation : a'.rotation = a.rotation
  sequence : a'.sequence = a.sequence
  closed : a'.closed = a.closed

theorem SameButWriter.trans {a₁ a₂ a₃ : Appender} (h : SameButWriter a₁ a₂) (h' : SameButWriter a₂ a₃) :
    SameButWriter a₁ a₃ :=
  ⟨h'.settings.trans h.settings, h'.header.trans h.header, h'.footer.trans h.footer,
    h'.rotation.trans h.rotation, h'.sequence.trans h.sequence, h'.closed.trans h.closed⟩

theorem replaceWriter_same (a : Appender) (w : World A σ) : SameButWriter a (a.replaceWriter env w).1 := by
  unfold replaceWriter
  split <;> exact ⟨rfl, rfl, rfl, rfl, rfl, rfl⟩

theorem dropFailed_same (a : Appender) (w : World A σ) : SameButWriter a (a.dropFailed w).1 := by
  unfold dropFailed
  split <;> exact ⟨rfl, rfl, rfl, rfl, rfl, rfl⟩

variable (env) in
theorem equip_same (a : Appender) (w : World A σ) : SameButWriter a (a.equip env w).1 := by
  have hd := dropFailed_same a w
  unfold equip
  dsimp only
  split
  · exact hd.trans (replaceWriter_same _ _)
  · exact hd

def advanced (env : Environment A σ) (a : Appender) (w : World A σ) : Appender :=
  { a with
    current := none
    sequence := a.sequence + 1
    rotation := a.rotation.restart (a.leave env w).wall.millis }

theorem switch_of_obstacle {a : Appender} {w : World A σ} {p : Panic} (h : a.obstacle? (a.leave env w) = some p) :
    a.switch env w = ({ a with current := none, broken := some p }, a.leave env w) := by
  unfold switch
  simp only [h]

theorem switch_of_clear {a : Appender} {w : World A σ} (h : a.obstacle? (a.leave env w) = none) :
    a.switch env w = (a.advanced env w).replaceWriter env (a.leave env w) := by
  unfold switch
  simp only [h]
  rfl

variable (env) in
theorem switch_same (a : Appender) (w : World A σ) :
    SameButWriter (if (a.obstacle? (a.leave env w)).isSome then a else a.advanced env w) (a.switch env w).1 := by
  cases h : a.obstacle? (a.leave env w) with
  | some p =>
    rw [switch_of_obstacle h]
    exact ⟨rfl, rfl, rfl, rfl, rfl, rfl⟩
  | none =>
    rw [switch_of_clear h]
    exact replaceWriter_same _ _

theorem turned_of_due {a : Appender} {w : World A σ} (h : a.rotation.isDue w.wall.millis = true) :
    a.turned env w = a.switch env w := if_pos h

theorem turned_of_not_due {a : Appender} {w : World A σ} (h : a.rotation.isDue w.wall.millis = false) :
    a.turned env w = (a, w) := if_neg (by simp [h])

variable (env) in
theorem prepare_same_turned (a : Appender) (w : World A σ) : SameButWriter (a.turned env w).1 (a.prepare env w).1 := by
  rw [prepare_eq]
  split
  · exact ⟨rfl, rfl, rfl, rfl, rfl, rfl⟩
  · exact equip_same env _ _

variable (env) in
/-- An appender that gets ready for a message keeps its period if no other is due. Otherwise it begins the next one,
unless something keeps it from leaving its writer for another. -/
theorem prepare_same (a : Appender) (w : World A σ) :
    (a.rotation.isDue w.wall.millis = false ∧ SameButWriter a (a.prepare env w).1) ∨
    (∃ p, a.rotation.isDue w.wall.millis = true ∧
      a.prepare env w = ({ a with current := none, broken := some p }, a.leave env w)) ∨
    (a.rotation.isDue w.wall.millis = true ∧ a.obstacle? (a.leave env w) = none ∧
      SameButWriter (a.advanced env w) (a.prepare env w).1) := by
  have hs := prepare_same_turned env a w
  by_cases hdue : a.rotation.isDue w.wall.millis = true
  · right
    rw [turned_of_due hdue] at hs
    cases ho : a.obstacle? (a.leave env w) with
    | some p =>
      left
      refine ⟨p, hdue, ?_⟩
      rw [prepare_eq, turned_of_due hdue, switch_of_obstacle ho]
      rfl
    | none =>
      right
      have hswitch := switch_same env a w
      rw [ho] at hswitch
      exact ⟨hdue, rfl, hswitch.trans hs⟩
  · left
    rw [Bool.not_eq_true] at hdue
    rw [turned_of_not_due hdue] at hs
    exact ⟨hdue, hs⟩

theorem switch_closed (a : Appender) (w : World A σ) : (a.switch env w).1.closed = a.closed := by
  rw [(switch_same env a w).closed]
  split <;> rfl

theorem turned_settings (a : Appender) (w : World A σ) : (a.turned env w).1.settings = a.settings := by
  unfold turned
  split
  · rw [(switch_same env a w).settings]
    split <;> rfl
  · rfl

theorem prepare_closed (a : Appender) (w : World A σ) : (a.prepare env w).1.closed = a.closed := by
  obtain ⟨-, h⟩ | ⟨p, -, h⟩ | ⟨-, -, h⟩ := prepare_same env a w
  · exact h.closed
  · rw [h]
  · exact h.closed

/-! ## Open and closed -/

theorem appendMessage_closed (a : Appender) (m : Message) (w : World A σ) :
    (a.appendMessage env m w).1.closed = a.closed := by
  by_cases hc : a.closed = true
  · unfold appendMessage
    rw [if_pos hc]
  · rw [appendMessage_eq m (Bool.eq_false_iff.mpr hc)]
    split <;> exact prepare_closed a.mended w

theorem act_closed (a : Appender) (x : Act) (w : World A σ) :
    (a.act env x w).1.closed = true ↔ a.closed = true ∨ x = .close := by
  cases x with
  | append text | appendMessage m =>
    rw [act_of_message rfl, appendMessage_closed]
    simp
  | rotate =>
    change (if a.closed then (a, w) else a.mended.switch env w).1.closed = true ↔ _
    split
    · simp
    · rw [switch_closed]
      simp [mended]
  | close =>
    refine iff_of_true ?_ (.inr rfl)
    change (a.close env w).1.closed = true
    unfold close
    split
    · assumption
    · split
      · rfl
      · dsimp only
        split <;> rfl
  | setBatchDelay _ | setThreshold _ | setAction _ => simp [act, setBatchDelay, setThreshold, setAction]

theorem set_of_none {f : Writer → Writer} {a : Appender} {w : World A σ} (h : a.current = none) :
    a.set f w = w := by
  unfold set
  rw [h]

theorem set_of_some {f : Writer → Writer} {a : Appender} {w : World A σ} {id : Nat} (h : a.current = some id) :
    a.set f w = w.set id f := by
  unfold set
  rw [h]

variable (env) in
theorem act_of_closed {a : Appender} (hc : a.closed = true) (hn : a.current = none) (x : Act) (w : World A σ) :
    ∃ s, a.act env x w = ({ a with settings := s }, w) := by
  cases x with
  | append _ | appendMessage _ | rotate | close => exact ⟨a.settings, if_pos hc⟩
  | setBatchDelay _ | setThreshold _ | setAction _ => exact ⟨_, congrArg (Prod.mk _) (set_of_none hn)⟩

/-! ## What lasts while writers are made -/

/-- `P` also survives the making of writers, from settings such as `Makes` says. -/
structure Lasting (env : Environment A σ) (Tunes : Prop) (Makes : Settings → Prop) (P : World A σ → Prop) :
    Prop extends World.Lasting env (fun _ => True) Tunes P where
  made : ∀ {w s d o limit}, Makes s → P w → env.connect s w.now w.outside = (.ok d, o) →
    d.maxMessageSize = .ok limit →
    P { w with
      outside := o
      cells := w.cells.push { writer := Writer.create s limit, destination := d } }

/-- What does not depend on the writers' states survives if it survives the changes of a cell that leave its
destination alone. -/
theorem lasting_of_adjust {P : World A σ → Prop}
    (haside : ∀ {w w'}, P w → w'.cells = w.cells → w.now ≤ w'.now → w'.epoch = w.epoch → P w')
    (hadjust : ∀ {w} id f, (∀ c, (f c).destination = c.destination) → P w → P (w.adjust id f))
    (hmade : ∀ {w s d o limit}, P w → env.connect s w.now w.outside = (.ok d, o) →
      P { w with
        outside := o
        cells := w.cells.push { writer := Writer.create s limit, destination := d } }) :
    Lasting env True (fun _ => True) P := by
  have hput : ∀ {w} id (r : Writer × List Notice), P w → P (w.put id r) := fun id r h =>
    haside (hadjust id ({ · with writer := r.1 }) (fun _ => rfl) h) rfl (Nat.le_refl _) rfl
  exact {
    clock := fun h ht => haside h rfl ht rfl
    appointment := fun h _ => ⟨⟨trivial, fun _ => trivial⟩, haside h rfl (Nat.le_refl _) rfl⟩
    endless := fun _ _ _ => trivial
    outside := fun _ h => haside h rfl (Nat.le_refl _) rfl
    threads := fun _ h => haside h rfl (Nat.le_refl _) rfl
    runsStopped := fun _ h => haside h rfl (Nat.le_refl _) rfl
    diagnostics := fun _ h => haside h rfl (Nat.le_refl _) rfl
    remembered := fun id _ h => hadjust id _ (fun _ => rfl) h
    called := fun _ h _ _ => hput _ _ h
    started := fun h _ => hput _ _ h
    moved := fun h _ _ => hput _ _ h
    checked := fun _ h _ => hput _ _ h
    sent := fun _ _ _ h _ => hput _ _ h
    closed := fun _ _ _ h _ => hput _ _ h
    made := fun _ h hd _ => hmade h hd }

namespace Lasting

variable {Tunes : Prop} {Makes : Settings → Prop} {P : World A σ → Prop} {w : World A σ}

section
variable (h : Lasting env Tunes Makes P)
include h

theorem add (id : Nat) (m : Message) (hP : P w) : P (w.add (World.run env) id m) :=
  h.toLasting.add h.run trivial m hP

theorem stop (id : Nat) (hP : P w) : P (w.stop (World.run env) id) := h.toLasting.stop h.run trivial hP

theorem addText (id : Nat) (text : Option String) (time : Timestamp) (hP : P w) :
    P (addText env id text time w) := by
  unfold Appender.addText
  split
  · exact h.add id _ hP
  · exact hP

theorem connect {s : Settings} (hs : Makes s) (hP : P w) : P (connect env s w).2 := by
  unfold Appender.connect
  dsimp only
  split
  · exact h.outside _ hP
  · rename_i d hd
    split
    · have hP' := h.outside (env.connect s w.now w.outside).2 hP
      exact h.diagnostics _ hP'
    · rename_i limit hlimit
      exact h.diagnostics _ (h.made hs hP (Prod.ext hd rfl) hlimit)

theorem launch (id : Nat) (hP : P w) : P (launch env id w).2 := by
  unfold Appender.launch
  split
  · exact h.run _ _ (h.start id hP)
  · dsimp only
    split
    · exact h.outside _ hP
    · have hP' := h.outside (env.spawn w.outside).2 hP
      exact h.threads _ hP'

theorem startWriter {a : Appender} (hs : ∀ v, Makes (a.settings.resolve v)) (hP : P w) :
    P (a.startWriter env w).2 := by
  unfold Appender.startWriter
  dsimp only
  have hc := h.connect (hs (w.host.vocabulary w.wall a.sequence)) hP
  split
  · rename_i p v heq
    rw [heq] at hc
    exact hc
  · rename_i e v heq
    rw [heq] at hc
    exact hc
  · rename_i id v heq
    rw [heq] at hc
    have hl := h.launch id hc
    split
    · rename_i e u heq'
      rw [heq'] at hl
      exact hl
    · rename_i u heq'
      rw [heq'] at hl
      exact h.addText id _ _ hl

theorem replaceWriter {a : Appender} (hs : ∀ v, Makes (a.settings.resolve v)) (hP : P w) :
    P (a.replaceWriter env w).2 := by
  unfold Appender.replaceWriter
  have hP' := h.startWriter hs hP
  split
  · rename_i id v heq
    rw [heq] at hP'
    exact hP'
  · rename_i e v heq
    rw [heq] at hP'
    exact h.diagnostics _ hP'
  · rename_i p v heq
    rw [heq] at hP'
    exact hP'

theorem build {s : Settings} (hs : ∀ v, Makes (s.resolve v)) (header footer : Option String) (hP : P w) :
    P (build env s header footer w).2 := by
  have hP' := h.startWriter (a := fresh s header footer w.wall.millis) hs hP
  rw [build_eq]
  split
  · rename_i id v heq
    rw [heq] at hP'
    exact hP'
  · rename_i e v heq
    rw [heq] at hP'
    exact hP'
  · rename_i p v heq
    rw [heq] at hP'
    exact hP'

theorem equip {a : Appender} (hs : ∀ v, Makes (a.settings.resolve v)) (hP : P w) : P (a.equip env w).2 := by
  have hd : P (a.dropFailed w).2 := by
    unfold Appender.dropFailed
    split
    · exact h.diagnostics _ hP
    · exact hP
  unfold Appender.equip
  dsimp only
  split
  · refine h.replaceWriter (fun v => ?_) hd
    rw [(dropFailed_same a w).settings]
    exact hs v
  · exact hd

theorem retire (a : Appender) (id : Nat) (hP : P w) : P (a.retire env id w) := h.stop id (h.addText id _ _ hP)

theorem leave (a : Appender) (hP : P w) : P (a.leave env w) := by
  unfold Appender.leave
  split
  · exact h.retire a _ hP
  · exact hP

theorem log_of_prepared {a : Appender} (m : Message) (ho : a.closed = false) (hP : P (a.mended.prepare env w).2) :
    P (a.appendMessage env m w).2 := by
  rw [appendMessage_eq m ho]
  split
  · exact h.add _ m hP
  · exact hP

section
variable {a : Appender} (hs : ∀ v, Makes (a.settings.resolve v))
include hs

theorem switch_of_leave (hP : P (a.leave env w)) : P (a.switch env w).2 := by
  cases ho : a.obstacle? (a.leave env w) with
  | some p =>
    rw [switch_of_obstacle ho]
    exact hP
  | none =>
    rw [switch_of_clear ho]
    exact h.replaceWriter (a := a.advanced env w) hs hP

theorem switch (hP : P w) : P (a.switch env w).2 := h.switch_of_leave hs (h.leave a hP)

theorem prepare_of_turned (hP : P (a.turned env w).2) : P (a.prepare env w).2 := by
  rw [prepare_eq]
  split
  · exact hP
  · refine h.equip (fun v => ?_) hP
    rw [turned_settings]
    exact hs v

theorem appendMessage (m : Message) (hP : P w) : P (a.appendMessage env m w).2 := by
  by_cases ho : a.closed = true
  · unfold Appender.appendMessage
    rw [if_pos ho]
    exact hP
  · refine h.log_of_prepared m (Bool.eq_false_iff.mpr ho) ?_
    refine h.prepare_of_turned (a := a.mended) hs ?_
    unfold turned
    split
    · exact h.switch (a := a.mended) hs hP
    · exact hP

end

theorem close (a : Appender) (hP : P w) : P (a.close env w).2 := by
  unfold Appender.close
  split
  · exact hP
  · split
    · exact hP
    · rename_i id _
      have hr := h.retire a id hP
      dsimp only
      split
      · exact hr
      · dsimp only
        split
        · exact h.keep h.run _ _ _ ⟨trivial, False.elim⟩ hr
        · exact h.diagnostics _ (h.keep h.run _ _ _ ⟨trivial, False.elim⟩ hr)

theorem set {f : Writer → Writer}
    (hf : ∀ (writer : Writer) (now : Instant), writer.Called Tunes now (f writer, [])) (a : Appender)
    (hP : P w) : P (a.set f w) := by
  unfold Appender.set
  split
  · exact h.call trivial hP fun writer => hf writer _
  · exact hP

theorem act {x : Act} {a : Appender} (ht : x.Tunes → Tunes) (hs : ∀ v, Makes (a.settings.resolve v))
    (hP : P w) : P (a.act env x w).2 := by
  cases x with
  | append text => exact h.appendMessage hs _ hP
  | appendMessage m => exact h.appendMessage hs m hP
  | rotate =>
    change P (if a.closed then (a, w) else a.mended.switch env w).2
    split
    · exact hP
    · exact h.switch (a := a.mended) hs hP
  | close => exact h.close a hP
  | setBatchDelay d => exact h.set (fun _ _ => .setBatchDelay (ht trivial) d) a hP
  | setThreshold n => exact h.set (fun _ _ => .setThreshold (ht trivial) n) a hP
  | setAction x => exact h.set (fun _ _ => .setAction (ht trivial) x) a hP

end

theorem play (h : Lasting env True (fun _ => True) P) {turns : List (Turn A σ)}
    (hm : ∀ x ∈ turns, ∀ v, P v → P (x.meanwhile v)) (a : Appender) (hP : P w) : P (play env turns a w).2 := by
  induction turns generalizing a w with
  | nil => exact hP
  | cons x rest ih =>
    refine ih (fun y hy => hm y (List.mem_cons_of_mem x hy)) _ ?_
    exact h.act (fun _ => trivial) (fun _ => trivial) (hm x List.mem_cons_self w hP)

end Lasting

end Appender

end LogRelay
