import LogRelay.Proofs.Acts
import LogRelay.Proofs.Willing

/-!
# What an appender hands down

With destinations that never fail, the record of an appender is a story with a chapter for every writer: the
writer is made, it delivers the header, the messages that were logged while it was the current one, and the
footer, and it is shut down before the next is made. A step of the appender writes at the end of the story
only.
-/

namespace LogRelay

variable {A : Api} {σ : Type}

open World (drive run)

structure Chapter where
  /-- The time of the header. -/
  opened : Timestamp
  messages : List Message := []
  /-- The time of the footer. -/
  retired : Option Timestamp := none

section
variable (header footer : Option String)

def ownLines (text : Option String) (time : Timestamp) : List Message := text.toList.map fun text => { time, text }

def Chapter.stream (c : Chapter) : List Message :=
  ownLines header c.opened ++ c.messages ++ c.retired.toList.flatMap (ownLines footer)

def Chapter.notes (id : Nat) (c : Chapter) : List Note :=
  .made :: (c.stream header footer).map (.delivered id [·]) ++ c.retired.toList.map fun _ => .shut id

/-- What goes on record of writers that are numbered from `base` on. -/
def tale (base : Nat) (cs : List Chapter) : List Note :=
  (cs.zipIdx base).flatMap fun c => c.1.notes header footer c.2

theorem tale_append (base : Nat) (cs : List Chapter) (c : Chapter) :
    tale header footer base (cs ++ [c]) =
      tale header footer base cs ++ c.notes header footer (base + cs.length) := by
  unfold tale
  rw [List.zipIdx_append, List.flatMap_append]
  simp

end

structure Story where
  past : List Chapter := []
  last : Chapter

namespace Story

def chapters (b : Story) : List Chapter := b.past ++ [b.last]

def messages (b : Story) (k : Nat) : List Message := (b.chapters[k]?).elim [] Chapter.messages

def turn (retired opened : Timestamp) (b : Story) : Story :=
  { past := b.past ++ [{ b.last with retired := some retired }], last := { opened } }

def write (ms : List Message) (b : Story) : Story :=
  { b with last := { b.last with messages := b.last.messages ++ ms } }

def finish (retired : Timestamp) (b : Story) : Story := { b with last := { b.last with retired := some retired } }

theorem write_nil (b : Story) : b.write [] = b := by simp [write]

theorem messages_of_past (b : Story) {k : Nat} (hk : k < b.past.length) : b.messages k = b.past[k].messages := by
  simp [messages, chapters, List.getElem?_append, hk]

theorem map_messages (b : Story) :
    b.chapters.map Chapter.messages = (List.range (b.past.length + 1)).map b.messages := by
  have hlen : b.chapters.length = b.past.length + 1 := List.length_append
  apply List.ext_getElem
  · simp [hlen]
  · intro k hk hk'
    rw [List.length_map] at hk
    simp [messages, List.getElem?_eq_getElem hk]

theorem messages_last (b : Story) : b.messages b.past.length = b.last.messages := by simp [messages, chapters]

theorem messages_beyond (b : Story) {k : Nat} (hk : b.past.length < k) : b.messages k = [] := by
  have hnone : b.chapters[k]? = none := by
    rw [List.getElem?_eq_none_iff]
    simp only [chapters, List.length_append, List.length_singleton]
    omega
  rw [messages, hnone]
  rfl

theorem messages_write (ms : List Message) (b : Story) (k : Nat) :
    (b.write ms).messages k = b.messages k ++ if k = b.past.length then ms else [] := by
  rcases Nat.lt_trichotomy k b.past.length with hk | rfl | hk
  · rw [if_neg (Nat.ne_of_lt hk), List.append_nil, messages_of_past b hk]
    exact messages_of_past (b.write ms) hk
  · rw [if_pos rfl, messages_last b]
    exact messages_last (b.write ms)
  · rw [if_neg (Nat.ne_of_gt hk), List.append_nil, messages_beyond b hk]
    exact messages_beyond (b.write ms) hk

theorem messages_finish (retired : Timestamp) (b : Story) (k : Nat) :
    (b.finish retired).messages k = b.messages k := by
  rcases Nat.lt_trichotomy k b.past.length with hk | rfl | hk
  · rw [messages_of_past b hk]
    exact messages_of_past (b.finish retired) hk
  · rw [messages_last b]
    exact messages_last (b.finish retired)
  · rw [messages_beyond b hk]
    exact messages_beyond (b.finish retired) hk

theorem messages_turn (retired opened : Timestamp) (b : Story) (k : Nat) :
    (b.turn retired opened).messages k = b.messages k := by
  rw [← messages_finish retired b k]
  change (((b.finish retired).chapters ++ [{ opened := opened }])[k]?).elim [] Chapter.messages = _
  rw [List.getElem?_append]
  split
  · rfl
  · rename_i hk
    rw [messages, List.getElem?_eq_none (Nat.le_of_not_lt hk)]
    cases k - (b.finish retired).chapters.length <;> rfl

section
variable (header footer : Option String) (base : Nat) {b : Story} (h : b.last.retired = none)
include h

theorem tale_write (ms : List Message) :
    tale header footer base (b.write ms).chapters =
      tale header footer base b.chapters ++ ms.map (.delivered (base + b.past.length) [·]) := by
  simp [chapters, tale_append, write, Chapter.notes, Chapter.stream, h]

theorem tale_finish (retired : Timestamp) :
    tale header footer base (b.finish retired).chapters = tale header footer base b.chapters ++
      ((ownLines footer retired).map (.delivered (base + b.past.length) [·]) ++
        [.shut (base + b.past.length)]) := by
  simp [chapters, tale_append, finish, Chapter.notes, Chapter.stream, h]

theorem tale_turn (retired opened : Timestamp) :
    tale header footer base (b.turn retired opened).chapters = tale header footer base b.chapters ++
      ((ownLines footer retired).map (.delivered (base + b.past.length) [·]) ++ [.shut (base + b.past.length)]) ++
      .made :: (ownLines header opened).map (.delivered (base + b.past.length + 1) [·]) := by
  rw [← tale_finish header footer base h]
  change tale header footer base ((b.finish retired).chapters ++ [{ opened := opened }]) = _
  rw [tale_append]
  simp [chapters, finish, Chapter.notes, Chapter.stream, Nat.add_assoc]

end

structure Filled (n : Nat) (b : Story) : Prop where
  past : ∀ c ∈ b.past, c.messages.length = n
  last : b.last.messages.length ≤ n

end Story

namespace Appender

variable {env : Environment A σ} {record : σ → List Note} {limit : Nat} {w : World A σ} {a : Appender}

structure Suits (limit : Nat) (a : Appender) : Prop where
  synchronous : a.settings.synchronous = true
  threshold : 1 ≤ a.settings.discardThreshold
  header : ∀ t, ∀ m ∈ ownLines a.header t, m.Fits limit
  footer : ∀ t, ∀ m ∈ ownLines a.footer t, m.Fits limit

/-! ## One writer -/

theorem addText_adds {id : Nat} {text : Option String} {time : Timestamp} (h : w.Ready env record limit id)
    (ht : ∀ m ∈ ownLines text time, m.Fits limit) :
    w.Adds record ((ownLines text time).map (.delivered id [·])) (addText env id text time w) ∧
      (addText env id text time w).Ready env record limit id := by
  cases text with
  | none => exact ⟨.refl w, h⟩
  | some text => exact h.add (ht _ (List.mem_singleton_self _))

theorem connect_adds (ho : env.Obliges record limit) (s : Settings) (w : World A σ) :
    ∃ d size v, connect env s w = (.ok (.ok w.cells.size), v) ∧ w.Adds record [.made] v ∧
      d.Willing env record limit ∧ limit ≤ size ∧
      v.cells[w.cells.size]? = some { writer := Writer.create s size, destination := d } := by
  obtain ⟨d, o, hconnect, hd, hrecord⟩ := ho s w.now w.outside
  obtain ⟨size, hsize, hle⟩ := hd.limit
  unfold connect
  rw [hconnect]
  dsimp only
  rw [hsize]
  exact ⟨d, size, _, rfl, ⟨rfl, Array.size_push _, hrecord⟩, hd, hle, Array.getElem?_push_size⟩

theorem launch_adds {id size : Nat} {s : Settings} {d : Destination A} (ha : w.agenda = [])
    (hc : w.cells[id]? = some { writer := Writer.create s size, destination := d })
    (hs : s.synchronous = true) (ht : 1 ≤ s.discardThreshold) (hd : d.Willing env record limit)
    (hle : limit ≤ size) :
    ∃ v, launch env id w = (.ok (), v) ∧ w.Adds record [] v ∧ v.Ready env record limit id := by
  obtain ⟨hadds, hready⟩ := World.start_ready ha hc hd rfl hs ht hle
  refine ⟨_, ?_, hadds, hready⟩
  unfold launch
  rw [World.holds_of_cell hc]
  exact if_pos hs

theorem startWriter_adds (ho : env.Obliges record limit) (ha : w.agenda = []) (hs : a.Suits limit) :
    ∃ v, a.startWriter env w = (.ok (.ok w.cells.size), v) ∧
      w.Adds record (.made :: (ownLines a.header w.wall).map (.delivered w.cells.size [·])) v ∧
      v.Ready env record limit w.cells.size := by
  obtain ⟨d, size, v, hv, hadds, hd, hle, hc⟩ :=
    connect_adds ho (a.settings.resolve (w.host.vocabulary w.wall a.sequence)) w
  obtain ⟨u, hu, hstart, hready⟩ :=
    launch_adds (hadds.agenda.trans ha) hc hs.synchronous hs.threshold hd hle
  obtain ⟨htext, hready'⟩ := addText_adds hready (hs.header w.wall)
  refine ⟨_, ?_, (hadds.trans hstart).trans htext, hready'⟩
  unfold startWriter
  simp only [hv, hu]

theorem replaceWriter_adds (ho : env.Obliges record limit) (ha : w.agenda = []) (hs : a.Suits limit) :
    ∃ v, a.replaceWriter env w = ({ a with current := some w.cells.size }, v) ∧
      w.Adds record (.made :: (ownLines a.header w.wall).map (.delivered w.cells.size [·])) v ∧
      v.Ready env record limit w.cells.size := by
  obtain ⟨v, hv, hadds, hready⟩ := startWriter_adds ho ha hs
  refine ⟨v, ?_, hadds, hready⟩
  unfold replaceWriter
  rw [hv]

theorem retire_adds {id : Nat} (h : w.Ready env record limit id) (hs : a.Suits limit) :
    w.Adds record ((ownLines a.footer w.wall).map (.delivered id [·]) ++ [.shut id]) (a.retire env id w) ∧
      ∃ x, (a.retire env id w).writer? id = some x ∧ x.finished = true ∧ x.unwound? = none := by
  obtain ⟨htext, hready⟩ := addText_adds h (hs.footer w.wall)
  obtain ⟨hstop, hend⟩ := hready.stop
  exact ⟨htext.trans hstop, hend⟩

/-! ## An appender and its story -/

/-- `b` tells what has happened since `a₀` was given its first writer in the world `w₀`. -/
structure Tells (env : Environment A σ) (record : σ → List Note) (limit : Nat) (a₀ : Appender) (w₀ : World A σ)
    (b : Story) (a : Appender) (w : World A σ) : Prop where
  suits : a.Suits limit
  header : a.header = a₀.header
  footer : a.footer = a₀.footer
  mode : a.rotation.mode = a₀.rotation.mode
  interval : a.rotation.interval = a₀.rotation.interval
  broken : a.broken = none
  sequence : a.sequence.toNat = a₀.sequence.toNat + b.past.length
  counted : a.rotation.messages = UInt64.ofNat b.last.messages.length
  agenda : w.agenda = []
  size : w.cells.size = w₀.cells.size + b.past.length + 1
  recorded : record w.outside = record w₀.outside ++ tale a₀.header a₀.footer w₀.cells.size b.chapters
  past : ∀ c ∈ b.past, c.retired.isSome = true
  up : a.closed = false → b.last.retired = none ∧ a.current = some (w₀.cells.size + b.past.length) ∧
    w.Ready env record limit (w₀.cells.size + b.past.length)
  down : a.closed = true → b.last.retired.isSome = true ∧ a.current = none

variable {a₀ : Appender} {w₀ : World A σ} {b : Story}

namespace Tells

variable (h : Tells env record limit a₀ w₀ b a w) (ho : a.closed = false)
include h ho

theorem log {m : Message} (hm : m.Fits limit) :
    Tells env record limit a₀ w₀ (b.write [m]) { a with rotation := a.rotation.countMessage }
      (w.add (run env) (w₀.cells.size + b.past.length) m) := by
  obtain ⟨hlast, hcurrent, hready⟩ := h.up ho
  obtain ⟨hadds, hready'⟩ := hready.add hm
  refine { h with
    suits := { h.suits with }
    counted := ?_
    agenda := hadds.agenda.trans h.agenda
    size := hadds.size.trans h.size
    recorded := ?_
    up := fun _ => ⟨hlast, hcurrent, hready'⟩
    down := fun hc => absurd hc (Bool.eq_false_iff.mp ho) }
  · simp [Rotation.countMessage, h.counted, Story.write]
  · rw [hadds.record, h.recorded, Story.tale_write _ _ _ hlast, List.append_assoc]
    rfl

theorem switch (hob : env.Obliges record limit) (hroom : a.sequence.toNat + 1 < UInt64.size) : ∃ retired opened,
    Tells env record limit a₀ w₀ (b.turn retired opened) (a.switch env w).1 (a.switch env w).2 := by
  obtain ⟨hlast, hcurrent, hready⟩ := h.up ho
  obtain ⟨hleave, x, hx, -, hcalm⟩ := retire_adds hready h.suits
  have hleft : a.leave env w = a.retire env (w₀.cells.size + b.past.length) w := by
    unfold Appender.leave
    rw [hcurrent]
  rw [← hleft] at hleave hx
  have hclear : a.obstacle? (a.leave env w) = none := by
    unfold obstacle? letPast?
    rw [hcurrent, Option.bind_some, hx, Option.bind_some, hcalm, if_pos hroom]
    rfl
  have hswitch := switch_of_clear hclear
  unfold advanced at hswitch
  generalize a.leave env w = v at hleave hswitch
  have hsize : v.cells.size = w₀.cells.size + b.past.length + 1 := by
    rw [hleave.size, h.size, List.countP_append, Note.countP_delivered]
    rfl
  obtain ⟨u, hu, hadds, hready'⟩ := replaceWriter_adds (w := v) (a := { a with
    current := none
    sequence := a.sequence + 1
    rotation := a.rotation.restart v.wall.millis }) hob (hleave.agenda.trans h.agenda) { h.suits with }
  have hlen : (b.turn w.wall v.wall).past.length = b.past.length + 1 := List.length_append
  rw [hsize] at hu hadds hready'
  rw [hswitch, hu]
  refine ⟨w.wall, v.wall, { h with
    suits := { h.suits with }
    sequence := ?_
    counted := rfl
    agenda := hadds.agenda.trans (hleave.agenda.trans h.agenda)
    size := ?_
    recorded := ?_
    past := ?_
    up := fun _ => ?_
    down := fun hc => absurd hc (Bool.eq_false_iff.mp ho) }⟩
  · rw [hlen, ← Nat.add_assoc, ← h.sequence, UInt64.toNat_add]
    exact Nat.mod_eq_of_lt hroom
  · rw [hadds.size, hsize, hlen, List.countP_cons, Note.countP_delivered]
    rfl
  · rw [hadds.record, hleave.record, h.recorded, Story.tale_turn _ _ _ hlast, h.footer, h.header]
    simp
  · intro c hc
    rcases List.mem_append.mp hc with hc | hc
    · exact h.past c hc
    · rw [List.mem_singleton.mp hc]
      rfl
  · rw [hlen]
    exact ⟨rfl, rfl, hready'⟩

theorem equip : a.equip env w = (a, w) := by
  obtain ⟨-, hcurrent, -, cell, hc, hw, -⟩ := h.up ho
  have hdrop : a.dropFailed w = (a, w) := by
    unfold dropFailed
    rw [hcurrent, Option.any_some, World.holds_of_cell hc, hw.failure]
    rfl
  unfold Appender.equip
  rw [hdrop]
  exact if_neg (by rw [hcurrent]; exact Bool.false_ne_true)

theorem close : ∃ retired,
    Tells env record limit a₀ w₀ (b.finish retired) (a.close env w).1 (a.close env w).2 := by
  obtain ⟨hlast, hcurrent, hready⟩ := h.up ho
  obtain ⟨hleave, x, hx, hend, hcalm⟩ := retire_adds hready h.suits
  have hfinished : (a.retire env (w₀.cells.size + b.past.length) w).holds (w₀.cells.size + b.past.length)
      (·.finished) = true := by
    rw [World.holds, hx]
    exact hend
  have hcalm : a.letPast? (a.retire env (w₀.cells.size + b.past.length) w) = none := by
    rw [letPast?, hcurrent, Option.bind_some, hx]
    exact hcalm
  have hclose : a.close env w =
      ({ a with closed := true, current := none, broken := none },
        a.retire env (w₀.cells.size + b.past.length) w) := by
    unfold Appender.close
    rw [if_neg (Bool.eq_false_iff.mp ho), hcurrent]
    dsimp only
    rw [hcalm, World.awaitEnd_finished _ hfinished]
    exact (if_neg Bool.false_ne_true).trans (congrArg _ (if_pos hfinished))
  rw [hclose]
  refine ⟨w.wall, { h with
    suits := { h.suits with }
    broken := rfl
    agenda := hleave.agenda.trans h.agenda
    size := ?_
    recorded := ?_
    up := fun hc => by cases hc
    down := fun _ => ⟨rfl, rfl⟩ }⟩
  · rw [hleave.size, h.size, List.countP_append, Note.countP_delivered]
    rfl
  · rw [hleave.record, h.recorded, Story.tale_finish _ _ _ hlast, h.footer]
    simp

omit ho in
theorem mended : a.mended = a := by
  unfold Appender.mended
  rw [← h.broken]

theorem appendMessage (hob : env.Obliges record limit) {m : Message} (hm : m.Fits limit)
    (hroom : a.rotation.isDue w.wall.millis = true → a.sequence.toNat + 1 < UInt64.size) :
    ∃ b', Tells env record limit a₀ w₀ (b'.write [m]) (a.appendMessage env m w).1 (a.appendMessage env m w).2 ∧
      if a.rotation.isDue w.wall.millis then ∃ retired opened, b' = b.turn retired opened else b' = b := by
  have hlog : ∀ {b' : Story} {a' : Appender} {w' : World A σ}, a.turned env w = (a', w') →
      Tells env record limit a₀ w₀ b' a' w' → a'.closed = false →
      Tells env record limit a₀ w₀ (b'.write [m]) (a.appendMessage env m w).1 (a.appendMessage env m w).2 := by
    intro b' a' w' hturned h' ho'
    have hready : a.mended.prepare env w = (a', w') := by
      rw [h.mended, prepare_eq, hturned, h'.broken]
      exact h'.equip ho'
    rw [appendMessage_eq m ho, hready]
    dsimp only
    split
    · rename_i id hid
      cases (h'.up ho').2.1.symm.trans hid
      exact h'.log ho' hm
    · rename_i hnone
      cases (h'.up ho').2.1.symm.trans hnone
  by_cases hdue : a.rotation.isDue w.wall.millis = true
  · obtain ⟨retired, opened, hswitch⟩ := h.switch ho hob (hroom hdue)
    refine ⟨_, hlog (turned_of_due hdue) hswitch ((switch_closed a w).trans ho), ?_⟩
    rw [if_pos hdue]
    exact ⟨retired, opened, rfl⟩
  · exact ⟨b, hlog (turned_of_not_due (Bool.eq_false_iff.mpr hdue)) h ho, by rw [if_neg hdue]⟩

omit ho in
theorem meanwhile {x : Turn A σ} (hx : x.Idles) (hr : ∀ v, record (x.meanwhile v).outside = record v.outside) :
    Tells env record limit a₀ w₀ b a (x.meanwhile w) := by
  obtain ⟨hcells, hagenda⟩ := hx w
  refine { h with
    agenda := hagenda.trans h.agenda
    size := by rw [hcells, h.size]
    recorded := by rw [hr, h.recorded]
    up := fun ho => ?_ }
  obtain ⟨hlast, hcurrent, -, cell, hc, hw, hd⟩ := h.up ho
  exact ⟨hlast, hcurrent, hagenda.trans h.agenda, cell, by rw [hcells]; exact hc, hw, hd⟩

omit ho in
theorem set {f : Writer → Writer} (hf : ∀ x : Writer, x.IsReady limit → (f x).IsReady limit) {s : Settings}
    (hs : { a with settings := s }.Suits limit) :
    Tells env record limit a₀ w₀ b { a with settings := s } (a.set f w) := by
  by_cases hc : a.closed = true
  · rw [set_of_none (h.down hc).2]
    exact { h with suits := hs }
  · obtain ⟨hlast, hcurrent, hready⟩ := h.up (Bool.eq_false_iff.mpr hc)
    obtain ⟨hadds, hready'⟩ := hready.set hf
    rw [set_of_some hcurrent]
    refine { h with
      suits := hs
      agenda := hadds.agenda.trans h.agenda
      size := hadds.size.trans h.size
      recorded := ?_
      up := fun _ => ⟨hlast, hcurrent, hready'⟩
      down := fun ho => absurd ho hc }
    rw [hadds.record, h.recorded, List.append_nil]

end Tells

theorem build_tells (hob : env.Obliges record limit) {s : Settings} {header footer : Option String}
    (ha : w₀.agenda = []) (hs : (fresh s header footer w₀.wall.millis).Suits limit) :
    ∃ a w opened, build env s header footer w₀ = (.ok (.ok a), w) ∧ a.closed = false ∧
      Tells env record limit (fresh s header footer w₀.wall.millis) w₀ { last := { opened } } a w := by
  obtain ⟨v, hv, hadds, hready⟩ := startWriter_adds hob ha hs
  refine ⟨{ fresh s header footer w₀.wall.millis with current := some w₀.cells.size }, v, w₀.wall, ?_, rfl, ?_⟩
  · rw [build_eq, hv]
  · refine ⟨{ hs with }, rfl, rfl, rfl, rfl, rfl, rfl, rfl, hadds.agenda.trans ha, ?_, ?_, ?_,
      fun _ => ⟨rfl, rfl, hready⟩, fun hc => (by cases hc)⟩
    · rw [hadds.size, List.countP_cons, Note.countP_delivered]
      rfl
    · rw [hadds.record]
      simp [tale, Story.chapters, Chapter.notes, Chapter.stream]
    · exact fun c hc => by cases hc

/-! ## One act after the other -/

/-- An appender that is open rotates: it is told to, or it is time to when it is given a message. -/
def Scene.switches (x : Scene A σ) : Bool :=
  match x.act with
  | .rotate => !x.before.closed
  | _ => x.appends && x.before.rotation.isDue x.reading

inductive Scene.Goes (x : Scene A σ) (b : Story) : Story → Prop
  | stays (hs : x.switches = false) : Goes x b (b.write x.message?.toList)
  | turns (hs : x.switches = true) (retired opened : Timestamp) :
    Goes x b ((b.turn retired opened).write x.message?.toList)
  | ends (hs : x.switches = false) (hm : x.message? = none) (retired : Timestamp) : Goes x b (b.finish retired)

/-- Between the acts nothing happens to the writers; what is logged fits, and the threshold is not set to zero. -/
structure Turn.Proper (record : σ → List Note) (limit : Nat) (x : Turn A σ) : Prop where
  idles : x.Idles
  unrecorded : ∀ v, record (x.meanwhile v).outside = record v.outside
  message : ∀ now m, x.act.message? now = some m → m.Fits limit
  threshold : ∀ n, x.act = .setThreshold n → 1 ≤ n

theorem Scene.of_message {x : Scene A σ} {m : Message} (h : x.message? = some m) :
    x.before.closed = false ∧ x.act.message? x.world.wall = some m ∧
      x.switches = x.before.rotation.isDue x.reading := by
  have ha : x.appends = true := by
    unfold appends
    rw [h]
    rfl
  unfold message? at h
  by_cases hc : x.before.closed = true
  · rw [if_pos hc] at h
    cases h
  · rw [if_neg hc] at h
    refine ⟨Bool.eq_false_iff.mpr hc, h, ?_⟩
    unfold switches
    rw [ha, Bool.true_and]
    split
    · rename_i hr
      rw [hr] at h
      cases h
    · rfl

theorem Scene.of_quiet {x : Scene A σ} (h : x.message? = none) (hr : x.act = .rotate → x.before.closed = true) :
    x.switches = false := by
  unfold switches appends
  rw [h]
  split
  · rename_i hx
    rw [hr hx]
    rfl
  · rfl

theorem scene_quiet {x : Turn A σ} (hm : (x.scene env a w).message? = none)
    (hr : x.act = .rotate → a.closed = true)
    (h' : Tells env record limit a₀ w₀ b (x.scene env a w).after (x.scene env a w).outcome) :
    ∃ b', (x.scene env a w).Goes b b' ∧
      Tells env record limit a₀ w₀ b' (x.scene env a w).after (x.scene env a w).outcome := by
  have hgoes := Scene.Goes.stays (b := b) (Scene.of_quiet hm hr)
  rw [hm, Option.toList_none, Story.write_nil] at hgoes
  exact ⟨b, hgoes, h'⟩

section
variable (h : Tells env record limit a₀ w₀ b a w) (hob : env.Obliges record limit) {x : Turn A σ}
  (hx : x.Proper record limit) (hroom : (x.scene env a w).switches = true → a.sequence.toNat + 1 < UInt64.size)
include h hob hx hroom

theorem Tells.scene_message {m : Message} (hm : (x.scene env a w).message? = some m) :
    ∃ b', (x.scene env a w).Goes b b' ∧
      Tells env record limit a₀ w₀ b' (x.scene env a w).after (x.scene env a w).outcome := by
  obtain ⟨ho, hact, hs⟩ := Scene.of_message hm
  have hscene : ((x.scene env a w).after, (x.scene env a w).outcome) = a.appendMessage env m (x.meanwhile w) :=
    act_of_message hact
  obtain ⟨b', htells, hb'⟩ :=
    (h.meanwhile hx.idles hx.unrecorded).appendMessage ho hob (hx.message _ m hact) fun hdue =>
      hroom (hs.trans hdue)
  rw [← hscene] at htells
  refine ⟨_, ?_, htells⟩
  have hlist : [m] = (x.scene env a w).message?.toList := by rw [hm]; rfl
  rw [hlist]
  split at hb'
  · rename_i hdue
    obtain ⟨retired, opened, rfl⟩ := hb'
    exact .turns (hs.trans hdue) retired opened
  · rename_i hdue
    rw [hb']
    exact .stays (hs.trans (Bool.eq_false_iff.mpr hdue))

theorem Tells.scene :
    ∃ b', (x.scene env a w).Goes b b' ∧
      Tells env record limit a₀ w₀ b' (x.scene env a w).after (x.scene env a w).outcome := by
  have hv := h.meanwhile hx.idles hx.unrecorded
  cases hm : (x.scene env a w).message? with
  | some m => exact h.scene_message hob hx hroom hm
  | none =>
    have hclosed : ∀ r : Appender × World A σ, a.closed = true →
        Tells env record limit a₀ w₀ b (if a.closed then (a, x.meanwhile w) else r).1
          (if a.closed then (a, x.meanwhile w) else r).2 := by
      intro r hc
      rw [if_pos hc]
      exact hv
    obtain ⟨meanwhile, act⟩ := x
    cases act with
    | append _ | appendMessage _ =>
      have hc : a.closed = true := by
        by_cases hc : a.closed = true
        · exact hc
        · cases (if_neg hc).symm.trans hm
      exact scene_quiet hm (fun _ => hc) (hclosed _ hc)
    | rotate =>
      by_cases hc : a.closed = true
      · exact scene_quiet hm (fun _ => hc) (hclosed _ hc)
      · have ho : a.closed = false := Bool.eq_false_iff.mpr hc
        obtain ⟨retired, opened, hswitch⟩ := hv.switch ho hob (hroom (congrArg (!·) ho))
        have hgoes := Scene.Goes.turns (b := b) (x := Turn.scene env ⟨meanwhile, .rotate⟩ a w)
          (congrArg (!·) ho) retired opened
        rw [hm, Option.toList_none, Story.write_nil] at hgoes
        have hrotate : Appender.rotate env a (meanwhile w) = a.switch env (meanwhile w) := by
          rw [Appender.rotate, if_neg hc, h.mended]
        refine ⟨_, hgoes, ?_⟩
        change Tells _ _ _ _ _ _ (Appender.rotate env a (meanwhile w)).1 (Appender.rotate env a (meanwhile w)).2
        rw [hrotate]
        exact hswitch
    | close =>
      by_cases hc : a.closed = true
      · exact scene_quiet hm (fun _ => hc) (hclosed _ hc)
      · obtain ⟨retired, hclose⟩ := hv.close (Bool.eq_false_iff.mpr hc)
        exact ⟨_, .ends (Scene.of_quiet hm fun hr => by cases hr) hm retired, hclose⟩
    | setBatchDelay d =>
      have hset := hv.set (f := (·.setBatchDelay d)) (s := { a.settings with batchDelay := d.wordMillis })
        (fun _ hw => { hw with }) { h.suits with }
      exact scene_quiet hm (fun hr => by cases hr) hset
    | setThreshold n =>
      have hn := hx.threshold n rfl
      have hset := hv.set (f := (·.setThreshold n)) (s := { a.settings with discardThreshold := n })
        (fun _ hw => { hw with threshold := hn }) { h.suits with threshold := hn }
      exact scene_quiet hm (fun hr => by cases hr) hset
    | setAction d =>
      have hset := hv.set (f := (·.setAction d)) (s := { a.settings with discardAction := d })
        (fun _ hw => { hw with }) { h.suits with }
      exact scene_quiet hm (fun hr => by cases hr) hset

end

/-! ## All of them -/

/-- The messages that were logged while a writer was the current one. -/
def logged (id : Nat) (T : List (Scene A σ)) : List Message :=
  T.filterMap fun x => if x.after.current = some id then x.message? else none

structure Leads (base : Nat) (T : List (Scene A σ)) (b b' : Story) : Prop where
  length : b'.past.length = b.past.length + T.countP Scene.switches
  messages : ∀ k, b'.messages k = b.messages k ++ logged (base + k) T
  all : b'.chapters.flatMap Chapter.messages = b.chapters.flatMap Chapter.messages ++ T.filterMap Scene.message?

theorem Leads.nil (base : Nat) (b : Story) : Leads base ([] : List (Scene A σ)) b b :=
  ⟨rfl, fun _ => (List.append_nil _).symm, (List.append_nil _).symm⟩

theorem Leads.trans {base : Nat} {T T' : List (Scene A σ)} {b₁ b₂ b₃ : Story} (h : Leads base T b₁ b₂)
    (h' : Leads base T' b₂ b₃) : Leads base (T ++ T') b₁ b₃ := by
  refine ⟨?_, fun k => ?_, ?_⟩
  · rw [h'.length, h.length, List.countP_append, Nat.add_assoc]
  · rw [h'.messages, h.messages, logged, logged, logged, List.filterMap_append, List.append_assoc]
  · rw [h'.all, h.all, List.filterMap_append, List.append_assoc]

theorem Scene.Goes.leads {x : Scene A σ} {base : Nat} {b' : Story} (h : x.Goes b b')
    (hcurrent : ∀ m, x.message? = some m → x.after.current = some (base + b'.past.length)) :
    Leads base [x] b b' := by
  have hlogged : ∀ k, logged (base + k) [x] = if k = b'.past.length then x.message?.toList else [] := by
    intro k
    cases hm : x.message? with
    | none => simp [logged, hm]
    | some m =>
      by_cases he : k = b'.past.length
      · simp [logged, hm, hcurrent m hm, he]
      · simp [logged, hcurrent m hm, he, Ne.symm he]
  have hall : [x].filterMap Scene.message? = x.message?.toList := by
    cases hm : x.message? <;> simp [hm]
  cases h with
  | stays hs =>
    refine ⟨by simp [hs, Story.write], fun k => ?_, ?_⟩
    · rw [hlogged]
      exact Story.messages_write _ b k
    · rw [hall]
      simp [Story.chapters, Story.write]
  | turns hs retired opened =>
    refine ⟨by simp [hs, Story.write, Story.turn], fun k => ?_, ?_⟩
    · rw [hlogged, ← Story.messages_turn retired opened b k]
      exact Story.messages_write _ (b.turn retired opened) k
    · rw [hall]
      simp [Story.chapters, Story.write, Story.turn]
  | ends hs hm retired =>
    rw [hm] at hlogged hall
    refine ⟨by simp [hs, Story.finish], fun k => ?_, ?_⟩
    · rw [hlogged, Story.messages_finish, Option.toList_none, ite_self, List.append_nil]
    · rw [hall]
      simp [Story.chapters, Story.finish]

/-- With a count of `n`, a writer is left when it has `n` messages. -/
theorem Scene.Goes.filled {x : Scene A σ} {b' : Story} {n : Nat} (h : x.Goes b b') (hn : 0 < n)
    (hr : x.act ≠ .rotate) (hdue : x.before.rotation.isDue x.reading = decide (n ≤ b.last.messages.length))
    (hb : b.Filled n) : b'.Filled n := by
  cases h with
  | stays hs =>
    refine ⟨hb.past, ?_⟩
    cases hm : x.message? with
    | none =>
      rw [Option.toList_none, Story.write_nil]
      exact hb.last
    | some m =>
      rw [(Scene.of_message hm).2.2, hdue, decide_eq_false_iff_not] at hs
      simp only [Story.write, Option.toList_some, List.length_append, List.length_singleton]
      omega
  | turns hs retired opened =>
    cases hm : x.message? with
    | none =>
      rw [Scene.of_quiet hm fun h => absurd h hr] at hs
      cases hs
    | some m =>
      rw [(Scene.of_message hm).2.2, hdue, decide_eq_true_iff] at hs
      refine ⟨fun c hc => ?_, hn⟩
      rcases List.mem_append.mp hc with hc | hc
      · exact hb.past c hc
      · rw [List.mem_singleton.mp hc]
        exact Nat.le_antisymm hb.last hs
  | ends hs hm retired => exact ⟨hb.past, hb.last⟩

theorem Tells.retired_iff (h : Tells env record limit a₀ w₀ b a w) {k : Nat} {c : Chapter}
    (hk : b.chapters[k]? = some c) : c.retired.isSome = true ↔ k < b.past.length ∨ a.closed = true := by
  rw [Story.chapters, List.getElem?_append] at hk
  split at hk
  · rename_i hlt
    exact iff_of_true (h.past c (List.mem_of_getElem? hk)) (.inl hlt)
  · rename_i hge
    have hlast : c = b.last := by simpa using List.mem_of_getElem? hk
    rw [hlast]
    by_cases hc : a.closed = true
    · exact iff_of_true (h.down hc).1 (.inr hc)
    · simp [(h.up (Bool.eq_false_iff.mpr hc)).1, hge, hc]

theorem Tells.goes_filled (h : Tells env record limit a₀ w₀ b a w) {x : Turn A σ} {b' : Story}
    (hg : (x.scene env a w).Goes b b') (hm : a₀.rotation.mode = .count) (hn : 0 < a₀.rotation.interval)
    (hword : a₀.rotation.interval < 2 ^ 64) (hr : x.act ≠ .rotate) (hb : b.Filled a₀.rotation.interval) :
    b'.Filled a₀.rotation.interval := by
  refine hg.filled hn hr ?_ hb
  have hlast := hb.last
  have hcount : a.rotation.messages.toNat = b.last.messages.length := by
    rw [h.counted, UInt64.toNat_ofNat']
    exact Nat.mod_eq_of_lt (by omega)
  change a.rotation.isDue _ = _
  rw [Rotation.isDue, h.mode, hm, h.interval, hcount]
  simp [hn]

theorem Tells.current {x : Turn A σ} {m : Message} (hm : (x.scene env a w).message? = some m)
    (h : Tells env record limit a₀ w₀ b (x.scene env a w).after (x.scene env a w).outcome) :
    (x.scene env a w).after.current = some (w₀.cells.size + b.past.length) := by
  obtain ⟨ho, hact, -⟩ := Scene.of_message hm
  have hopen : (x.scene env a w).after.closed = a.closed :=
    (congrArg (fun r => r.1.closed) (act_of_message hact)).trans (appendMessage_closed a m _)
  exact (h.up (hopen.trans ho)).2.1

def HasRoom (env : Environment A σ) (turns : List (Turn A σ)) (a : Appender) (w : World A σ) : Prop :=
  a.sequence.toNat + (scenes env turns a w).countP Scene.switches < UInt64.size

theorem HasRoom.first {x : Turn A σ} {rest : List (Turn A σ)} (h : HasRoom env (x :: rest) a w)
    (hs : (x.scene env a w).switches = true) : a.sequence.toNat + 1 < UInt64.size := by
  unfold HasRoom at h
  rw [scenes, List.countP_cons, if_pos hs] at h
  omega

theorem Tells.rest_hasRoom {x : Turn A σ} {rest : List (Turn A σ)} {b₁ : Story} (h : Tells env record limit a₀ w₀ b a w)
    (hgoes : (x.scene env a w).Goes b b₁)
    (h₁ : Tells env record limit a₀ w₀ b₁ (x.scene env a w).after (x.scene env a w).outcome)
    (hroom : HasRoom env (x :: rest) a w) : HasRoom env rest (x.scene env a w).after (x.scene env a w).outcome := by
  have hlen := (hgoes.leads fun m hm => h₁.current hm).length
  rw [List.countP_singleton] at hlen
  unfold HasRoom at hroom ⊢
  rw [scenes, List.countP_cons, h.sequence] at hroom
  rw [h₁.sequence, hlen]
  omega

/-- However the turns go, the story goes on with them. -/
theorem Tells.play (hob : env.Obliges record limit) {turns : List (Turn A σ)}
    (hx : ∀ x ∈ turns, x.Proper record limit) (hroom : HasRoom env turns a w)
    (h : Tells env record limit a₀ w₀ b a w) :
    ∃ b', Leads w₀.cells.size (scenes env turns a w) b b' ∧
      Tells env record limit a₀ w₀ b' (play env turns a w).1 (play env turns a w).2 ∧
      (a₀.rotation.mode = .count → 0 < a₀.rotation.interval → a₀.rotation.interval < 2 ^ 64 →
        (∀ x ∈ turns, x.act ≠ .rotate) → b.Filled a₀.rotation.interval → b'.Filled a₀.rotation.interval) := by
  induction turns generalizing a w b with
  | nil => exact ⟨b, .nil _ b, h, fun _ _ _ _ hb => hb⟩
  | cons x rest ih =>
    obtain ⟨b₁, hgoes, h₁⟩ := h.scene hob (hx x List.mem_cons_self) hroom.first
    obtain ⟨b', hleads, h', hfilled⟩ :=
      ih (fun y hy => hx y (List.mem_cons_of_mem x hy)) (h.rest_hasRoom hgoes h₁ hroom) h₁
    refine ⟨b', (hgoes.leads fun m hm => h₁.current hm).trans hleads, h', fun hm hn hword hr hb => ?_⟩
    refine hfilled hm hn hword (fun y hy => hr y (List.mem_cons_of_mem x hy)) ?_
    exact h.goes_filled hgoes hm hn hword (hr x List.mem_cons_self) hb

/-- The story up to one of the turns, and what that one adds to it. -/
theorem Tells.play_cut (hob : env.Obliges record limit) {before after : List (Turn A σ)} {y : Turn A σ}
    (hx : ∀ x ∈ before ++ y :: after, x.Proper record limit) (hroom : HasRoom env (before ++ y :: after) a w)
    (h : Tells env record limit a₀ w₀ b a w) :
    ∃ b' b'', Leads w₀.cells.size (scenes env before a w) b b' ∧
      (y.scene env (Appender.play env before a w).1 (Appender.play env before a w).2).Goes b' b'' ∧
      Tells env record limit a₀ w₀ b''
        (y.scene env (Appender.play env before a w).1 (Appender.play env before a w).2).after
        (y.scene env (Appender.play env before a w).1 (Appender.play env before a w).2).outcome := by
  induction before generalizing a w b with
  | nil =>
    obtain ⟨b', hgoes, h'⟩ := h.scene hob (hx y List.mem_cons_self) hroom.first
    exact ⟨b, b', .nil _ b, hgoes, h'⟩
  | cons x rest ih =>
    obtain ⟨b₁, hgoes, h₁⟩ := h.scene hob (hx x List.mem_cons_self) hroom.first
    obtain ⟨b', b'', hleads, h'⟩ :=
      ih (fun z hz => hx z (List.mem_cons_of_mem x hz)) (h.rest_hasRoom hgoes h₁ hroom) h₁
    exact ⟨b', b'', (hgoes.leads fun m hm => h₁.current hm).trans hleads, h'⟩

theorem play_closed (turns : List (Turn A σ)) (a : Appender) (w : World A σ) :
    (play env turns a w).1.closed = true ↔ a.closed = true ∨ ∃ x ∈ turns, x.act = .close := by
  induction turns generalizing a w with
  | nil => simp [play]
  | cons x rest ih =>
    have hx : (x.scene env a w).after.closed = true ↔ a.closed = true ∨ x.act = .close := act_closed a x.act _
    rw [play, ih, hx, or_assoc]
    simp

theorem play_of_closed {turns : List (Turn A σ)} (hx : ∀ x ∈ turns, x.Proper record limit) (hc : a.closed = true)
    (hn : a.current = none) : record (play env turns a w).2.outside = record w.outside ∧
      (play env turns a w).1.sequence = a.sequence := by
  induction turns generalizing a w with
  | nil => exact ⟨rfl, rfl⟩
  | cons x rest ih =>
    obtain ⟨s, hs⟩ := act_of_closed env hc hn x.act (x.meanwhile w)
    have hrest := @ih (x.meanwhile w) { a with settings := s } (fun y hy => hx y (List.mem_cons_of_mem x hy)) hc hn
    have hplay : play env (x :: rest) a w = play env rest { a with settings := s } (x.meanwhile w) := by
      change play env rest (a.act env x.act (x.meanwhile w)).1 (a.act env x.act (x.meanwhile w)).2 = _
      rw [hs]
    rw [hplay]
    exact ⟨hrest.1.trans ((hx x List.mem_cons_self).unrecorded w), hrest.2⟩

section
variable (hob : env.Obliges record limit) {opened : Timestamp}
  (h : Tells env record limit a₀ w₀ { last := { opened } } a w) {turns : List (Turn A σ)}
  (hx : ∀ x ∈ turns, x.Proper record limit) (hroom : HasRoom env turns a w) {pre post : List (Scene A σ)}
  {x : Scene A σ} (hT : scenes env turns a w = pre ++ x :: post)
include hob h hx hroom hT

/-- The message of an append that rotates is the first of the new writer. -/
theorem Tells.first_logged (hs : x.switches) (hr : x.act ≠ .rotate) : ∃ m, x.message? = some m ∧
    (logged (w₀.cells.size + (pre.countP Scene.switches + 1)) (scenes env turns a w)).head? = some m := by
  obtain ⟨before, y, after, rfl, rfl, rfl, -⟩ := scenes_cut hT
  obtain ⟨b, b', hleads, hgoes, h''⟩ := h.play_cut hob hx hroom
  cases hm : (y.scene env (Appender.play env before a w).1 (Appender.play env before a w).2).message? with
  | none =>
    rw [Scene.of_quiet hm fun h => absurd h hr] at hs
    cases hs
  | some m =>
    have hcurrent := h''.current hm
    have hlen : b.past.length = (scenes env before a w).countP Scene.switches := by
      rw [hleads.length]
      exact Nat.zero_add _
    have hlen' : b'.past.length = b.past.length + 1 := by
      rw [(hgoes.leads fun m hm => h''.current hm).length, List.countP_singleton, if_pos hs]
    -- nothing was logged while the next writer was not there
    have hnone : logged (w₀.cells.size + (b.past.length + 1)) (scenes env before a w) = [] := by
      have hbeyond := hleads.messages (b.past.length + 1)
      rw [Story.messages_beyond b (Nat.lt_succ_self _)] at hbeyond
      exact (List.append_eq_nil_iff.mp hbeyond.symm).2
    refine ⟨m, rfl, ?_⟩
    rw [hlen', hlen] at hcurrent
    rw [hlen] at hnone
    rw [hT, logged, List.filterMap_append, ← logged, hnone, List.nil_append, List.filterMap_cons, if_pos hcurrent,
      hm]
    rfl

theorem Tells.close_ends (hclose : x.act = .close) :
    record (Appender.play env turns a w).2.outside = record x.outcome.outside ∧
      (Appender.play env turns a w).1.sequence = x.after.sequence := by
  obtain ⟨before, y, after, rfl, -, rfl, hplay⟩ := scenes_cut hT
  obtain ⟨b, b', -, -, h''⟩ := h.play_cut hob hx hroom
  have hclosed : (y.scene env (Appender.play env before a w).1
      (Appender.play env before a w).2).after.closed = true :=
    (act_closed _ y.act _).mpr (.inr hclose)
  rw [hplay]
  exact play_of_closed (fun z hz => hx z (by simp [hz])) hclosed (h''.down hclosed).2

end

/-- Every writer delivers the header, the messages that were logged while it was the current one, and the
footer, and is shut down before the next is made; no message is left out. -/
theorem streams_told (hob : env.Obliges record limit) {c : CloudWatchSettings} {s : Settings}
    (hc : s.target = .cloudWatch c) (hs : s.synchronous = true) (ht : 1 ≤ s.discardThreshold)
    {header footer : Option String} (hown : ∀ t, ∀ m ∈ ownLines header t ++ ownLines footer t, m.Fits limit)
    (ha : w₀.agenda = []) :
    ∃ a w, build env s header footer w₀ = (.ok (.ok a), w) ∧
      ∀ turns : List (Turn A σ), (∀ x ∈ turns, x.Proper record limit) →
        let T := scenes env turns a w
        let r := play env turns a w
        let n := T.countP Scene.switches
        let stream := fun k => logged (w₀.cells.size + k) T
        c.sequence.toNat + n < 2 ^ 64 →
        (∃ cs : List Chapter, record r.2.outside = record w₀.outside ++ tale header footer w₀.cells.size cs ∧
          cs.map Chapter.messages = (List.range (n + 1)).map stream ∧
          ∀ k chapter, cs[k]? = some chapter → (chapter.retired.isSome ↔ k < n ∨ ∃ x ∈ turns, x.act = .close)) ∧
        (List.range (n + 1)).flatMap stream = T.filterMap Scene.message? ∧
        r.1.sequence.toNat = c.sequence.toNat + n ∧
        (∀ pre x post, T = pre ++ x :: post → x.switches → x.act ≠ .rotate →
          ∃ m, x.message? = some m ∧ (stream (pre.countP Scene.switches + 1)).head? = some m) ∧
        (c.rotation = .count → 0 < c.rotationInterval → c.rotationInterval < 2 ^ 64 →
          (∀ x ∈ turns, x.act ≠ .rotate) →
          (∀ k < n, (stream k).length = c.rotationInterval) ∧ (stream n).length ≤ c.rotationInterval) ∧
        ∀ pre x post, T = pre ++ x :: post → x.act = .close →
          record r.2.outside = record x.outcome.outside ∧ r.1.sequence = x.after.sequence := by
  have hsuits : (fresh s header footer w₀.wall.millis).Suits limit :=
    ⟨hs, ht, fun t m hm => hown t m (List.mem_append_left _ hm),
      fun t m hm => hown t m (List.mem_append_right _ hm)⟩
  obtain ⟨a, w, opened, hbuild, ho, htells⟩ := build_tells hob ha hsuits
  have hsequence : a.sequence.toNat = c.sequence.toNat := by
    rw [htells.sequence]
    simp only [fresh, hc, Target.initialSequence]
    rfl
  refine ⟨a, w, hbuild, fun turns hx => ?_⟩
  intro T r n stream hlt
  have hroom : HasRoom env turns a w := by
    unfold HasRoom
    rw [hsequence]
    exact hlt
  obtain ⟨b, hleads, h, hfilled⟩ := htells.play hob hx hroom
  have hn : b.past.length = n := by
    rw [hleads.length]
    exact Nat.zero_add _
  have hmessages : b.messages = stream := by
    funext k
    rw [hleads.messages]
    cases k <;> rfl
  have hmap := b.map_messages
  rw [hn, hmessages] at hmap
  refine ⟨⟨b.chapters, h.recorded, hmap, fun k chapter hk => ?_⟩, ?_, ?_,
    fun pre x post hT => htells.first_logged hob hx hroom hT, fun hmode hpos hword hr => ?_,
    fun pre x post hT => htells.close_ends hob hx hroom hT⟩
  · have hclosed : r.1.closed = true ↔ ∃ x ∈ turns, x.act = .close := by
      rw [play_closed turns a w, ho]
      simp
    rw [← hclosed, ← hn]
    exact h.retired_iff hk
  · rw [List.flatMap_def, ← hmap, ← List.flatMap_def, hleads.all]
    rfl
  · rw [← hsequence, htells.sequence, h.sequence, hn]
    rfl
  · have hrotation : (fresh s header footer w₀.wall.millis).rotation =
        Rotation.begin c.rotation c.rotationInterval w₀.wall.millis := by
      simp only [fresh, hc, Target.rotation]
    rw [hrotation] at hfilled
    have hb := hfilled hmode hpos hword hr ⟨fun c hc => (by cases hc), Nat.zero_le _⟩
    rw [← hmessages, ← hn]
    refine ⟨fun k hk => ?_, ?_⟩
    · rw [Story.messages_of_past b hk]
      exact hb.past _ (List.getElem_mem hk)
    · rw [Story.messages_last]
      exact hb.last

def dutiful : Destination ⟨Option (List Message), fun _ => Unit⟩ where
  effectiveSize m := .ok m.size
  withinLimits _ _ := .ok true
  name _ := "dutiful"
  maxMessageSize := .ok 100
  makeAvailable := .done (.ok ())
  send batch := .call (some batch) fun _ => .done (.ok [])
  shutdown := .call none fun _ => .done ()

def scribe : Environment ⟨Option (List Message), fun _ => Unit⟩ (List Note) where
  ask id r _ o := ({ latency := none, reply := fun o => (.ok (), o ++ [r.elim (.shut id) (.delivered id)]) }, o)
  draw o := (0, o)
  connect _ _ o := (.ok dutiful, o ++ [.made])
  spawn o := (.ok (), o)

theorem scribe_obliges : scribe.Obliges id 100 := by
  refine fun s now o => ⟨dutiful, _, rfl, ?_, rfl⟩
  constructor
  · exact ⟨fun m => ⟨_, rfl⟩, fun bytes count => ⟨_, rfl⟩⟩
  · exact ⟨100, rfl, Nat.le_refl _⟩
  · exact fun id n w ha => ⟨w, rfl, (List.append_nil _).symm⟩
  · exact fun size _ id batch _ _ n w ha => ⟨_, rfl, rfl⟩
  · exact fun id n w ha => ⟨_, rfl, rfl⟩

def pairwise : Settings where
  target := .cloudWatch { logGroup := "app", rotation := .count, rotationInterval := 2, sequence := 7 }
  synchronous := true
  discardThreshold := 1

def week : List (Turn ⟨Option (List Message), fun _ => Unit⟩ (List Note)) :=
  [.append "mon", .append "tue", .setThreshold 3, .append "wed", .append "thu", .append "fri", .close,
    .append "sat"].map fun x => { meanwhile := fun w => { w with now := w.now + 1000000 }, act := x }

theorem week_proper : ∀ x ∈ week, x.Proper id 100 := by
  unfold week
  rw [List.forall_mem_map]
  intro act hact
  simp only [List.mem_cons, List.not_mem_nil, or_false] at hact
  refine ⟨fun v => ⟨rfl, rfl⟩, fun v => rfl, fun now m hm => ?_, fun n hn => ?_⟩
  · rcases hact with rfl | rfl | rfl | rfl | rfl | rfl | rfl | rfl <;> cases hm <;>
      exact ⟨Nat.le_of_ble_eq_true rfl, Nat.le_of_ble_eq_true rfl⟩
  · rcases hact with rfl | rfl | rfl | rfl | rfl | rfl | rfl | rfl <;> cases hn
    decide

def almanac : List Note :=
  [.made, .delivered 0 [⟨⟨0⟩, "top"⟩], .delivered 0 [⟨⟨1000000⟩, "mon"⟩], .delivered 0 [⟨⟨2000000⟩, "tue"⟩],
    .delivered 0 [⟨⟨4000000⟩, "end"⟩], .shut 0,
    .made, .delivered 1 [⟨⟨4000000⟩, "top"⟩], .delivered 1 [⟨⟨4000000⟩, "wed"⟩], .delivered 1 [⟨⟨5000000⟩, "thu"⟩],
    .delivered 1 [⟨⟨6000000⟩, "end"⟩], .shut 1,
    .made, .delivered 2 [⟨⟨6000000⟩, "top"⟩], .delivered 2 [⟨⟨6000000⟩, "fri"⟩], .delivered 2 [⟨⟨7000000⟩, "end"⟩],
    .shut 2]

theorem streams_told_week :
    ∃ a w, build scribe pairwise (some "top") (some "end")
        { epoch := ⟨0⟩, host := { startup := ⟨0⟩, process := 1 }, outside := [] } = (.ok (.ok a), w) ∧
      (play scribe week a w).2.outside = almanac ∧
      (play scribe week a w).1.sequence.toNat = 9 ∧
      (∀ k < 2, (logged (0 + k) (scenes scribe week a w)).length = 2) ∧
      (logged (0 + 2) (scenes scribe week a w)).length ≤ 2 := by
  let w₀ : World ⟨Option (List Message), fun _ => Unit⟩ (List Note) :=
    { epoch := ⟨0⟩, host := { startup := ⟨0⟩, process := 1 }, outside := [] }
  have hown : ∀ t, ∀ m ∈ ownLines (some "top") t ++ ownLines (some "end") t, m.Fits 100 := by
    intro t m hm
    have hm : m = { time := t, text := "top" } ∨ m = { time := t, text := "end" } := by simpa [ownLines] using hm
    rcases hm with rfl | rfl <;> exact ⟨Nat.le_of_ble_eq_true rfl, Nat.le_of_ble_eq_true rfl⟩
  obtain ⟨a, w, hbuild, h⟩ :=
    @streams_told _ _ scribe id 100 w₀ scribe_obliges _ pairwise rfl rfl (by decide) _ _ hown rfl
  have hrun : (((build scribe pairwise (some "top") (some "end") w₀).1.toOption.bind (·.toOption)).map fun a =>
      ((play scribe week a (build scribe pairwise (some "top") (some "end") w₀).2).2.outside,
        (scenes scribe week a (build scribe pairwise (some "top") (some "end") w₀).2).countP Scene.switches)) =
      some (almanac, 2) := by decide +kernel
  rw [hbuild] at hrun
  obtain ⟨houtside, hn⟩ := Prod.mk.inj (Option.some.inj hrun)
  obtain ⟨-, -, hsequence, -, hcount, -⟩ := h week week_proper (by rw [hn]; decide)
  rw [hn] at hsequence hcount
  have hr : ∀ x ∈ week, x.act ≠ .rotate := by simp [week]
  exact ⟨a, w, hbuild, houtside, hsequence, hcount rfl (by decide) (by decide) hr⟩

end Appender

end LogRelay
