import LogRelay.Proofs.Events
import LogRelay.Proofs.Selection
import LogRelay.Writer.Notice

/-!
# The course of a writer's life

A course is a writer with its diagnostics and a ledger that is kept along with it. Any events, at
any times, in any order that the writer is open to, make a course. Throughout, the ledger describes
the writer: the batch and the backlog hold the messages that the ledger says are held and queued.
-/

namespace LogRelay

structure Moment where
  now : Instant
  wall : Timestamp
  event : Event

structure Course where
  writer : Writer
  diagnostics : Diagnostics
  ledger : Ledger := {}

/-- What an event means for the ledger: messages are admitted, taken from the queue, delivered or
given back, and dropped when there is nowhere to send them. A batch that a writer is left without
while it goes on by itself is lost. -/
def Ledger.enter (before after : Writer) (l : Ledger) : Event → Ledger
  | .add m => match before.admitted? m with
    | some m => l.enroll before.backlog.action before.backlog.threshold m
    | none => l
  | .go =>
    let l := l.take (before.backlog.size - after.backlog.size)
    if after.held.isEmpty then l.lose else l
  | .checked (.ok (.error _)) => l.drain
  | .sent (.ok (.ok failed)) => l.settle failed
  | .sent _ => l.giveBack
  | _ => l

namespace Course

def new (s : Settings) (maxMessageSize : Nat) (d : Diagnostics) : Course :=
  { writer := Writer.create s maxMessageSize, diagnostics := d }

def step (μ : Measure) (x : Moment) (c : Course) : Option Course :=
  (c.writer.respond μ x.now x.event).map fun r =>
    { writer := r.1
      diagnostics := c.diagnostics.recordAll x.wall r.2
      ledger := c.ledger.enter c.writer r.1 x.event }

def run (μ : Measure) : List Moment → Course → Option Course
  | [], c => some c
  | x :: rest, c => (c.step μ x).bind (run μ rest)

theorem step_eq_some {μ : Measure} {x : Moment} {c c' : Course} (h : c.step μ x = some c') :
    ∃ r, c.writer.Change μ x.now r x.event ∧ c'.writer = r.1 ∧
      c'.diagnostics = c.diagnostics.recordAll x.wall r.2 ∧
      c'.ledger = c.ledger.enter c.writer r.1 x.event := by
  obtain ⟨r, hr, rfl⟩ := Option.map_eq_some_iff.mp h
  exact ⟨r, Writer.change_of_respond hr, rfl, rfl, rfl⟩

theorem run_induct {μ : Measure} {P : Course → Prop} (hstep : ∀ x c c', c.step μ x = some c' → P c → P c') :
    ∀ {es : List Moment} {c c' : Course}, c.run μ es = some c' → P c → P c'
  | [], c, c', h, hP => by simp only [run, Option.some.injEq] at h; exact h ▸ hP
  | x :: es, c, c', h, hP => by
    obtain ⟨c₁, h₁, h₂⟩ := Option.bind_eq_some_iff.mp h
    exact run_induct hstep h₂ (hstep x c c₁ h₁ hP)

end Course

namespace Ledger

/-- Messages are as they were admitted: in the batch those that are held, in the backlog those that
are queued. -/
structure Describes (l : Ledger) (w : Writer) : Prop where
  held : l.held.map (·.message) = w.held
  queued : l.queued.map (·.message) = w.backlog.toList

theorem retained_eq_listed (failed : List Nat) (batch : List Message) :
    Writer.retained failed batch = listed failed batch :=
  Batch.pick_ascending failed batch

theorem retained_nil (batch : List Message) : Writer.retained [] batch = [] := by
  simp [retained_eq_listed, listed]

variable {μ : Measure} {now : Instant} {w : Writer} {r : Writer × List Notice} {l : Ledger}

theorem enter_of_isCall {e : Event} (he : e.IsCall) {w' : Writer} : l.enter w w' e = l := by
  cases e <;> first | rfl | cases he

theorem Describes.unchanged (h : l.Describes w) (hk : w.Keeps r) (hq : r.1.backlog.toList = w.backlog.toList) :
    l.Describes r.1 :=
  ⟨h.held.trans hk.held.symm, h.queued.trans hq.symm⟩

theorem Describes.enroll (h : l.Describes w) (m : Message) (hk : w.Keeps r)
    (hq : r.1.backlog = w.backlog.enqueue m) :
    (l.enroll w.backlog.action w.backlog.threshold m).Describes r.1 := by
  refine ⟨h.held.trans hk.held.symm, ?_⟩
  rw [hq, Backlog.toList_enqueue, ← h.queued]
  simp only [Ledger.enroll]
  rw [← DiscardAction.keep_map, List.map_append]
  rfl

theorem Describes.take (h : l.Describes w) {taken : List Message}
    (hq : w.backlog.toList = taken ++ r.1.backlog.toList) :
    let l' := l.take (w.backlog.size - r.1.backlog.size)
    l'.held.map (·.message) = w.held ++ taken ∧ l'.queued.map (·.message) = r.1.backlog.toList := by
  have hn : w.backlog.size - r.1.backlog.size = taken.length := by
    rw [← Backlog.length_toList, ← Backlog.length_toList, hq, List.length_append]
    omega
  simp only [Ledger.take, List.map_append, List.map_take, List.map_drop, h.held, h.queued, hn]
  rw [hq, List.take_left, List.drop_left]
  exact ⟨rfl, rfl⟩

theorem Describes.go (h : l.Describes w) (ha : w.Advances μ r) : (l.enter w r.1 .go).Describes r.1 := by
  obtain ⟨taken, hq, hh⟩ := ha.taken
  obtain ⟨hheld, hqueued⟩ := h.take hq
  simp only [Ledger.enter]
  split
  · rename_i he
    rw [List.isEmpty_iff] at he
    exact ⟨he.symm, hqueued⟩
  · rename_i he
    rcases hh with hh | ⟨hh, _⟩
    · exact ⟨hheld.trans hh.symm, hqueued⟩
    · rw [hh] at he
      exact absurd rfl he

theorem Describes.enter (h : l.Describes w) {e : Event} (hc : w.Change μ now r e) :
    (l.enter w r.1 e).Describes r.1 := by
  cases hc with
  | @ignore m hm hk hq =>
    simp only [Ledger.enter, hm]
    exact h.unchanged hk (by rw [hq])
  | @enqueue m m' hm hk hq =>
    simp only [Ledger.enter, hm]
    exact h.enroll m' hk hq
  | call he hk hq =>
    rw [enter_of_isCall he]
    exact h.unchanged hk hq
  | go hm => exact h.go hm.advances
  | clear hb hc =>
    refine ⟨?_, hc.backlog.symm⟩
    rw [Writer.held_of_isBare hc.bare, ← Writer.held_of_isBare hb]
    exact h.held
  | @check result hr hk hq =>
    have hl : l.enter w r.1 (.checked result) = l := by
      unfold Ledger.enter
      split <;> first | rfl | simp_all
    rw [hl]
    exact h.unchanged hk (by rw [hq])
  | @settle batch last failed hp hs =>
    have hb : l.held.map (·.message) = batch := by rw [h.held]; simp [Writer.held, hp]
    refine ⟨(Writer.held_of_isBare hs.bare).symm, ?_⟩
    simp only [Ledger.enter, Ledger.settle]
    rw [List.map_append, ← listed_map, hb, hs.backlog, h.queued, retained_eq_listed]
  | @giveBack batch last result hp hr hs =>
    have hb : l.held.map (·.message) = batch := by rw [h.held]; simp [Writer.held, hp]
    have hl : l.enter w r.1 (.sent result) = l.giveBack := by
      unfold Ledger.enter
      split <;> first | rfl | simp_all
    rw [hl]
    refine ⟨(Writer.held_of_isBare hs.bare).symm, ?_⟩
    simp only [Ledger.giveBack]
    rw [List.map_append, hb, hs.backlog, h.queued]
  | close hk hq => exact h.unchanged hk (by rw [hq])

end Ledger

end LogRelay
