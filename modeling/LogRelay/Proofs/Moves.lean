import LogRelay.Proofs.Contents
import LogRelay.Proofs.Filling
import LogRelay.Writer.State

/-!
# The moves of a writer

Whatever a writer does by itself is one of a few moves, each with the conditions under which it is
made. What is said of a writer's steps is said of the moves, case by case, and of what it does with
the answers it gets.
-/

namespace LogRelay

namespace Writer

def held (w : Writer) : List Message :=
  match w.phase with
  | .collecting batch _ _ => batch.messages
  | .sending batch _ => batch
  | _ => []

def isBare (w : Writer) : Bool :=
  match w.phase with
  | .collecting .. | .sending .. => false
  | _ => true

theorem held_of_isBare {w : Writer} (h : w.isBare = true) : w.held = [] := by
  unfold isBare at h
  unfold held
  cases hp : w.phase <;> simp [hp] at h ⊢

structure SameMake (w w' : Writer) : Prop where
  maxMessageSize : w'.maxMessageSize = w.maxMessageSize
  truncateOversize : w'.truncateOversize = w.truncateOversize
  synchronous : w'.synchronous = w.synchronous

theorem SameMake.refl (w : Writer) : SameMake w w := ⟨rfl, rfl, rfl⟩

theorem SameMake.trans {w₁ w₂ w₃ : Writer} (h : SameMake w₁ w₂) (h' : SameMake w₂ w₃) : SameMake w₁ w₃ :=
  ⟨h'.maxMessageSize.trans h.maxMessageSize, h'.truncateOversize.trans h.truncateOversize,
    h'.synchronous.trans h.synchronous⟩

/-- What a writer does by itself at the time `now`, and what it says about it. -/
inductive Move (μ : Measure) (now : Instant) (w : Writer) : Writer × List Notice → Prop
  | resume (hp : w.phase = .turning) (hs : w.synchronous = true) :
    Move μ now w ({ w with phase := .waiting (some now) false }, [])
  | leave (hp : w.phase = .turning) (hs : w.synchronous = false) (hd : w.isStopped = true)
      (he : w.backlog.isEmpty = true) :
    Move μ now w ({ w with phase := .closing }, [])
  | await (hp : w.phase = .turning) (hs : w.synchronous = false)
      (hd : w.isStopped = true → w.backlog.isEmpty = false) :
    Move μ now w ({ w with phase := .waiting w.deadline (w.deadline.any (· ≤ now)) }, [])
  | begin {limit last m q bytes} (hp : w.phase = .waiting limit last) (hq : w.backlog.pop? = some (m, q))
      (hb : μ.effectiveSize m = .ok bytes) :
    Move μ now w ({ w with
      backlog := q
      phase := .collecting ⟨[m], bytes⟩ ({ w with backlog := q }.window now) last }, [])
  | balk {limit last m q p} (hp : w.phase = .waiting limit last) (hq : w.backlog.pop? = some (m, q))
      (hb : μ.effectiveSize m = .error p) :
    Move μ now w ({ w with backlog := q }.panicked p)
  | interrupted {limit last} (hp : w.phase = .waiting limit last) (hq : w.backlog.pop? = none)
      (hi : w.backlog.interrupted = true) :
    Move μ now w ({ w with backlog := w.backlog.clearInterrupt }.turn true last)
  | expire {limit last} (hp : w.phase = .waiting limit last) (hq : w.backlog.pop? = none)
      (hi : w.backlog.interrupted = false) (hl : limit.any (· ≤ now) = true) :
    Move μ now w (w.turn true last)
  | fill {batch limit last f} (hp : w.phase = .collecting batch limit last)
      (hf : μ.fill batch.bytes batch.messages.length w.backlog.toList = .ok f)
      (hm : w.backlog.isEmpty = false) :
    Move μ now w ({ w with
      backlog := w.backlog.withMessages f.left
      phase := if f.full then .sending (batch.messages ++ f.taken) last
        else .collecting ⟨batch.messages ++ f.taken, f.bytes⟩ limit last }, [])
  | spill {batch limit last p left} (hp : w.phase = .collecting batch limit last)
      (hf : μ.fill batch.bytes batch.messages.length w.backlog.toList = .error (p, left)) :
    Move μ now w ({ w with backlog := w.backlog.withMessages left }.panicked p)
  | cut {batch limit last} (hp : w.phase = .collecting batch limit last)
      (he : w.backlog.isEmpty = true) (hi : w.backlog.interrupted = true) :
    Move μ now w ({ w with
      backlog := w.backlog.clearInterrupt
      phase := .sending batch.messages last }, [])
  | lapse {batch limit last} (hp : w.phase = .collecting batch limit last)
      (he : w.backlog.isEmpty = true) (hl : limit ≤ now) :
    Move μ now w ({ w with phase := .sending batch.messages last }, [])

theorem move_of_next {μ : Measure} {now : Instant} {w : Writer} {r : Writer × List Notice}
    (h : w.next μ now = .go r.1 r.2) : w.Move μ now r := by
  obtain ⟨w', ns⟩ := r
  unfold next at h
  split at h
  · cases h
  · cases h
  · cases h
  · rename_i hp
    split at h
    · rename_i hs; cases h; exact .resume hp hs
    · rename_i hs
      split at h
      · rename_i hd
        rw [Bool.and_eq_true] at hd
        cases h; exact .leave hp (by simpa using hs) hd.1 hd.2
      · rename_i hd
        cases h
        refine .await hp (by simpa using hs) fun hd' => ?_
        simpa [hd'] using hd
  · rename_i limit last hp
    split at h
    · rename_i m q hq
      unfold begin at h
      split at h
      · rename_i bytes hb; cases h; exact .begin hp hq hb
      · rename_i p hb
        simp only [Next.go.injEq] at h
        obtain ⟨rfl, rfl⟩ := h
        exact .balk hp hq hb
    · rename_i hq
      split at h
      · rename_i hi
        simp only [Next.go.injEq] at h
        obtain ⟨rfl, rfl⟩ := h
        exact .interrupted hp hq hi
      · rename_i hi
        split at h
        · rename_i hl
          simp only [Next.go.injEq] at h
          obtain ⟨rfl, rfl⟩ := h
          exact .expire hp hq (by simpa using hi) hl
        · cases h
  · rename_i batch limit last hp
    split at h
    · rename_i hm
      have hm : w.backlog.isEmpty = false := by simpa using hm
      unfold collect at h
      split at h
      · rename_i p left hf
        simp only [Next.go.injEq] at h
        obtain ⟨rfl, rfl⟩ := h
        exact .spill hp hf
      · rename_i f hf; cases h; exact .fill hp hf hm
    · rename_i he
      have he : w.backlog.isEmpty = true := by simpa using he
      split at h
      · rename_i hi; cases h; exact .cut hp he hi
      · split at h
        · rename_i hl; cases h; exact .lapse hp he hl
        · cases h
  · cases h
  · cases h

/-! ## What becomes of the messages -/

end Writer

def Notice.delivered : Notice → Nat
  | .sent delivered _ => delivered
  | _ => 0

def Notice.deliveredIn (ns : List Notice) : Nat := (ns.map Notice.delivered).sum

namespace Writer

/-- A writer that has nothing more to do with a batch changes nothing but its phase. -/
structure LetsGo (w : Writer) (r : Writer × List Notice) : Prop where
  make : SameMake w r.1
  backlog : r.1.backlog = w.backlog
  bare : r.1.isBare = true
  delivered : Notice.deliveredIn r.2 = 0

theorem turn_letsGo (progressed last : Bool) (w : Writer) : LetsGo w (w.turn progressed last) := by
  unfold turn
  repeat' split
  all_goals exact ⟨⟨rfl, rfl, rfl⟩, rfl, rfl, rfl⟩

theorem panicked_letsGo (p : Panic) (w : Writer) : LetsGo w (w.panicked p) := by
  unfold panicked
  repeat' split
  all_goals exact ⟨⟨rfl, rfl, rfl⟩, rfl, rfl, rfl⟩

structure Advances (μ : Measure) (w : Writer) (r : Writer × List Notice) : Prop where
  make : SameMake w r.1
  taken : ∃ taken, w.backlog.toList = taken ++ r.1.backlog.toList ∧
    (r.1.held = w.held ++ taken ∨ r.1.held = [] ∧ ¬ μ.Total)
  delivered : Notice.deliveredIn r.2 = 0

theorem LetsGo.advances {μ : Measure} {w w' : Writer} {r : Writer × List Notice} (h : LetsGo w' r)
    (hm : SameMake w w') (hq : w'.backlog.toList = w.backlog.toList) (hh : w.held = []) :
    Advances μ w r := by
  refine ⟨hm.trans h.make, ⟨[], ?_, Or.inl ?_⟩, h.delivered⟩
  · rw [h.backlog, hq, List.nil_append]
  · rw [held_of_isBare h.bare, hh, List.append_nil]

theorem LetsGo.advances_of_panic {μ : Measure} {w w' : Writer} {r : Writer × List Notice} {gone : List Message}
    (h : LetsGo w' r) (hm : SameMake w w') (hq : w.backlog.toList = gone ++ w'.backlog.toList)
    (ht : ¬ μ.Total) : Advances μ w r := by
  refine ⟨hm.trans h.make, ⟨gone, ?_, Or.inr ⟨held_of_isBare h.bare, ht⟩⟩, h.delivered⟩
  rw [h.backlog, hq]

theorem Move.advances {μ : Measure} {now : Instant} {w : Writer} {r : Writer × List Notice}
    (h : w.Move μ now r) : Advances μ w r := by
  cases h with
  | resume hp hs => exact ⟨⟨rfl, rfl, rfl⟩, ⟨[], rfl, Or.inl (by simp [held, hp])⟩, rfl⟩
  | leave hp hs hd he => exact ⟨⟨rfl, rfl, rfl⟩, ⟨[], rfl, Or.inl (by simp [held, hp])⟩, rfl⟩
  | await hp hs hd => exact ⟨⟨rfl, rfl, rfl⟩, ⟨[], rfl, Or.inl (by simp [held, hp])⟩, rfl⟩
  | @begin limit last m q bytes hp hq hb =>
    refine ⟨⟨rfl, rfl, rfl⟩, ⟨[m], (Backlog.pop?_eq_some hq).1, Or.inl ?_⟩, rfl⟩
    simp [held, hp]
  | @balk limit last m q p hp hq hb =>
    -- the message that could not be sized has left the backlog and is in no batch
    have hl : w.backlog.toList = [m] ++ q.toList := (Backlog.pop?_eq_some hq).1
    refine (panicked_letsGo p _).advances_of_panic ⟨rfl, rfl, rfl⟩ hl fun ht => ?_
    obtain ⟨n, hn⟩ := ht.size m
    rw [hb] at hn; cases hn
  | @interrupted limit last hp hq hi =>
    exact (turn_letsGo true last _).advances ⟨rfl, rfl, rfl⟩ rfl (by simp [held, hp])
  | @expire limit last hp hq hi hl =>
    exact (turn_letsGo true last w).advances (.refl w) rfl (by simp [held, hp])
  | @fill batch limit last f hp hf =>
    refine ⟨⟨rfl, rfl, rfl⟩, ⟨f.taken, (Measure.fill_ok hf).1, Or.inl ?_⟩, rfl⟩
    cases hfull : f.full <;> simp [held, hp]
  | @spill batch limit last p left hp hf =>
    obtain ⟨⟨gone, hg⟩, ht⟩ := Measure.fill_error hf
    exact (panicked_letsGo p _).advances_of_panic ⟨rfl, rfl, rfl⟩ hg ht
  | cut hp he hi => exact ⟨⟨rfl, rfl, rfl⟩, ⟨[], rfl, Or.inl (by simp [held, hp])⟩, rfl⟩
  | lapse hp he hl => exact ⟨⟨rfl, rfl, rfl⟩, ⟨[], rfl, Or.inl (by simp [held, hp])⟩, rfl⟩

end Writer

end LogRelay
