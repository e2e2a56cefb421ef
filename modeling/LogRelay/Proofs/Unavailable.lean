import LogRelay.Proofs.Conservation
import LogRelay.Proofs.Runs

/-!
# Destinations that could not be made available

A writer that was told that there is no destination has nothing left, and a policy that keeps nothing:
for as long as no message comes under another policy, all that comes is discarded and nothing is sent.
The policy is all that stands in the way, though, and it may be changed at any time.
-/

namespace LogRelay

theorem DiscardAction.keep_zero {α : Type} {a : DiscardAction} (h : a ≠ .none) (l : List α) :
    a.keep 0 l = [] := by
  cases a with
  | none => exact absurd rfl h
  | oldest => simp [keep]
  | newest => simp [keep]

theorem DiscardAction.shed_zero {α : Type} {a : DiscardAction} (h : a ≠ .none) (l : List α) :
    a.shed 0 l = l := by
  cases a with
  | none => exact absurd rfl h
  | oldest => simp [shed]
  | newest => simp [shed]

namespace Writer

structure IsVacant (w : Writer) : Prop where
  backlog : w.backlog.toList = []
  bare : w.isBare = true

def Refuses (w : Writer) : Prop := w.backlog.threshold = 0 ∧ w.backlog.action ≠ .none

instance (w : Writer) : Decidable w.Refuses := inferInstanceAs (Decidable (_ ∧ _))

theorem Keeps.bare {w : Writer} {r : Writer × List Notice} (h : Keeps w r) (hb : w.isBare = true) :
    r.1.isBare = true := by
  rcases h.phase with hp | ⟨_, hb'⟩
  · unfold isBare
    rw [hp]
    exact hb
  · exact hb'

variable {μ : Measure} {now : Instant} {w : Writer} {r : Writer × List Notice}

theorem Keeps.vacant (h : w.IsVacant) (hk : Keeps w r) (hq : r.1.backlog.toList = w.backlog.toList) :
    r.1.IsVacant := ⟨hq.trans h.backlog, hk.bare h.bare⟩

theorem Move.vacant (h : w.IsVacant) (hm : w.Move μ now r) : r.1.IsVacant := by
  have hno : ∀ m q, w.backlog.pop? ≠ some (m, q) := by
    intro m q hq
    have hl := (Backlog.pop?_eq_some hq).1
    rw [h.backlog] at hl
    cases hl
  have hbare := h.bare
  unfold isBare at hbare
  cases hm with
  | resume _ _ | leave _ _ _ _ | await _ _ _ => exact ⟨h.backlog, rfl⟩
  | begin _ hq _ | balk _ hq _ => exact absurd hq (hno _ _)
  | @interrupted _ last _ _ _ =>
    have hl := turn_letsGo true last { w with backlog := w.backlog.clearInterrupt }
    exact ⟨by rw [hl.backlog]; exact h.backlog, hl.bare⟩
  | @expire _ last _ _ _ _ =>
    have hl := turn_letsGo true last w
    exact ⟨by rw [hl.backlog]; exact h.backlog, hl.bare⟩
  | fill hp _ | spill hp _ | cut hp _ _ | lapse hp _ _ => simp [hp] at hbare

theorem Change.vacant (h : w.IsVacant) {e : Event} (hadd : e.isAdd = true → w.Refuses)
    (hc : Change μ now w r e) : r.1.IsVacant ∧ e.isSent = false := by
  cases hc with
  | ignore _ hk hq => exact ⟨hk.vacant h (by rw [hq]), rfl⟩
  | enqueue _ hk hq =>
    obtain ⟨ht, ha⟩ := hadd rfl
    refine ⟨⟨?_, hk.bare h.bare⟩, rfl⟩
    rw [hq, Backlog.toList_enqueue, ht, DiscardAction.keep_zero ha]
  | call he hk hq => exact ⟨hk.vacant h hq, by cases e <;> first | rfl | cases he⟩
  | go hm => exact ⟨hm.vacant h, rfl⟩
  | clear _ hc => exact ⟨⟨hc.backlog, hc.bare⟩, rfl⟩
  | check _ hk hq => exact ⟨hk.vacant h (by rw [hq]), rfl⟩
  | settle hp _ | giveBack hp _ _ =>
    have hbare := h.bare
    simp [isBare, hp] at hbare
  | close hk hq => exact ⟨hk.vacant h (by rw [hq]), rfl⟩

theorem respond_at_rest (hs : w.synchronous = false) (hp : w.phase = .idle) {e : Event}
    (hstart : e.isStart = false) (h : w.respond μ now e = some r) :
    r.1.synchronous = false ∧ r.1.phase = .idle ∧ e.isSent = false := by
  have hmake : r.1.synchronous = false := (change_of_respond h).make.synchronous.trans hs
  cases e with
  | add m =>
    refine ⟨hmake, ?_, rfl⟩
    simp only [respond] at h
    split at h
    · cases h
    · cases h
      rw [add_fst]
      split
      · simp [queue, hs, hp]
      · exact hp
  | stop =>
    refine ⟨hmake, ?_, rfl⟩
    simp only [respond] at h
    split at h
    · cases h
    · cases h
      unfold stop
      split
      · exact hp
      · simp [hs, hp]
  | start => cases hstart
  | setBatchDelay _ | setThreshold _ | setAction _ | setFailure _ => cases h; exact ⟨hmake, hp, rfl⟩
  | go | checked _ | sent _ | closed _ => simp [respond, next, hp] at h

end Writer

/-! ## What the ledger says -/

/-- All that was admitted in between was discarded, and nothing was delivered. -/
structure Ledger.Dismisses (l l' : Ledger) (more : List Submission) : Prop where
  admitted : l'.admitted = l.admitted ++ more
  discarded : l'.discarded = l.discarded ++ more
  delivered : l'.delivered = l.delivered

namespace Ledger

theorem Dismisses.refl (l : Ledger) : l.Dismisses l [] :=
  ⟨(List.append_nil _).symm, (List.append_nil _).symm, rfl⟩

theorem Dismisses.trans {l₁ l₂ l₃ : Ledger} {ms ns : List Submission} (h : l₁.Dismisses l₂ ms)
    (h' : l₂.Dismisses l₃ ns) : l₁.Dismisses l₃ (ms ++ ns) := by
  refine ⟨?_, ?_, h'.delivered.trans h.delivered⟩
  · rw [h'.admitted, h.admitted, List.append_assoc]
  · rw [h'.discarded, h.discarded, List.append_assoc]

theorem Describes.dismisses {w : Writer} {l : Ledger} (hd : l.Describes w) (w' : Writer) (h : w.IsVacant)
    {e : Event} (hadd : e.isAdd = true → w.Refuses) (hsent : e.isSent = false) :
    ∃ more, l.Dismisses (l.enter w w' e) more := by
  have hqueued : l.queued = [] := List.map_eq_nil_iff.mp (hd.queued.trans h.backlog)
  cases e with
  | add m =>
    obtain ⟨ht, ha⟩ := hadd rfl
    cases hm : w.admitted? m with
    | none => exact ⟨[], by simp only [Ledger.enter, hm]; exact .refl l⟩
    | some m' =>
      simp only [Ledger.enter, hm]
      refine ⟨[l.submission m'], rfl, ?_, rfl⟩
      simp only [Ledger.enroll]
      rw [ht, DiscardAction.shed_zero ha, hqueued, List.nil_append]
  | go =>
    simp only [Ledger.enter]
    split <;> exact ⟨[], (List.append_nil _).symm, (List.append_nil _).symm, rfl⟩
  | checked result =>
    refine ⟨[], ?_⟩
    rcases result with p | e | _
    · exact .refl l
    · exact ⟨(List.append_nil _).symm, by simp only [Ledger.enter, Ledger.drain, hqueued], rfl⟩
    · exact .refl l
  | sent _ => cases hsent
  | _ => exact ⟨[], .refl l⟩

end Ledger

/-! ## Whole courses -/

namespace Course

variable {μ : Measure} {es before after : List Moment} {x : Moment} {c c' c₀ c₁ c₂ : Course}

theorem run_vacant (hd : c.ledger.Describes c.writer) (h : c.writer.IsVacant)
    (hadd : Throughout μ (fun c y => y.event.isAdd = true → c.writer.Refuses) es c)
    (hrun : c.run μ es = some c') :
    c'.writer.IsVacant ∧ (∀ y ∈ es, y.event.isSent = false) ∧ ∃ more, c.ledger.Dismisses c'.ledger more := by
  induction es generalizing c with
  | nil =>
    rw [run, Option.some.injEq] at hrun
    subst hrun
    exact ⟨h, by simp, [], .refl _⟩
  | cons x es ih =>
    obtain ⟨c₁, h₁, h₂⟩ := run_cons hrun
    obtain ⟨r, hc, hw, -, hl⟩ := step_eq_some h₁
    obtain ⟨hv, hsent⟩ := hc.vacant h hadd.1
    have hd₁ : c₁.ledger.Describes c₁.writer := by rw [hl, hw]; exact hd.enter hc
    obtain ⟨more, hm⟩ := hd.dismisses r.1 h hadd.1 hsent
    rw [← hl] at hm
    obtain ⟨hv', hes, rest, hr⟩ := ih hd₁ (by rw [hw]; exact hv) (hadd.2 c₁ h₁) h₂
    refine ⟨hv', fun y hy => ?_, more ++ rest, hm.trans hr⟩
    rcases List.mem_cons.mp hy with rfl | hy
    · exact hsent
    · exact hes y hy

theorem run_at_rest (hs : c.writer.synchronous = false) (hp : c.writer.phase = .idle)
    (hstart : ∀ y ∈ es, y.event.isStart = false) (hrun : c.run μ es = some c') :
    c'.writer.phase = .idle ∧ ∀ y ∈ es, y.event.isSent = false := by
  induction es generalizing c with
  | nil =>
    rw [run, Option.some.injEq] at hrun
    subst hrun
    exact ⟨hp, by simp⟩
  | cons x es ih =>
    obtain ⟨c₁, h₁, h₂⟩ := run_cons hrun
    obtain ⟨r, hr, hw, -⟩ := step_respond h₁
    obtain ⟨hs₁, hp₁, hsent⟩ := Writer.respond_at_rest hs hp (hstart x (by simp)) hr
    rw [← hw] at hs₁ hp₁
    obtain ⟨hp', hes⟩ := ih hs₁ hp₁ (fun y hy => hstart y (List.mem_cons_of_mem x hy)) h₂
    refine ⟨hp', fun y hy => ?_⟩
    rcases List.mem_cons.mp hy with rfl | hy
    · exact hsent
    · exact hes y hy

section
variable {s : Settings} {limit : Nat} {d : Diagnostics}

/-- Where there is no destination, nothing is sent while every message finds a policy that refuses
it, and nothing at all by an asynchronous writer that a panic has ended. -/
theorem unavailable_not_sent (hb : (new s limit d).run μ before = some c₀) (hx : c₀.step μ x = some c₁)
    (ha : c₁.run μ after = some c₂) :
    (∀ e, x.event = .checked (.ok (.error e)) →
      Throughout μ (fun c y => y.event.isAdd = true → c.writer.Refuses) after c₁ →
      (∀ y ∈ after, y.event.isSent = false) ∧ (∀ now batch last, c₂.writer.next μ now ≠ .send batch last) ∧
      c₂.writer.backlog.toList = [] ∧ c₂.ledger.delivered = c₁.ledger.delivered ∧
      ∃ more, c₂.ledger.admitted = c₁.ledger.admitted ++ more ∧
        c₂.ledger.discarded = c₁.ledger.discarded ++ more ∧
        more.map (·.message) = after.filterMap (·.event.admitted? (Writer.create s limit))) ∧
    (∀ p, x.event = .checked (.error p) → s.synchronous = false →
      (∀ y ∈ after, y.event.isStart = false) →
      (∀ y ∈ after, y.event.isSent = false) ∧ ∀ now batch last, c₂.writer.next μ now ≠ .send batch last) := by
  have hd : c₁.ledger.Describes c₁.writer :=
    run_describes (run_snoc hb hx) (new_describes s limit d)
  have hmake : (Writer.create s limit).SameMake c₁.writer := run_make (run_snoc hb hx)
  obtain ⟨r, hr, hw, -⟩ := step_respond hx
  constructor
  · intro e he hadd
    rw [he] at hr
    obtain ⟨-, rfl⟩ := Writer.respond_checked hr
    have hc := Writer.checked_clears c₀.writer e
    obtain ⟨hv, hsent, more, hm⟩ := run_vacant hd (by rw [hw]; exact ⟨hc.backlog, hc.bare⟩) hadd ha
    refine ⟨hsent, fun now batch last hn => ?_, hv.backlog, hm.delivered, more, hm.admitted, hm.discarded, ?_⟩
    · have hbare := hv.bare
      simp [Writer.isBare, Writer.next_send hn] at hbare
    · have hadmitted := run_admitted ha
      rw [hm.admitted, List.map_append] at hadmitted
      rw [List.append_cancel_left hadmitted]
      simp only [hmake.admitted?]
  · intro p he hs hstart
    rw [he] at hr
    obtain ⟨-, rfl⟩ := Writer.respond_checked hr
    obtain ⟨hp, hsent⟩ := run_at_rest (hmake.synchronous.trans hs) (by rw [hw]; rfl) hstart ha
    refine ⟨hsent, fun now batch last hn => ?_⟩
    rw [Writer.next_send hn] at hp
    cases hp

def wavering : List Moment :=
  [.setThreshold 5, .go, .setThreshold 0, .add ⟨⟨0⟩, "b"⟩, .stop, .go, .go, .closed (.ok ())].map (⟨0, ⟨0⟩, ·⟩)

def refusal : Moment := ⟨0, ⟨0⟩, .checked (.ok (.error { message := "refused" }))⟩

theorem unavailable_not_sent_wavering :
    ∃ c₀ c₁ c₂,
      (new { target := .sns {} } 8 {}).run pairs ([.add ⟨⟨0⟩, "a"⟩, .start].map (⟨0, ⟨0⟩, ·⟩)) = some c₀ ∧
      c₀.step pairs refusal = some c₁ ∧ c₁.run pairs wavering = some c₂ ∧
      (∀ y ∈ wavering, y.event.isSent = false) ∧ c₂.ledger.delivered = c₁.ledger.delivered ∧
      ∃ more, c₂.ledger.discarded = c₁.ledger.discarded ++ more ∧ more.map (·.message) = [⟨⟨0⟩, "b"⟩] := by
  obtain ⟨c₀, c₁, c₂, h₀, h₁, h₂, hw⟩ : ∃ c₀ c₁ c₂,
      (new { target := .sns {} } 8 {}).run pairs ([.add ⟨⟨0⟩, "a"⟩, .start].map (⟨0, ⟨0⟩, ·⟩)) = some c₀ ∧
      c₀.step pairs refusal = some c₁ ∧ c₁.run pairs wavering = some c₂ ∧
      Throughout pairs (fun c y => y.event.isAdd = true → c.writer.Refuses) wavering c₁ :=
    ⟨_, _, _, rfl, rfl, rfl, by decide⟩
  obtain ⟨hsent, -, -, hdelivered, more, -, hdiscarded, hmore⟩ := (unavailable_not_sent h₀ h₁ h₂).1 _ rfl hw
  exact ⟨c₀, c₁, c₂, h₀, h₁, h₂, hsent, hdelivered, more, hdiscarded, hmore⟩

/-- Once it is told to keep messages again, the writer goes on as if there were a destination. -/
theorem reopened_sends :
    ((new { target := .sns {}, synchronous := true } 8 {}).run pairs
      ([.start, refusal.event, .setThreshold 1, .add ⟨⟨0⟩, "a"⟩, .go, .go].map (⟨0, ⟨0⟩, ·⟩))).map
        (fun c => c.writer.next pairs 0) = some (.send [⟨⟨0⟩, "a"⟩] false) := rfl

end

end Course

end LogRelay
