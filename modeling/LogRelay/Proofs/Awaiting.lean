import LogRelay.Proofs.Traffic

/-!
# Waiting for a message

A call for a message returns at once if there is something for it, and else with the first of the things to
come that leaves a message or an interrupt behind, or at its limit if there is none by then. An interrupt
stays, however often it is repeated and whatever is taken in the meantime, until a call comes to nothing
because of it.
-/

namespace LogRelay.Backlog

namespace Change

def isInterrupt : Change → Bool
  | interrupt => true
  | _ => false

end Change

def Event.changes : Event → List Change
  | change changes => changes
  | receive _ => []

def past (q : Backlog) (arrivals : List Arrival) : Backlog := q.after (arrivals.flatMap (·.event.changes))

/-- What comes from `t` on, in order of time; nobody else waits for messages. -/
structure Upcoming (t : Instant) (arrivals : List Arrival) : Prop where
  changes : ∀ a ∈ arrivals, ∃ changes, a.event = .change changes
  ahead : ∀ a ∈ arrivals, t ≤ a.due
  sorted : arrivals.Pairwise (·.due ≤ ·.due)

/-- A call returns at `t`, when the backlog is `q`: with the first message, and then an interrupt stays, or
with none, and then it is over. -/
structure Returns (t : Instant) (q : Backlog) (r : Option Message × Instant × Backlog) : Prop where
  message : r.1 = q.toList.head?
  time : r.2.1 = t
  contents : r.2.2.toList = q.toList.tail
  interrupted : r.2.2.interrupted = (r.1.isSome && q.interrupted)
  threshold : r.2.2.threshold = q.threshold
  action : r.2.2.action = q.action

variable {q : Backlog} {t limit : Instant} {a : Arrival} {before later arrivals : List Arrival}

theorem after_append (q : Backlog) (cs ds : List Change) : q.after (cs ++ ds) = (q.after cs).after ds :=
  List.foldl_append

theorem past_cons (q : Backlog) (a : Arrival) (arrivals : List Arrival) :
    q.past (a :: arrivals) = (q.past [a]).past arrivals := by
  unfold past
  rw [List.flatMap_cons, after_append, List.flatMap_singleton]

theorem isAwake_eq_false_iff (q : Backlog) : q.isAwake = false ↔ q.toList = [] ∧ q.interrupted = false := by
  simp [isAwake, isEmpty_iff]

theorem interrupted_after (q : Backlog) (changes : List Change) :
    (q.after changes).interrupted = (q.interrupted || changes.any Change.isInterrupt) := by
  induction changes generalizing q with
  | nil => exact (Bool.or_false _).symm
  | cons c cs ih =>
    have hstep : (c.apply q).interrupted = (q.interrupted || c.isInterrupt) := by
      cases c with
      | enqueue m => exact (enqueue_sameSettings q m).interrupted.trans (Bool.or_false _).symm
      | take => exact (take_spec q).2.2.interrupted.trans (Bool.or_false _).symm
      | interrupt => exact (Bool.or_true _).symm
      | _ => exact (Bool.or_false _).symm
    show ((c.apply q).after cs).interrupted = _
    rw [ih, hstep, Bool.or_assoc, List.any_cons]

theorem returns_receive (t : Instant) (q : Backlog) : Returns t q (q.receive.1, t, q.receive.2) := by
  unfold receive
  cases hp : q.pop? with
  | none =>
    have hnil := pop?_eq_none hp
    exact ⟨by rw [hnil]; rfl, rfl, by rw [hnil]; exact hnil, rfl, rfl, rfl⟩
  | some p =>
    obtain ⟨hl, hs⟩ := pop?_eq_some hp
    exact ⟨by rw [hl]; rfl, rfl, by rw [hl]; rfl, by simp [hs.interrupted], hs.threshold, hs.action⟩

/-! ## The wait -/

theorem Upcoming.tail (h : Upcoming t (a :: arrivals)) : Upcoming a.due arrivals := by
  obtain ⟨hfirst, hrest⟩ := List.pairwise_cons.mp h.sorted
  exact ⟨fun b hb => h.changes b (List.mem_cons_of_mem a hb), hfirst, hrest⟩

theorem Upcoming.wait_cons {n : Nat} (h : Upcoming t (a :: arrivals)) (hdue : a.due ≤ limit) :
    Watch.wait (n + 1) (some limit) { now := t, backlog := q, arrivals := a :: arrivals } =
      if (q.past [a]).isAwake then { now := a.due, backlog := q.past [a], arrivals }
      else Watch.wait n (some limit) { now := a.due, backlog := q.past [a], arrivals } := by
  obtain ⟨changes, hc⟩ := h.changes a (by simp)
  have hnow : max t a.due = a.due := Nat.max_eq_right (h.ahead a (by simp))
  have hpast : q.past [a] = changes.foldl Change.apply q := by
    simp [past, after, Event.changes, hc]
  simp only [Watch.wait, Option.all_some, hdue, decide_true, if_true, hc, hnow, hpast]

/-- The wait goes on past arrivals that leave nothing behind, neither shorter nor longer for them. -/
theorem Upcoming.wait_passes (h : Upcoming t (before ++ later)) (ht : t ≤ limit)
    (hdue : ∀ a ∈ before, a.due ≤ limit) (hasleep : ∀ l, l <+: before → (q.past l).isAwake = false) (n : Nat) :
    ∃ t', t' ≤ limit ∧ Upcoming t' later ∧
      Watch.wait (before.length + n) (some limit) { now := t, backlog := q, arrivals := before ++ later } =
        Watch.wait n (some limit) { now := t', backlog := q.past before, arrivals := later } := by
  induction before generalizing q t with
  | nil => exact ⟨t, ht, h, by rw [List.length_nil, Nat.zero_add]; rfl⟩
  | cons b bs ih =>
    have hb : b.due ≤ limit := hdue b (by simp)
    have hasleep₁ : (q.past [b]).isAwake = false := hasleep [b] (List.prefix_append [b] bs)
    have hrest : ∀ l, l <+: bs → ((q.past [b]).past l).isAwake = false := by
      intro l hl
      rw [← past_cons]
      exact hasleep _ ((List.prefix_cons_inj b).mpr hl)
    rw [List.cons_append] at h
    obtain ⟨t', ht', hlater, hwait⟩ := ih h.tail hb (fun a ha => hdue a (List.mem_cons_of_mem b ha)) hrest
    refine ⟨t', ht', hlater, ?_⟩
    rw [List.cons_append, List.length_cons, Nat.add_right_comm, h.wait_cons hb, if_neg (by simp [hasleep₁]),
      hwait, past_cons q b bs]

theorem Upcoming.wait_wakes (h : Upcoming t (before ++ a :: later)) (ht : t ≤ limit) (hdue : a.due ≤ limit)
    (hasleep : ∀ l, l <+: before → (q.past l).isAwake = false) (hawake : (q.past (before ++ [a])).isAwake = true)
    (n : Nat) :
    Watch.wait (before.length + (n + 1)) (some limit) { now := t, backlog := q, arrivals := before ++ a :: later } =
      { now := a.due, backlog := q.past (before ++ [a]), arrivals := later } := by
  have hbefore : ∀ b ∈ before, b.due ≤ limit := fun b hb =>
    Nat.le_trans ((List.pairwise_append.mp h.sorted).2.2 b hb a (by simp)) hdue
  obtain ⟨t', -, hlater, hwait⟩ := h.wait_passes ht hbefore hasleep (n + 1)
  have hpast : (q.past before).past [a] = q.past (before ++ [a]) := by
    unfold past
    rw [List.flatMap_append, after_append]
  rw [hwait, hlater.wait_cons hdue, hpast, if_pos hawake]

theorem Upcoming.wait_lapses (h : Upcoming t (before ++ later)) (ht : t ≤ limit)
    (hbefore : ∀ a ∈ before, a.due ≤ limit) (hlater : ∀ a ∈ later, limit < a.due)
    (hasleep : ∀ l, l <+: before → (q.past l).isAwake = false) (n : Nat) :
    Watch.wait (before.length + (n + 1)) (some limit) { now := t, backlog := q, arrivals := before ++ later } =
      { now := limit, backlog := q.past before, arrivals := later } := by
  obtain ⟨t', ht', -, hwait⟩ := h.wait_passes ht hbefore hasleep (n + 1)
  rw [hwait]
  cases later with
  | nil => simp [Watch.wait, Nat.max_eq_right ht']
  | cons a later => simp [Watch.wait, Nat.not_le.mpr (hlater a (by simp)), Nat.max_eq_right ht']

/-! ## Calls -/

theorem takeBy_at_once (h : q.isAwake = true ∨ limit ≤ t) :
    Returns t q (q.takeBy (some limit) arrivals t) := by
  have hs : (q.isAwake || (some limit).any (· ≤ t)) = true := by simpa using h
  unfold takeBy
  simp only [hs, if_true]
  exact returns_receive t q

section
variable (hq : q.isAwake = false) (ht : t < limit)
include hq ht

theorem takeBy_waits : q.takeBy (some limit) arrivals t =
    let s := Watch.wait (arrivals.length + 1) (some limit) { now := t, backlog := q, arrivals }
    (s.backlog.receive.1, s.now, s.backlog.receive.2) := by
  have hs : (q.isAwake || (some limit).any (· ≤ t)) = false := by simp [hq, ht]
  unfold takeBy
  simp only [hs, Bool.false_eq_true, if_false]

theorem Upcoming.takeBy_wakes (h : Upcoming t (before ++ a :: later)) (hdue : a.due ≤ limit)
    (hasleep : ∀ l, l <+: before → (q.past l).isAwake = false)
    (hawake : (q.past (before ++ [a])).isAwake = true) :
    Returns a.due (q.past (before ++ [a])) (q.takeBy (some limit) (before ++ a :: later) t) := by
  have hn : (before ++ a :: later).length + 1 = before.length + (later.length + 1 + 1) := by
    rw [List.length_append, List.length_cons, Nat.add_assoc]
  rw [takeBy_waits hq ht, hn, h.wait_wakes (Nat.le_of_lt ht) hdue hasleep hawake]
  exact returns_receive a.due _

theorem Upcoming.takeBy_lapses (h : Upcoming t (before ++ later)) (hbefore : ∀ a ∈ before, a.due ≤ limit)
    (hlater : ∀ a ∈ later, limit < a.due) (hasleep : ∀ l, l <+: before → (q.past l).isAwake = false) :
    Returns limit (q.past before) (q.takeBy (some limit) (before ++ later) t) := by
  have hn : (before ++ later).length + 1 = before.length + (later.length + 1) := by
    rw [List.length_append, Nat.add_assoc]
  rw [takeBy_waits hq ht, hn, h.wait_lapses (Nat.le_of_lt ht) hbefore hlater hasleep]
  exact returns_receive limit _

end

theorem Upcoming.split (h : Upcoming t arrivals) (limit : Instant) :
    (∀ a ∈ arrivals.takeWhile (·.due ≤ limit), a.due ≤ limit) ∧
      ∀ a ∈ arrivals.dropWhile (·.due ≤ limit), limit < a.due := by
  induction arrivals generalizing t with
  | nil => simp
  | cons a arrivals ih =>
    by_cases ha : a.due ≤ limit
    · rw [List.takeWhile_cons_of_pos (by simpa using ha), List.dropWhile_cons_of_pos (by simpa using ha)]
      obtain ⟨htake, hdrop⟩ := ih h.tail
      exact ⟨List.forall_mem_cons.mpr ⟨ha, htake⟩, hdrop⟩
    · rw [List.takeWhile_cons_of_neg (by simpa using ha), List.dropWhile_cons_of_neg (by simpa using ha)]
      refine ⟨by simp, fun b hb => ?_⟩
      have hlt : limit < a.due := Nat.lt_of_not_le ha
      rcases List.mem_cons.mp hb with rfl | hb
      · exact hlt
      · exact Nat.lt_of_lt_of_le hlt ((List.pairwise_cons.mp h.sorted).1 b hb)

/-! ## Calls in a row -/

def takeInTurn (q : Backlog) (t : Instant) : List Duration → List (Option Message × Instant)
  | [] => []
  | w :: ws =>
    let r := q.takeBy (some (t + w)) [] t
    (r.1, r.2.1) :: r.2.2.takeInTurn r.2.1 ws

theorem upcoming_nil (t : Instant) : Upcoming t [] := ⟨by simp, by simp, .nil⟩

/-- Where nothing happens a call that finds nothing comes to nothing at its limit. -/
theorem takeInTurn_asleep (hq : q.isAwake = false) (w : Duration) : q.takeInTurn t [w] = [(none, t + w)] := by
  have hr : Returns (t + w) q (q.takeBy (some (t + w)) [] t) := by
    rcases Nat.eq_zero_or_pos w with rfl | hw
    · exact takeBy_at_once (.inr (Nat.le_refl _))
    · have hlt : t < t + w := Nat.lt_add_of_pos_right hw
      have hnothing : Upcoming t ([] ++ []) := upcoming_nil t
      refine hnothing.takeBy_lapses hq hlt (by simp) (by simp) fun l hl => ?_
      rw [List.prefix_nil.mp hl]
      exact hq
  obtain ⟨hnil, -⟩ := (isAwake_eq_false_iff q).mp hq
  rw [takeInTurn, hr.message, hr.time, hnil]
  rfl

/-- An interrupt outlasts the messages that are queued, ends one call after them, and no other. -/
theorem takeInTurn_interrupted (hi : q.interrupted = true) {ws : List Duration} (hws : ws.length = q.toList.length)
    (w₁ w₂ : Duration) :
    q.takeInTurn t (ws ++ [w₁, w₂]) = q.toList.map (fun m => (some m, t)) ++ [(none, t), (none, t + w₂)] := by
  have hawake : q.isAwake = true := by simp [isAwake, hi]
  induction ws generalizing q with
  | nil =>
    have hr : Returns t q (q.takeBy (some (t + w₁)) [] t) := takeBy_at_once (.inl hawake)
    have hnil : q.toList = [] := List.eq_nil_of_length_eq_zero hws.symm
    have hasleep : (q.takeBy (some (t + w₁)) [] t).2.2.isAwake = false := by
      rw [isAwake_eq_false_iff, hr.contents, hr.interrupted, hr.message, hnil]
      exact ⟨rfl, rfl⟩
    rw [List.nil_append, takeInTurn, hr.time, takeInTurn_asleep hasleep, hr.message, hnil]
    rfl
  | cons w ws ih =>
    have hr : Returns t q (q.takeBy (some (t + w)) [] t) := takeBy_at_once (.inl hawake)
    cases hl : q.toList with
    | nil => simp [hl] at hws
    | cons m rest =>
      have hi' : (q.takeBy (some (t + w)) [] t).2.2.interrupted = true := by
        rw [hr.interrupted, hr.message, hl, hi]
        rfl
      have hrest : (q.takeBy (some (t + w)) [] t).2.2.toList = rest := by rw [hr.contents, hl, List.tail_cons]
      have hws' : ws.length = rest.length := by simpa [hl] using hws
      rw [List.cons_append, takeInTurn, hr.time, ih hi' (hrest ▸ hws') (by simp [isAwake, hi']), hrest,
        hr.message, hl]
      rfl

/-- A call with patience `w` returns at once if there is a message or an interrupt for it, or if it does not
wait at all; else with the first arrival in time that leaves one of them behind, and else at its limit with
none. Arrivals that leave neither make no difference to that. An interrupt is there from the first to the
last of however many there are, whatever else is done to the backlog, and however many messages are queued:
it ends the first call that finds none of them left, and that one only. -/
theorem returns_when_due (w : Duration) (h : Upcoming t arrivals) :
    let r := q.takeBy (some (t + w)) arrivals t
    (q.isAwake = true ∨ w = 0 → Returns t q r) ∧
    (q.isAwake = false → 0 < w →
      (∀ before a later, arrivals = before ++ a :: later → a.due ≤ t + w →
        (∀ l, l <+: before → (q.past l).isAwake = false) → (q.past (before ++ [a])).isAwake = true →
          Returns a.due (q.past (before ++ [a])) r) ∧
      ((∀ l, l <+: arrivals → (∀ a ∈ l, a.due ≤ t + w) → (q.past l).isAwake = false) →
        Returns (t + w) (q.past (arrivals.takeWhile (·.due ≤ t + w))) r ∧ r.1 = none)) ∧
    ∀ changes : List Change,
      (q.after changes).interrupted = (q.interrupted || changes.any Change.isInterrupt) ∧
      ((q.after changes).interrupted = true → ∀ ws w₁ w₂, ws.length = (q.after changes).toList.length →
        (q.after changes).takeInTurn t (ws ++ [w₁, w₂]) =
          (q.after changes).toList.map (fun m => (some m, t)) ++ [(none, t), (none, t + w₂)]) := by
  intro r
  refine ⟨?_, fun hq hw => ?_, fun changes => ⟨interrupted_after q changes, ?_⟩⟩
  · rintro (hq | rfl)
    · exact takeBy_at_once (.inl hq)
    · exact takeBy_at_once (.inr (Nat.le_refl t))
  · have hlt : t < t + w := Nat.lt_add_of_pos_right hw
    constructor
    · rintro before a later rfl hdue hasleep hawake
      exact h.takeBy_wakes hq hlt hdue hasleep hawake
    · intro hasleep
      obtain ⟨htake, hdrop⟩ := h.split (t + w)
      have happ : arrivals.takeWhile (·.due ≤ t + w) ++ arrivals.dropWhile (·.due ≤ t + w) = arrivals :=
        List.takeWhile_append_dropWhile
      have hr : Returns (t + w) (q.past (arrivals.takeWhile (·.due ≤ t + w))) r := by
        have hlapse := Upcoming.takeBy_lapses hq hlt (happ.symm ▸ h) htake hdrop fun l hl =>
          hasleep l (hl.trans (List.takeWhile_prefix _)) fun a ha => htake a (hl.subset ha)
        rwa [happ] at hlapse
      refine ⟨hr, ?_⟩
      have hend := hasleep _ (List.takeWhile_prefix _) htake
      rw [hr.message, ((isAwake_eq_false_iff _).mp hend).1]
      rfl
  · intro hi ws w₁ w₂ hws
    exact takeInTurn_interrupted hi hws w₁ w₂

def feints : List Arrival :=
  [⟨3, .change [.setThreshold 0]⟩, ⟨4, .change [.enqueue ⟨⟨0⟩, "lost"⟩]⟩, ⟨4, .change [.requeue []]⟩]

def earnest : List Arrival := [⟨7, .change [.setThreshold 2, .enqueue ⟨⟨0⟩, "kept"⟩]⟩, ⟨8, .change [.interrupt]⟩]

theorem returns_when_due_feints :
    Upcoming 2 feints ∧ Upcoming 2 (feints ++ earnest) ∧
    (∃ r, (empty 1 .oldest).takeBy (some (2 + 4)) feints 2 = r ∧ r.1 = none ∧ r.2.1 = 6) ∧
    (∃ r, (empty 1 .oldest).takeBy (some (2 + 6)) (feints ++ earnest) 2 = r ∧
      r.1.map (·.text) = some "kept" ∧ r.2.1 = 7) ∧
    ((empty 1 .oldest).after [.interrupt, .enqueue ⟨⟨0⟩, "kept"⟩, .interrupt]).takeInTurn 2 [9, 9, 9] =
      [(some ⟨⟨0⟩, "kept"⟩, 2), (none, 2), (none, 11)] := by
  have h : Upcoming 2 (feints ++ earnest) := by
    refine ⟨fun a ha => ?_, by decide, by decide⟩
    simp only [feints, earnest, List.cons_append, List.nil_append, List.mem_cons, List.not_mem_nil, or_false] at ha
    rcases ha with rfl | rfl | rfl | rfl | rfl <;> exact ⟨_, rfl⟩
  have hf : Upcoming 2 feints := ⟨fun a ha => h.changes a (List.mem_append_left _ ha), by decide, by decide⟩
  have hasleep : ∀ l, l <+: feints → ((empty 1 .oldest).past l).isAwake = false := by
    intro l hl
    simp only [feints, List.prefix_cons_iff, List.prefix_nil] at hl
    rcases hl with rfl | ⟨_, rfl, rfl | ⟨_, rfl, rfl | ⟨_, rfl, rfl⟩⟩⟩ <;> rfl
  obtain ⟨-, hfour, -⟩ := returns_when_due (q := empty 1 .oldest) 4 hf
  obtain ⟨-, hsix, hturns⟩ := returns_when_due (q := empty 1 .oldest) 6 h
  obtain ⟨hlapse, hnone⟩ := (hfour rfl (by decide)).2 fun l hl _ => hasleep l hl
  have hwakes := (hsix rfl (by decide)).1 feints _ _ rfl (by decide) hasleep rfl
  refine ⟨hf, h, ⟨_, rfl, hnone, hlapse.time⟩, ⟨_, rfl, ?_, hwakes.time⟩, (hturns _).2 rfl [9] 9 9 rfl⟩
  rw [hwakes.message]
  rfl

/-- A message comes at the very time of a call that does not wait, and the call comes to nothing. -/
theorem impatient_call_misses :
    Upcoming 0 [⟨0, .change [.enqueue ⟨⟨0⟩, "m"⟩]⟩] ∧ (empty 9 .oldest).isAwake = false ∧
    ((empty 9 .oldest).past [⟨0, .change [.enqueue ⟨⟨0⟩, "m"⟩]⟩]).toList = [⟨⟨0⟩, "m"⟩] ∧
    ∃ q, (empty 9 .oldest).takeBy (some (0 + 0)) [⟨0, .change [.enqueue ⟨⟨0⟩, "m"⟩]⟩] 0 = (none, 0, q) := by
  refine ⟨⟨?_, by decide, by decide⟩, rfl, rfl, _, rfl⟩
  intro a ha
  exact ⟨_, congrArg Arrival.event (List.mem_singleton.mp ha)⟩

end LogRelay.Backlog
