import LogRelay.Proofs.Moves

/-!
# The events of a writer's life

A writer is called by the application, goes on by itself, and takes in what becomes of its requests
to the destination. Calls may come in any phase of an asynchronous writer. A synchronous one works
for the caller it has: a call that would set it to work finds it at rest. While it is being made
ready or stopped it only queues the messages it gets, and its settings may change at any time.
-/

namespace LogRelay

inductive Event
  | add (m : Message)
  | stop
  | setBatchDelay (d : Duration)
  | setThreshold (n : Nat)
  | setAction (a : DiscardAction)
  /-- What is kept of the panic that ended the writer is changed. -/
  | setFailure (e : Option Failure)
  | start
  /-- The writer goes on by itself. -/
  | go
  | checked (result : Except Panic (Except Failure Unit))
  | sent (result : Except Panic (Except Failure (List Nat)))
  | closed (result : Except Panic Unit)

def Event.IsCall : Event → Prop
  | .stop | .setBatchDelay _ | .setThreshold _ | .setAction _ | .setFailure _ | .start => True
  | _ => False

namespace Writer

def isEngaged (w : Writer) : Bool :=
  w.synchronous && match w.phase with
    | .idle | .unwound _ => false
    | _ => true

def respond (μ : Measure) (now : Instant) (w : Writer) : Event → Option (Writer × List Notice)
  | .add m => if w.isEngaged && w.initialized && !w.isStopped then none else some (w.add m now)
  | .stop => if w.isEngaged && !w.isStopped then none else some (w.stop now)
  | .start => some (w.start, [])
  | .setBatchDelay d => some (w.setBatchDelay d, [])
  | .setThreshold n => some (w.setThreshold n, [])
  | .setAction a => some (w.setAction a, [])
  | .setFailure e => some ({ w with failure := e }, [])
  | .go => match w.next μ now with
    | .go w' notices => some (w', notices)
    | _ => none
  | .checked result => match w.next μ now with
    | .makeAvailable => some (w.checked result)
    | _ => none
  | .sent result => match w.next μ now with
    | .send batch last => some (w.sent batch last result)
    | _ => none
  | .closed result => match w.next μ now with
    | .shutdown => some (w.closed result)
    | _ => none

/-- The message that is queued for one that is added, if any is. -/
def admitted? (w : Writer) (m : Message) : Option Message :=
  if m.size = 0 then none
  else if m.size ≤ w.maxMessageSize then some m
  else if w.truncateOversize then some (m.truncate w.maxMessageSize)
  else none

theorem isBare_of_not_isEngaged {w : Writer} (h : ¬ w.isEngaged = true) (hs : w.synchronous = true) :
    w.isBare = true := by
  unfold isEngaged at h
  unfold isBare
  rw [hs, Bool.true_and] at h
  cases hp : w.phase <;> simp [hp] at h ⊢

/-! ## Calls -/

structure Keeps (w : Writer) (r : Writer × List Notice) : Prop where
  make : SameMake w r.1
  phase : r.1.phase = w.phase ∨ w.isBare = true ∧ r.1.isBare = true
  delivered : Notice.deliveredIn r.2 = 0

theorem Keeps.held {w : Writer} {r : Writer × List Notice} (h : Keeps w r) : r.1.held = w.held := by
  rcases h.phase with hp | ⟨hb, hb'⟩
  · unfold Writer.held; rw [hp]
  · rw [held_of_isBare hb, held_of_isBare hb']

theorem Keeps.refl (w : Writer) : Keeps w (w, []) := ⟨.refl w, Or.inl rfl, rfl⟩

theorem LetsGo.keeps {w : Writer} {r : Writer × List Notice} (h : LetsGo w r) (hb : w.isBare = true) :
    Keeps w r := ⟨h.make, Or.inr ⟨hb, h.bare⟩, h.delivered⟩

theorem queue_keeps {w : Writer} (h : ¬ (w.isEngaged && w.initialized && !w.isStopped) = true) (m : Message)
    (now : Instant) : Keeps w (w.queue m now, []) := by
  unfold queue
  dsimp only
  split
  · rename_i hc
    simp only [Bool.and_eq_true] at hc h
    have he : ¬ w.isEngaged = true := fun he => h ⟨⟨he, hc.1.2⟩, hc.2⟩
    exact ⟨⟨rfl, rfl, rfl⟩, Or.inr ⟨isBare_of_not_isEngaged he hc.1.1, rfl⟩, rfl⟩
  · exact ⟨⟨rfl, rfl, rfl⟩, Or.inl rfl, rfl⟩

theorem queue_backlog (w : Writer) (m : Message) (now : Instant) :
    (w.queue m now).backlog = w.backlog.enqueue m := by
  unfold queue
  dsimp only
  split <;> rfl

theorem add_fst (w : Writer) (m : Message) (now : Instant) :
    (w.add m now).1 = match w.admitted? m with
      | some m => w.queue m now
      | none => w := by
  unfold add admitted?
  split
  · rfl
  · split
    · rfl
    · split <;> rfl

theorem add_delivered (w : Writer) (m : Message) (now : Instant) :
    Notice.deliveredIn (w.add m now).2 = 0 := by
  unfold add
  repeat' split
  all_goals rfl

theorem stop_keeps {w : Writer} (h : ¬ (w.isEngaged && !w.isStopped) = true) (now : Instant) :
    Keeps w (w.stop now) ∧ (w.stop now).1.backlog.toList = w.backlog.toList := by
  unfold stop
  split
  · exact ⟨.refl w, rfl⟩
  · rename_i hd
    dsimp only
    split
    · exact ⟨⟨⟨rfl, rfl, rfl⟩, Or.inl rfl, rfl⟩, rfl⟩
    · rename_i hs
      have he : ¬ w.isEngaged = true := fun he => h (by simp [he, hd])
      have hb : w.isBare = true := isBare_of_not_isEngaged he (by simpa using hs)
      split <;> exact ⟨⟨⟨rfl, rfl, rfl⟩, Or.inr ⟨hb, rfl⟩, rfl⟩, rfl⟩

theorem start_keeps (w : Writer) : Keeps w (w.start, []) ∧ w.start.backlog = w.backlog := by
  unfold start
  split
  · rename_i hp
    exact ⟨⟨⟨rfl, rfl, rfl⟩, Or.inr ⟨by simp [isBare, hp], rfl⟩, rfl⟩, rfl⟩
  · exact ⟨.refl w, rfl⟩

/-! ## Answers -/

theorem next_makeAvailable {μ : Measure} {now : Instant} {w : Writer} (h : w.next μ now = .makeAvailable) :
    w.phase = .checking := by
  unfold next begin collect at h
  repeat' split at h
  all_goals first | assumption | cases h

theorem next_send {μ : Measure} {now : Instant} {w : Writer} {batch : List Message} {last : Bool}
    (h : w.next μ now = .send batch last) : w.phase = .sending batch last := by
  unfold next begin collect at h
  repeat' split at h
  all_goals cases h
  assumption

theorem next_shutdown {μ : Measure} {now : Instant} {w : Writer} (h : w.next μ now = .shutdown) :
    w.phase = .closing := by
  unfold next begin collect at h
  repeat' split at h
  all_goals first | assumption | cases h

structure Clears (w : Writer) (r : Writer × List Notice) : Prop where
  make : SameMake w r.1
  backlog : r.1.backlog.toList = []
  bare : r.1.isBare = true
  delivered : Notice.deliveredIn r.2 = 0

theorem checked_clears (w : Writer) (e : Failure) : Clears w (w.checked (.ok (.error e))) := by
  unfold checked
  dsimp only
  cases hs : w.synchronous <;> exact ⟨⟨rfl, rfl, hs.symm⟩, rfl, rfl, rfl⟩

theorem checked_keeps {w : Writer} (hb : w.isBare = true) {result : Except Panic (Except Failure Unit)}
    (hr : ∀ e, result ≠ .ok (.error e)) :
    Keeps w (w.checked result) ∧ (w.checked result).1.backlog = w.backlog := by
  unfold checked
  dsimp only
  split
  · cases hs : w.synchronous <;> exact ⟨⟨⟨rfl, rfl, hs.symm⟩, Or.inr ⟨hb, rfl⟩, rfl⟩, rfl⟩
  · rename_i e; exact absurd rfl (hr e)
  · exact ⟨⟨⟨rfl, rfl, rfl⟩, Or.inr ⟨hb, rfl⟩, rfl⟩, rfl⟩

structure Settles (w : Writer) (back : List Message) (delivered : Nat) (r : Writer × List Notice) : Prop where
  make : SameMake w r.1
  backlog : r.1.backlog.toList = back ++ w.backlog.toList
  bare : r.1.isBare = true
  delivered : Notice.deliveredIn r.2 = delivered

theorem settles_of_turn (w : Writer) (back : List Message) (progressed last : Bool) (n : Notice) :
    let r := { w with backlog := w.backlog.requeue back }.turn progressed last
    Settles w back n.delivered (r.1, n :: r.2) := by
  intro r
  have hm : SameMake w { w with backlog := w.backlog.requeue back } := ⟨rfl, rfl, rfl⟩
  have h : LetsGo { w with backlog := w.backlog.requeue back } r := turn_letsGo progressed last _
  refine ⟨hm.trans h.make, ?_, h.bare, ?_⟩
  · change r.1.backlog.toList = _
    rw [h.backlog]
    exact Backlog.toList_requeue w.backlog back
  · change n.delivered + Notice.deliveredIn r.2 = n.delivered
    rw [h.delivered, Nat.add_zero]

theorem sent_ok (w : Writer) (batch : List Message) (last : Bool) (failed : List Nat) :
    Settles w (retained failed batch) (batch.length - (retained failed batch).length)
      (w.sent batch last (.ok (.ok failed))) :=
  settles_of_turn w (retained failed batch) _ last (.sent _ _)

theorem refused_settles (w : Writer) (batch : List Message) (last : Bool) (e : Failure) :
    Settles w batch 0 (sent.refused batch last w e) :=
  settles_of_turn w batch false last (.refused batch.length e)

theorem sent_not_ok (w : Writer) (batch : List Message) (last : Bool)
    {result : Except Panic (Except Failure (List Nat))} (hr : ∀ failed, result ≠ .ok (.ok failed)) :
    Settles w batch 0 (w.sent batch last result) := by
  unfold sent
  split
  · rename_i failed; exact absurd rfl (hr failed)
  · exact refused_settles w batch last _
  · exact refused_settles w batch last _

theorem closed_keeps {w : Writer} (hb : w.isBare = true) (result : Except Panic Unit) :
    Keeps w (w.closed result) ∧ (w.closed result).1.backlog = w.backlog := by
  unfold closed
  split
  · exact ⟨⟨⟨rfl, rfl, rfl⟩, Or.inr ⟨hb, rfl⟩, rfl⟩, rfl⟩
  · rename_i p
    have h := panicked_letsGo p w
    exact ⟨h.keeps hb, h.backlog⟩

/-! ## All events -/

inductive Change (μ : Measure) (now : Instant) (w : Writer) (r : Writer × List Notice) : Event → Prop
  | ignore {m} (hm : w.admitted? m = none) (hk : Keeps w r) (hq : r.1.backlog = w.backlog) :
    Change μ now w r (.add m)
  | enqueue {m m'} (hm : w.admitted? m = some m') (hk : Keeps w r) (hq : r.1.backlog = w.backlog.enqueue m') :
    Change μ now w r (.add m)
  | call {e} (he : e.IsCall) (hk : Keeps w r) (hq : r.1.backlog.toList = w.backlog.toList) : Change μ now w r e
  | go (hm : w.Move μ now r) : Change μ now w r .go
  | clear {e} (hb : w.isBare = true) (hc : Clears w r) : Change μ now w r (.checked (.ok (.error e)))
  | check {result} (hr : ∀ e, result ≠ .ok (.error e)) (hk : Keeps w r) (hq : r.1.backlog = w.backlog) :
    Change μ now w r (.checked result)
  | settle {batch last failed} (hp : w.phase = .sending batch last)
      (hs : Settles w (retained failed batch) (batch.length - (retained failed batch).length) r) :
    Change μ now w r (.sent (.ok (.ok failed)))
  | giveBack {batch last result} (hp : w.phase = .sending batch last) (hr : ∀ failed, result ≠ .ok (.ok failed))
      (hs : Settles w batch 0 r) :
    Change μ now w r (.sent result)
  | close {result} (hk : Keeps w r) (hq : r.1.backlog = w.backlog) : Change μ now w r (.closed result)

theorem change_of_add {μ : Measure} {now : Instant} {w : Writer} {m : Message}
    (h : ¬ (w.isEngaged && w.initialized && !w.isStopped) = true) : Change μ now w (w.add m now) (.add m) := by
  have hf := add_fst w m now
  have hd := add_delivered w m now
  cases ha : w.admitted? m with
  | none =>
    rw [ha] at hf
    exact .ignore ha ⟨by rw [hf]; exact .refl w, Or.inl (by rw [hf]), hd⟩ (by rw [hf])
  | some m' =>
    rw [ha] at hf
    have hk := queue_keeps h m' now
    exact .enqueue ha ⟨by rw [hf]; exact hk.make, by rw [hf]; exact hk.phase, hd⟩
      (by rw [hf]; exact queue_backlog w m' now)

theorem change_of_respond {μ : Measure} {now : Instant} {w : Writer} {e : Event} {r : Writer × List Notice}
    (h : w.respond μ now e = some r) : Change μ now w r e := by
  cases e with
  | add m =>
    simp only [respond] at h
    split at h
    · cases h
    · rename_i he; cases h; exact change_of_add he
  | stop =>
    simp only [respond] at h
    split at h
    · cases h
    · rename_i he
      cases h
      obtain ⟨hk, hq⟩ := stop_keeps he now
      exact .call trivial hk hq
  | start =>
    cases h
    obtain ⟨hk, hq⟩ := start_keeps w
    exact .call trivial hk (by rw [hq])
  | setBatchDelay d => cases h; exact .call trivial ⟨⟨rfl, rfl, rfl⟩, Or.inl rfl, rfl⟩ rfl
  | setThreshold n => cases h; exact .call trivial ⟨⟨rfl, rfl, rfl⟩, Or.inl rfl, rfl⟩ rfl
  | setAction a => cases h; exact .call trivial ⟨⟨rfl, rfl, rfl⟩, Or.inl rfl, rfl⟩ rfl
  | setFailure e => cases h; exact .call trivial ⟨⟨rfl, rfl, rfl⟩, Or.inl rfl, rfl⟩ rfl
  | go =>
    simp only [respond] at h
    split at h
    · rename_i hn; cases h; exact .go (move_of_next hn)
    · cases h
  | checked result =>
    simp only [respond] at h
    split at h
    · rename_i hn
      cases h
      have hb : w.isBare = true := by simp [isBare, next_makeAvailable hn]
      by_cases hr : ∃ e, result = .ok (.error e)
      · obtain ⟨e, rfl⟩ := hr
        exact .clear hb (checked_clears w e)
      · have hr : ∀ e, result ≠ .ok (.error e) := fun e he => hr ⟨e, he⟩
        obtain ⟨hk, hq⟩ := checked_keeps hb hr
        exact .check hr hk hq
    · cases h
  | sent result =>
    simp only [respond] at h
    split at h
    · rename_i batch last hn
      cases h
      have hp := next_send hn
      by_cases hr : ∃ failed, result = .ok (.ok failed)
      · obtain ⟨failed, rfl⟩ := hr
        exact .settle hp (sent_ok w batch last failed)
      · have hr : ∀ failed, result ≠ .ok (.ok failed) := fun failed he => hr ⟨failed, he⟩
        exact .giveBack hp hr (sent_not_ok w batch last hr)
    · cases h
  | closed result =>
    simp only [respond] at h
    split at h
    · rename_i hn
      cases h
      have hb : w.isBare = true := by simp [isBare, next_shutdown hn]
      obtain ⟨hk, hq⟩ := closed_keeps hb result
      exact .close hk hq
    · cases h

theorem Change.make {μ : Measure} {now : Instant} {w : Writer} {r : Writer × List Notice} {e : Event}
    (h : Change μ now w r e) : SameMake w r.1 := by
  cases h with
  | ignore _ hk _ => exact hk.make
  | enqueue _ hk _ => exact hk.make
  | call _ hk _ => exact hk.make
  | go hm => exact hm.advances.make
  | clear _ hc => exact hc.make
  | check _ hk _ => exact hk.make
  | settle _ hs => exact hs.make
  | giveBack _ _ hs => exact hs.make
  | close hk _ => exact hk.make

end Writer

def Event.admitted? (w : Writer) : Event → Option Message
  | .add m => w.admitted? m
  | _ => none

theorem Writer.SameMake.admitted? {w w' : Writer} (h : w.SameMake w') (e : Event) :
    e.admitted? w' = e.admitted? w := by
  unfold Event.admitted? Writer.admitted?
  rw [h.maxMessageSize, h.truncateOversize]

end LogRelay
