import LogRelay.Proofs.Acceptance
import LogRelay.Proofs.Leading

/-!
# The order of events

A log stream takes the events of a batch in the order of their times. Times are counted in whole milliseconds,
so messages of different times may be of one millisecond; these keep the order of the batch. There is only one
such list, every request that puts the batch carries it, and a request that is accepted is the last.
-/

namespace LogRelay.CloudWatch

/-- The events of a batch in the order of their times, those of one millisecond in the order of the batch. -/
structure IsChronology (batch : List Message) (events : List Event) : Prop where
  perm : events.Perm (batch.map eventOf)
  sorted : events.Pairwise fun a b => a.time ≤ b.time
  stable : ∀ t, (events.filter fun e => e.time = t) = (batch.map eventOf).filter fun e => e.time = t

theorem head_le_of_filter_eq {a b : Event} {l l' : List Event} (h : (a :: l).Pairwise fun a b => a.time ≤ b.time)
    (he : ∀ t, ((a :: l).filter fun e => e.time = t) = (b :: l').filter fun e => e.time = t) : a.time ≤ b.time := by
  have hb : b ∈ (b :: l').filter fun e => e.time = b.time := by simp
  rw [← he, List.mem_filter, List.mem_cons] at hb
  rcases hb.1 with rfl | hb
  · exact Int.le_refl _
  · exact List.rel_of_pairwise_cons h hb

theorem eq_of_filter_eq {l l' : List Event} (h : l.Pairwise fun a b => a.time ≤ b.time)
    (h' : l'.Pairwise fun a b => a.time ≤ b.time)
    (he : ∀ t, (l.filter fun e => e.time = t) = l'.filter fun e => e.time = t) : l = l' := by
  induction l generalizing l' with
  | nil =>
    refine (List.eq_nil_iff_forall_not_mem.mpr fun b hb => ?_).symm
    have hnone := he b.time
    rw [List.filter_nil, eq_comm, List.filter_eq_nil_iff] at hnone
    exact hnone b hb (by simp)
  | cons a l ih =>
    cases l' with
    | nil =>
      have hnone := he a.time
      rw [List.filter_nil, List.filter_eq_nil_iff] at hnone
      exact absurd (by simp) (hnone a List.mem_cons_self)
    | cons b l' =>
      have htime : a.time = b.time :=
        Int.le_antisymm (head_le_of_filter_eq h he) (head_le_of_filter_eq h' fun t => (he t).symm)
      have hcons := he a.time
      rw [List.filter_cons_of_pos (by simp), List.filter_cons_of_pos (by simp [htime]), List.cons.injEq] at hcons
      obtain ⟨rfl, -⟩ := hcons
      have hrest : ∀ t, (l.filter fun e => e.time = t) = l'.filter fun e => e.time = t := by
        intro t
        have ht := he t
        rw [List.filter_cons, List.filter_cons] at ht
        split at ht
        · exact (List.cons.inj ht).2
        · exact ht
      rw [ih h.of_cons h'.of_cons hrest]

theorem IsChronology.unique {batch : List Message} {l l' : List Event} (h : IsChronology batch l)
    (h' : IsChronology batch l') : l = l' :=
  eq_of_filter_eq h.sorted h'.sorted fun t => (h.stable t).trans (h'.stable t).symm

namespace Stream

theorem isChronology_events (batch : List Message) : IsChronology batch (events batch) := by
  have htrans : ∀ a b c : Event, decide (a.time ≤ b.time) → decide (b.time ≤ c.time) → decide (a.time ≤ c.time) := by
    intro a b c hab hbc
    exact decide_eq_true (Int.le_trans (of_decide_eq_true hab) (of_decide_eq_true hbc))
  have htotal : ∀ a b : Event, (decide (a.time ≤ b.time) || decide (b.time ≤ a.time)) = true := by
    intro a b
    simpa using Int.le_total a.time b.time
  have hperm : (events batch).Perm (batch.map eventOf) := List.mergeSort_perm _ _
  refine ⟨hperm, (List.pairwise_mergeSort htrans htotal _).imp of_decide_eq_true, fun t => ?_⟩
  -- the events of one time are in order as they stand in the batch, and sorting keeps such a part of it
  have hpart : ((batch.map eventOf).filter fun e => e.time = t).Pairwise fun a b => decide (a.time ≤ b.time) := by
    refine List.pairwise_of_forall_mem_list fun a ha b hb => ?_
    simp only [List.mem_filter, decide_eq_true_eq] at ha hb
    exact decide_eq_true (Int.le_of_eq (ha.2.trans hb.2.symm))
  have hsub : ((batch.map eventOf).filter fun e => e.time = t).Sublist (events batch) :=
    List.sublist_mergeSort htrans htotal hpart List.filter_sublist
  have hsub' := hsub.filter fun e => decide (e.time = t)
  simp only [List.filter_filter, Bool.and_self] at hsub'
  exact (hsub'.eq_of_length (hperm.filter _).length_eq.symm).symm

/-- Three quarters of a millisecond on either side of 1970 are the same time. -/
example : events [⟨⟨2000000⟩, "b"⟩, ⟨⟨750000⟩, "c"⟩, ⟨⟨-1500000⟩, "a"⟩, ⟨⟨-750000⟩, "d"⟩] =
    [⟨-1, "a"⟩, ⟨0, "c"⟩, ⟨0, "d"⟩, ⟨2, "b"⟩] := by cbv

/-! ## What a batch asks for -/

def Puts (s : Stream) (events : List Event) : Request → Prop
  | .putEvents put => put.group = s.group ∧ put.stream = s.stream ∧ put.events = events
  | _ => True

def IsFinal : Call api → Prop
  | ⟨.putEvents _, reply⟩ => isAccepted reply = true
  | _ => False

structure Sends {α : Type} (s : Stream) (events : List Event) (p : Plan api α) : Prop where
  asks : p.Asks (s.Puts events)
  stops : p.StopsAt IsFinal

variable {s : Stream} {batch : List Message} {l : List Event} {α β : Type}

theorem puts_of_isOther {r : Request} (h : r.IsOther) : s.Puts l r := by
  cases r with
  | putEvents put => cases h
  | _ => trivial

theorem not_isFinal_of_isOther {r : Request} (h : r.IsOther) (x : r.Reply) : ¬ IsFinal ⟨r, x⟩ := by
  cases r with
  | putEvents put => cases h
  | _ => exact id

theorem sends_of_isOther {p : Plan api α} (h : p.Asks Request.IsOther) : s.Sends l p :=
  ⟨h.mono fun _ => puts_of_isOther, Plan.stopsAt_of_asks (h.mono fun _ => not_isFinal_of_isOther)⟩

theorem Sends.bind {p : Plan api α} {f : α → Plan api β} (hp : s.Sends l p) (hf : ∀ a, s.Sends l (f a))
    (hstop : ∀ log a, p.Ends log a → (∃ c ∈ log, IsFinal c) → (f a).Asks fun _ => False) : s.Sends l (p >>= f) :=
  ⟨Plan.asks_bind hp.asks fun a => (hf a).asks, Plan.stopsAt_bind hp.stops (fun a => (hf a).stops) hstop⟩

theorem sends_bind_of_isOther {p : Plan api α} {f : α → Plan api β} (hp : p.Asks Request.IsOther)
    (hf : ∀ a, s.Sends l (f a)) : s.Sends l (p >>= f) := by
  refine (sends_of_isOther hp).bind hf fun log a ha ⟨c, hc, hfin⟩ => ?_
  exact absurd hfin (not_isFinal_of_isOther (hp.of_ends ha c hc) c.reply)

theorem asks_recover (count : Nat) (f : Fault) : (s.recover count f).Asks Request.IsOther :=
  Plan.asks_bind (Plan.asks_log _) fun _ => Plan.asks_bind (Plan.asks_memorize _) fun _ =>
    Plan.asks_bind asks_makeAvailable fun _ => Plan.asks_pure _

theorem asks_accepted {P : Request → Prop} (reply : PutReply) : (accepted reply).Asks P := by
  unfold accepted
  dsimp only
  split
  · refine Plan.asks_bind (Plan.asks_memorize _) fun _ => ?_
    split
    · exact Plan.asks_bind (asks_reportRejected _) fun _ => Plan.asks_pure _
    · exact Plan.asks_pure _
  · split
    · exact Plan.asks_bind (asks_reportRejected _) fun _ => Plan.asks_pure _
    · exact Plan.asks_pure _

/-- What follows a put does not put, and nothing follows it when the events were accepted. -/
theorem put_eq (s : Stream) (l : List Event) :
    ∃ f : Option String → Except Fault PutReply → Plan api (Patience.Try Fault PutReply),
      s.put l = (do
        let token ← Plan.memory
        f token (← ask (.putEvents ⟨s.group, s.stream, token, l⟩))) ∧
      (∀ token x, (f token x).Asks Request.IsOther) ∧
      ∀ token x, isAccepted x = true → ∃ reply, f token x = pure (.ok (some reply)) := by
  refine ⟨_, rfl, fun token x => ?_, fun token x hx => ?_⟩
  · split
    · exact Plan.asks_pure _
    · split
      · exact Plan.asks_pure _
      · refine Plan.asks_bind asks_fetchToken fun r => ?_
        cases r <;> exact Plan.asks_bind (Plan.asks_memorize _) fun _ => Plan.asks_pure _
      · exact Plan.asks_pure _
  · cases x with
    | ok reply => exact ⟨reply, rfl⟩
    | error f =>
      have hk : f.kind = .dataAlreadyAccepted := of_decide_eq_true hx
      refine ⟨{}, ?_⟩
      dsimp only
      rw [hk]

theorem sends_put : s.Sends l (s.put l) := by
  obtain ⟨f, hput, hother, hquiet⟩ := put_eq s l
  rw [hput]
  refine sends_bind_of_isOther Plan.asks_memory fun token => ?_
  have hrequest : s.Sends l (ask (.putEvents ⟨s.group, s.stream, token, l⟩)) :=
    ⟨Plan.asks_request ⟨rfl, rfl, rfl⟩, Plan.stopsAt_request _⟩
  refine hrequest.bind (fun x => sends_of_isOther (hother token x)) fun log x hx hfin => ?_
  obtain rfl := Plan.ends_request.mp hx
  obtain ⟨c, hc, hfin⟩ := hfin
  obtain rfl := List.mem_singleton.mp hc
  obtain ⟨reply, hf⟩ := hquiet token x hfin
  rw [hf]
  exact Plan.asks_pure _

theorem ready_of_final {log : List (Call api)} {r : Patience.Try Fault PutReply} (h : (s.put l).Ends log r)
    (hfin : ∃ c ∈ log, IsFinal c) : ∃ reply, r = .ok (some reply) := by
  obtain ⟨f, hput, hother, hquiet⟩ := put_eq s l
  rw [hput] at h
  obtain ⟨token, -, h⟩ := Plan.ends_bind_of_quiet Plan.asks_memory h
  obtain ⟨_, l₂, x, rfl, hx, hf⟩ := Plan.ends_bind.mp h
  obtain rfl := Plan.ends_request.mp hx
  obtain ⟨c, hc, hfin⟩ := hfin
  rw [List.singleton_append, List.mem_cons] at hc
  rcases hc with rfl | hc
  · obtain ⟨reply, he⟩ := hquiet token x hfin
    rw [he] at hf
    exact ⟨reply, (Plan.ends_pure.mp hf).2⟩
  · exact absurd hfin (not_isFinal_of_isOther ((hother token x).of_ends hf c hc) c.reply)

/-- The try that puts events which are accepted is the last, and there is nothing to do after it. -/
theorem sends_sendEvents : s.Sends (events batch) (s.sendEvents batch) := by
  have hput : s.Sends (events batch) (s.put (events batch)) := sends_put
  have hready : ∀ log r, (s.put (events batch)).Ends log r → (∃ c ∈ log, IsFinal c) → r ≠ .ok none := by
    intro log r hr hfin
    obtain ⟨reply, rfl⟩ := ready_of_final hr hfin
    simp
  have htries : s.Sends (events batch) (s.sending.invoke (s.put (events batch))) :=
    ⟨Plan.asks_invoke _ hput.asks, Plan.stopsAt_invoke hready hput.stops⟩
  refine htries.bind (fun r => sends_of_isOther ?_) fun log r hr hfin => ?_
  · split
    · exact asks_accepted _
    · exact Plan.asks_pure _
    · split
      · exact asks_recover _ _
      · exact Plan.asks_pure _
  · obtain ⟨last, hlast, hfin⟩ := (Plan.ends_invoke hr).ends_of_final hready hfin
    obtain ⟨reply, rfl⟩ := ready_of_final hlast hfin
    exact asks_accepted _

theorem sends_sendAfresh : s.Sends (events batch) (s.sendAfresh batch) := by
  refine sends_bind_of_isOther asks_fetchToken fun r => ?_
  split
  · exact sends_bind_of_isOther (Plan.asks_memorize _) fun _ => sends_sendEvents
  · split
    · exact sends_of_isOther (asks_recover _ _)
    · split
      · exact sends_bind_of_isOther (Plan.asks_memorize _) fun _ => sends_sendEvents
      · exact sends_of_isOther (Plan.asks_pure _)

theorem sends_send : s.Sends (events batch) (s.send batch) := by
  unfold send
  split
  · exact sends_of_isOther (Plan.asks_pure _)
  · refine sends_bind_of_isOther Plan.asks_memory fun token => ?_
    split
    · exact sends_sendEvents
    · exact sends_sendAfresh

/-- Whatever the service, the clock and the memory do while a batch is sent, there is one list of the events of
the batch in the order of their times, and every request that puts events carries it, a token apart. The
request whose events are accepted, now or before, is the last of all, so there is one such at most. -/
theorem puts_chronological {W : Type} (s : Stream) (g : Ground api W) (w : W) (batch : List Message) :
    ∃ events, IsChronology batch events ∧ (∀ other, IsChronology batch other → other = events) ∧
      (∀ v put, (v, .putEvents put) ∈ ((destination s).send batch).calls g w →
        put.group = s.group ∧ put.stream = s.stream ∧ put.events = events) ∧
      ∀ before v put after reply v',
        ((destination s).send batch).calls g w = before ++ (v, .putEvents put) :: after →
        g.call (.putEvents put) v = (.ok reply, v') → isAccepted reply = true → after = [] := by
  refine ⟨Stream.events batch, isChronology_events batch, fun other h => h.unique (isChronology_events batch),
    fun v put hc => ?_, fun before v put after reply v' hc hr hx => ?_⟩
  · exact sends_send.asks.of_calls _ hc
  · exact sends_send.stops.of_calls hc hr hx

def fickle : Ground api Nat where
  now _ := 0
  elapse _ n := n
  note _ n := n
  consult _ := none
  remember _ n := n
  draw n := (0, n)
  call
    | .putEvents _, 0 => (.ok (.error { kind := .throttled, message := "slow down" }), 1)
    | .putEvents _, 1 => (.ok (.error { kind := .invalidSequenceToken, message := "stale" }), 2)
    | .putEvents _, n => (.ok (.ok {}), n + 1)
    | .describeStream _ _, n => (.ok (.ok (some (some "t"))), n)
    | _, n => (.error { payload := none }, n)

def patientStream : Stream where
  settings := { logGroup := "g", logStream := "s" }
  setup := { initialDelay := 1, timeout := 5, exponential := false }
  sending := { initialDelay := 1, timeout := 5, exponential := false }

/-- Three requests put the same events, two of them in vain. -/
example : (patientStream.send [⟨⟨750000⟩, "b"⟩, ⟨⟨-750000⟩, "c"⟩, ⟨⟨-1500000⟩, "a"⟩]).calls fickle 0 =
    let put : Request := .putEvents ⟨"g", "s", none, [⟨-1, "a"⟩, ⟨0, "b"⟩, ⟨0, "c"⟩]⟩
    [(0, .describeStream "g" "s"), (0, put), (1, put), (2, .describeStream "g" "s"), (2, put)] := by
  cbv

end Stream

end LogRelay.CloudWatch
