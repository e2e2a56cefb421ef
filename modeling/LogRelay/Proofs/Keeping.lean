import LogRelay.Proofs.Leading
import LogRelay.Delivery.CloudWatch

/-!
# Keeping the token of a stream

A stream has one token, and a batch is accepted only with that token, which it replaces. The destination
keeps the token in memory between its requests; the stream may be deleted at any time. Step by step
through its plans it is shown here that while the stream exists, what is in memory is nothing or the
current token before a plan and after it, and the current token whenever a batch is put.
-/

namespace LogRelay.CloudWatch

open Plan (Leads)

variable {W : Type}

/-- A stream that is there may be deleted; nobody else creates it or writes to it. A stream is seen as
its token, and as nothing when it is missing. -/
def Fades (before after : Option (Option String)) : Prop := after = before ∨ after = none

def Meanwhile (g : Ground api W) (view : W → Option (Option String)) (w w' : W) : Prop :=
  g.consult w' = g.consult w ∧ Fades (view w) (view w')

def Request.isPassive : Request → Bool
  | createStream _ _ | putEvents _ => false
  | _ => true

/-- A service that keeps one token for the stream, which `view` shows, on a ground where nobody else
writes to the stream. -/
structure Keeper (s : Stream) (g : Ground api W) (view : W → Option (Option String)) : Prop where
  consult_remember : ∀ m w, g.consult (g.remember m w) = m
  view_remember : ∀ m w, Fades (view w) (view (g.remember m w))
  elapse : ∀ d w, Meanwhile g view w (g.elapse d w)
  note : ∀ e w, Meanwhile g view w (g.note e w)
  consult_call : ∀ r w, g.consult (g.call r w).2 = g.consult w
  passive : ∀ r w, r.isPassive = true → Fades (view w) (view (g.call r w).2)
  /-- Asking for the token never fails. -/
  describes : ∀ w, (g.call (.describeStream s.group s.stream) w).1 = .ok (.ok (view w))
  /-- A missing stream comes into being only when its creation succeeds. -/
  creates : ∀ w, view w = none → view (g.call (.createStream s.group s.stream) w).2 = none ∨
    (g.call (.createStream s.group s.stream) w).1 = .ok (.ok ())
  /-- A batch is accepted only with the current token, and replaces it. -/
  accepts : ∀ p w reply w', p.group = s.group → p.stream = s.stream →
    g.call (.putEvents p) w = (.ok (.ok reply), w') →
    view w = some p.token ∧ ∃ t, reply.nextToken = some t ∧ Fades (some (some t)) (view w')
  /-- A batch that is not accepted has no effect, whatever the reason. -/
  refuses : ∀ p w, p.group = s.group → p.stream = s.stream →
    (∀ reply, (g.call (.putEvents p) w).1 ≠ .ok (.ok reply)) → Fades (view w) (view (g.call (.putEvents p) w).2)
  /-- A token is called invalid only when the stream has another one. -/
  blames : ∀ p w f, p.group = s.group → p.stream = s.stream →
    (g.call (.putEvents p) w).1 = .ok (.error f) → f.kind = .invalidSequenceToken →
    ∃ token, view w = some token ∧ p.token ≠ token

def IsCurrent (g : Ground api W) (view : W → Option (Option String)) (w : W) : Prop :=
  ∀ token, view w = some token → g.consult w = token

/-- There is no token in memory, or it is that of the stream, if there is one. -/
def NotStale (g : Ground api W) (view : W → Option (Option String)) (w : W) : Prop :=
  ∀ token, view w = some token → g.consult w = none ∨ g.consult w = token

def Presents (s : Stream) (view : W → Option (Option String)) (w : W) : Request → Prop
  | .putEvents p => p.group = s.group ∧ p.stream = s.stream ∧ ∀ token, view w = some token → p.token = token
  | _ => True

/-- From `w` the plan presents the token of the stream only, and ends as `Q` says. If a panic breaks it
off there is nothing stale in memory either, unless it is that the clock has come to its end: then it may
be that a stream has been created and not been looked at yet. -/
abbrev Safe {α : Type} (s : Stream) (g : Ground api W) (view : W → Option (Option String)) (p : Plan api α)
    (Q : α → W → Prop) (w : W) : Prop :=
  Leads g (Presents s view) (fun v => NotStale g view v ∨ ¬s.setup.Fits (g.now v)) p Q w

def Kept {β : Type} (g : Ground api W) (view : W → Option (Option String)) : Except Failure β → W → Prop
  | .ok _, w => IsCurrent g view w
  | .error _, w => NotStale g view w

variable {s : Stream} {g : Ground api W} {view : W → Option (Option String)} {w w' : W}

theorem Safe.notStale {α : Type} {p : Plan api α} {Q : α → W → Prop} (h : Safe s g view p Q w)
    (hQ : ∀ a v, Q a v → NotStale g view v)
    (hclock : (∃ q, (p.run g w).1 = .error q) → s.setup.Fits (g.now (p.run g w).2)) :
    NotStale g view (p.run g w).2 := by
  cases hr : p.run g w with
  | mk result v =>
    rw [hr] at hclock
    cases result with
    | ok a => exact hQ a v (h.ends a v hr)
    | error q => exact (h.breaks q v hr).resolve_right (not_not_intro (hclock ⟨q, rfl⟩))

/-! ## Between requests -/

theorem Fades.eq_of_some {before after : Option (Option String)} (h : Fades before after) {token : Option String}
    (ht : after = some token) : before = some token := by
  rcases h with h | h
  · rw [← h, ht]
  · rw [h] at ht
    cases ht

theorem Fades.missing {before after : Option (Option String)} (h : Fades before after) (hb : before = none) :
    after = none := by
  rcases h with h | h
  · rw [h, hb]
  · exact h

theorem IsCurrent.notStale (h : IsCurrent g view w) : NotStale g view w := fun token ht => .inr (h token ht)

theorem isCurrent_of_missing (h : view w = none) : IsCurrent g view w := by
  intro token ht
  rw [h] at ht
  cases ht

theorem notStale_of_forgotten (h : g.consult w = none) : NotStale g view w := fun _ _ => .inl h

theorem IsCurrent.meanwhile (h : IsCurrent g view w) (hm : Meanwhile g view w w') : IsCurrent g view w' := by
  intro token ht
  rw [hm.1]
  exact h token (hm.2.eq_of_some ht)

theorem NotStale.meanwhile (h : NotStale g view w) (hm : Meanwhile g view w w') : NotStale g view w' := by
  intro token ht
  rw [hm.1]
  exact h token (hm.2.eq_of_some ht)

theorem NotStale.isCurrent (h : NotStale g view w) (hs : (g.consult w).isSome = true) : IsCurrent g view w := by
  intro token ht
  rcases h token ht with hc | hc
  · rw [hc] at hs
    cases hs
  · exact hc

theorem Kept.notStale {β : Type} {r : Except Failure β} (h : Kept g view r w) : NotStale g view w := by
  cases r with
  | ok a => exact IsCurrent.notStale h
  | error e => exact h

theorem Kept.mapError {β : Type} {r : Except Failure β} {f : Failure → Failure} (h : Kept g view r w) :
    Kept g view (r.mapError f) w := by
  cases r <;> exact h

theorem Kept.map {β γ : Type} {r : Except Failure β} {f : β → γ} (h : Kept g view r w) :
    Kept g view (r.map f) w := by
  cases r <;> exact h

section
variable (hk : Keeper s g view)
include hk

theorem Keeper.meanwhile_passive {r : Request} (hr : r.isPassive = true) : Meanwhile g view w (g.call r w).2 :=
  ⟨hk.consult_call r w, hk.passive r w hr⟩

/-- What the service has just said of the stream is remembered rightly. -/
theorem Keeper.isCurrent_remember {token : Option String} (h : Fades (some token) (view w)) :
    IsCurrent g view (g.remember token w) := by
  intro t ht
  rw [hk.consult_remember]
  have hs : some token = some t := h.eq_of_some ((hk.view_remember token w).eq_of_some ht)
  exact Option.some.inj hs

/-! ## Setting up -/

theorem safe_passive {β : Type} {r : Request} {f : r.Reply → β} (hr : r.isPassive = true)
    (h : NotStale g view w) :
    Safe s g view (do return f (← ask r)) (fun _ => NotStale g view) w := by
  have hv := h.meanwhile (hk.meanwhile_passive hr)
  refine Plan.leads_reply ?_ ?_ ?_
  · cases r with
    | putEvents p => cases hr
    | _ => trivial
  · intro x v hc
    rwa [hc] at hv
  · intro q v hc
    rw [hc] at hv
    exact .inl hv

theorem safe_describe {β : Type} {f : Except Fault (Option (Option String)) → β} {Q : β → W → Prop}
    (hQ : ∀ v, Meanwhile g view w v → Q (f (.ok (view w))) v) :
    Safe s g view (do return f (← ask (.describeStream s.group s.stream))) Q w := by
  have hm : Meanwhile g view w (g.call (.describeStream s.group s.stream) w).2 := hk.meanwhile_passive rfl
  refine Plan.leads_reply trivial ?_ ?_
  · intro x v hc
    have hd := hk.describes w
    rw [hc] at hd hm
    cases hd
    exact hQ v hm
  · intro q v hc
    have hd := hk.describes w
    rw [hc] at hd
    cases hd

theorem safe_note {e : Entry} {Q : Unit → W → Prop} (hQ : ∀ v, Meanwhile g view w v → Q () v) :
    Safe s g view (Plan.log e) Q w := Plan.leads_log (hQ _ (hk.note e w))

theorem safe_require_passive {α : Type} {q : Patience} {message : String}
    {op : Plan api (Patience.Try Fault α)}
    (hop : ∀ v, NotStale g view v → Safe s g view op (fun _ => NotStale g view) v) (h : NotStale g view w) :
    Safe s g view (q.require message op).run (fun _ => NotStale g view) w :=
  Plan.leads_require (fun _ => .inl h) hop (fun _ hv => hv) (fun d v hv => hv.meanwhile (hk.elapse d v))
    (fun _ _ hv => hv) (fun _ _ _ _ hv => hv) h

theorem safe_attempt_log {e : Entry} (h : NotStale g view w) :
    Safe s g view (Attempt.log e).run (fun _ => NotStale g view) w :=
  Plan.leads_lift (safe_note hk fun _ hm => h.meanwhile hm)

theorem safe_applyRetention {days : Nat} (h : NotStale g view w) :
    Safe s g view (s.applyRetention days) (fun _ => NotStale g view) w := by
  refine Plan.leads_bind (safe_require_passive hk (fun v hv => safe_passive hk rfl hv) h) fun r v hv => ?_
  cases r with
  | ok u => exact Plan.leads_pure hv
  | error e => exact safe_note hk fun _ hm => hv.meanwhile hm

theorem safe_groupExists (h : NotStale g view w) : Safe s g view s.groupExists (fun _ => NotStale g view) w :=
  safe_passive hk rfl h

theorem safe_ensureGroup (h : NotStale g view w) :
    Safe s g view s.ensureGroup.run (fun _ => NotStale g view) w := by
  refine Plan.leads_attempt_bind (safe_attempt_log hk h) (fun _ v hv => ?_) (fun _ _ hv => hv)
  refine Plan.leads_attempt_bind (safe_require_passive hk (fun v hv => safe_groupExists hk hv) hv)
    (fun there v hv => ?_) (fun _ _ hv => hv)
  split
  · exact Plan.leads_pure hv
  · refine Plan.leads_attempt_bind (safe_attempt_log hk hv) (fun _ v hv => ?_) (fun _ _ hv => hv)
    refine Plan.leads_attempt_bind (safe_require_passive hk (fun v hv => safe_passive hk rfl hv) hv)
      (fun _ v hv => ?_) (fun _ _ hv => hv)
    refine Plan.leads_attempt_bind (safe_require_passive hk (fun v hv => ?_) hv)
      (fun _ v hv => ?_) (fun _ _ hv => hv)
    · exact Plan.leads_bind (safe_groupExists hk hv) fun _ _ hv => Plan.leads_pure hv
    · split
      · exact Plan.leads_lift (safe_applyRetention hk hv)
      · exact Plan.leads_pure hv

/-- One look shows the stream as it is; it may be deleted right after. -/
theorem safe_look : Safe s g view s.describe (fun r v => ∃ d, r = .ok (some d) ∧ Fades d (view v)) w :=
  safe_describe hk fun _ hm => ⟨view w, rfl, hm.2⟩

/-- A creation that does not succeed leaves the stream missing. -/
theorem safe_create (h : view w = none) :
    Safe s g view (do return Patience.created (← ask (.createStream s.group s.stream)))
      (fun r v => r = .ok (some ()) ∨ view v = none) w := by
  have hc := hk.creates w h
  refine Plan.leads_reply trivial ?_ ?_
  · intro x v hr
    rw [hr] at hc
    rcases hc with hc | hc
    · exact .inr hc
    · cases hc
      exact .inl rfl
  · intro q v hr
    rw [hr] at hc
    rcases hc with hc | hc
    · exact .inl (isCurrent_of_missing hc).notStale
    · cases hc

theorem safe_streamAppears :
    Safe s g view s.streamAppears (fun r v => ∃ d, r = .ok d ∧ Fades d (view v)) w := by
  refine Plan.leads_bind (safe_look hk) fun r v h => ?_
  obtain ⟨d, rfl, hd⟩ := h
  exact Plan.leads_pure ⟨d, rfl, hd⟩

section
variable {message : String}

theorem safe_require_look :
    Safe s g view (s.setup.require message s.describe).run (fun r v => ∃ d, r = .ok d ∧ Fades d (view v)) w := by
  refine Plan.leads_require (I := fun _ => True) .inr (fun _ _ => safe_look hk) ?_ ?_ ?_ ?_ trivial
  · intro v h
    trivial
  · intro d v h
    obtain ⟨_, hr, _⟩ := h
    cases hr
  · intro a v h
    obtain ⟨d, hr, hd⟩ := h
    cases hr
    exact ⟨a, rfl, hd⟩
  · intro r e v hfail h
    obtain ⟨d, hr, -⟩ := h
    exact absurd hr (hfail d)

theorem safe_require_create (h : view w = none) :
    Safe s g view (s.setup.require message do
        return Patience.created (← ask (.createStream s.group s.stream))).run
      (fun r v => r = .ok () ∨ view v = none) w := by
  refine Plan.leads_require (I := fun v => view v = none) .inr (fun _ hv => safe_create hk hv) ?_ ?_ ?_ ?_ h
  · intro v hv
    exact hv.resolve_left (by simp)
  · intro d v hv
    exact .inr ((hk.elapse d v).2.missing (hv.resolve_left (by simp)))
  · intro a v _
    exact .inl rfl
  · intro r e v hfail hv
    exact .inr (hv.resolve_left (hfail ()))

theorem safe_require_appear :
    Safe s g view (s.setup.require message s.streamAppears).run (fun r v => Fades r.toOption (view v)) w := by
  refine Plan.leads_require (I := fun _ => True) .inr (fun _ _ => safe_streamAppears hk) ?_ ?_ ?_ ?_ trivial
  · intro v h
    trivial
  · intro d v h
    obtain ⟨_, hr, hd⟩ := h
    cases hr
    exact ⟨none, rfl, .inr ((hk.elapse d v).2.missing (hd.missing rfl))⟩
  · intro token v h
    obtain ⟨_, hr, hd⟩ := h
    cases hr
    exact hd
  · intro r e v hfail h
    obtain ⟨d, hr, hd⟩ := h
    cases d with
    | none => exact hd
    | some token => exact absurd hr (hfail token)

end

/-- However the stream was found, its token is in memory in the end. -/
theorem safe_ensureStream : Safe s g view s.ensureStream.run (Kept g view) w := by
  refine Plan.leads_attempt_bind (safe_require_look hk) ?_ ?_
  · intro d v hv
    obtain ⟨_, hr, hd⟩ := hv
    cases hr
    cases d with
    | some token => exact Plan.leads_lift (Plan.leads_memorize (hk.isCurrent_remember hd))
    | none =>
      have hmissing : view v = none := hd.missing rfl
      refine Plan.leads_attempt_bind (R := fun _ v => view v = none) ?_ ?_ ?_
      · exact Plan.leads_lift (safe_note hk fun _ hm => hm.2.missing hmissing)
      · intro _ v hv
        refine Plan.leads_attempt_bind (safe_require_create hk hv) ?_ ?_
        · -- what is in memory may be stale now, but nothing is sent before the new stream is seen
          intro _ v _
          refine Plan.leads_attempt_bind (safe_require_appear hk) ?_ ?_
          · intro token v hv
            exact Plan.leads_lift (Plan.leads_memorize (hk.isCurrent_remember hv))
          · intro e v hv
            exact (isCurrent_of_missing (hv.missing rfl)).notStale
        · intro e v hv
          exact (isCurrent_of_missing (hv.resolve_left (by simp))).notStale
      · intro e v hv
        exact (isCurrent_of_missing hv).notStale
  · intro e v hv
    obtain ⟨_, hr, _⟩ := hv
    cases hr

theorem safe_makeAvailable (h : NotStale g view w) : Safe s g view s.makeAvailable (Kept g view) w := by
  unfold Stream.makeAvailable
  split
  · exact Plan.leads_pure h
  · split
    · exact Plan.leads_pure h
    · have he : Safe s g view s.ensure.run (Kept g view) w :=
        Plan.leads_attempt_bind (safe_ensureGroup hk h) (fun _ _ _ => safe_ensureStream hk) fun _ _ hv => hv
      exact Plan.leads_bind he fun r v hv => Plan.leads_pure hv.mapError

/-! ## Sending -/

def Replied (g : Ground api W) (view : W → Option (Option String)) : Except Fault PutReply → W → Prop
  | .ok reply, w => ∃ token, reply.nextToken = some token ∧ Fades (some (some token)) (view w)
  | .error f, w => f.kind ≠ .invalidSequenceToken ∧ IsCurrent g view w

theorem safe_ask_put {events : List Event} (h : IsCurrent g view w) :
    Safe s g view (ask (.putEvents { group := s.group, stream := s.stream, token := g.consult w, events }))
      (Replied g view) w := by
  generalize hp : ({ group := s.group, stream := s.stream, token := g.consult w, events } : Put) = p
  have hgroup : p.group = s.group := by rw [← hp]
  have hstream : p.stream = s.stream := by rw [← hp]
  have htoken : ∀ token, view w = some token → p.token = token := by
    intro token ht
    rw [← hp]
    exact h token ht
  have hrefused : (∀ reply, (g.call (.putEvents p) w).1 ≠ .ok (.ok reply)) →
      IsCurrent g view (g.call (.putEvents p) w).2 :=
    fun hn => h.meanwhile ⟨hk.consult_call _ w, hk.refuses p w hgroup hstream hn⟩
  refine Plan.leads_request ⟨hgroup, hstream, htoken⟩ ?_ ?_
  · intro x v hc
    cases x with
    | ok reply => exact (hk.accepts p w reply v hgroup hstream hc).2
    | error f =>
      rw [hc] at hrefused
      refine ⟨?_, hrefused fun reply hr => by cases hr⟩
      intro hf
      obtain ⟨token, ht, hn⟩ := hk.blames p w f hgroup hstream (by rw [hc]) hf
      exact hn (htoken token ht)
  · intro q v hc
    rw [hc] at hrefused
    exact .inl (hrefused fun reply hr => by cases hr).notStale

def AfterPut (g : Ground api W) (view : W → Option (Option String)) : Patience.Try Fault PutReply → W → Prop
  | .ok (some reply), w => ∀ token, view w = some token → reply.nextToken.or (g.consult w) = token
  | _, w => IsCurrent g view w

theorem safe_put {events : List Event} (h : IsCurrent g view w) :
    Safe s g view (s.put events) (AfterPut g view) w := by
  refine Plan.leads_bind (Plan.leads_memory (Q := fun token v => token = g.consult w ∧ v = w) ⟨rfl, rfl⟩) ?_
  intro token v hv
  obtain ⟨rfl, rfl⟩ := hv
  refine Plan.leads_bind (safe_ask_put hk h) fun x v hv => ?_
  cases x with
  | ok reply =>
    obtain ⟨token, hr, hf⟩ := hv
    refine Plan.leads_pure ?_
    intro t ht
    have hs : some (some token) = some t := hf.eq_of_some ht
    rw [hr]
    exact Option.some.inj hs
  | error f =>
    obtain ⟨hn, hv⟩ := hv
    dsimp only
    split
    · -- the batch was there already: the token is still the one it was presented with
      exact Plan.leads_pure hv
    · rename_i hf
      exact absurd hf hn
    · refine Plan.leads_pure ?_
      unfold Patience.unlessTransient
      dsimp only
      split <;> exact hv

theorem safe_reportRejected {r : Rejected} (h : IsCurrent g view w) :
    Safe s g view (Stream.reportRejected r) (fun _ => IsCurrent g view) w := by
  have hnote : ∀ {e : Entry} {v : W}, IsCurrent g view v →
      Safe s g view (Plan.log e) (fun _ => IsCurrent g view) v :=
    fun hv => safe_note hk fun _ hm => hv.meanwhile hm
  unfold Stream.reportRejected
  dsimp only
  -- each of the three warnings may be missing, and those that are there stand in a row
  split <;> split <;> split <;>
    repeat first
      | exact Plan.leads_pure (by assumption)
      | exact hnote (by assumption)
      | refine Plan.leads_bind (hnote (by assumption)) fun _ _ _ => ?_

theorem safe_accepted {reply : PutReply} (h : AfterPut g view (.ok (some reply)) w) :
    Safe s g view (Stream.accepted reply) (Kept g view) w := by
  have hreported : ∀ r v, IsCurrent g view v →
      Safe s g view (do Stream.reportRejected r; return .ok [])
        (Kept g view : Except Failure (List Nat) → W → Prop) v := by
    intro r v hv
    exact Plan.leads_bind (safe_reportRejected hk hv) fun _ _ hv => Plan.leads_pure hv
  unfold Stream.accepted
  dsimp only
  split
  · rename_i hs
    have hnew : IsCurrent g view (g.remember reply.nextToken w) := by
      intro token ht
      rw [hk.consult_remember, ← h token ((hk.view_remember _ w).eq_of_some ht)]
      exact (Option.or_of_isSome hs).symm
    refine Plan.leads_bind (R := fun _ => IsCurrent g view) (Plan.leads_memorize hnew) fun _ v hv => ?_
    split
    · exact hreported _ v hv
    · exact Plan.leads_pure hv
  · rename_i hs
    have hold : IsCurrent g view w := by
      intro token ht
      rw [← h token ht, Option.or_of_isNone (by simpa using hs)]
    split
    · exact hreported _ w hold
    · exact Plan.leads_pure hold

theorem safe_recover {count : Nat} {f : Fault} : Safe s g view (s.recover count f) (Kept g view) w := by
  refine Plan.leads_bind (R := fun _ _ => True) (safe_note hk fun _ _ => trivial) fun _ v _ => ?_
  have hf : NotStale g view (g.remember none v) := notStale_of_forgotten (hk.consult_remember none v)
  refine Plan.leads_bind (R := fun _ => NotStale g view) (Plan.leads_memorize hf) fun _ v hv => ?_
  exact Plan.leads_bind (safe_makeAvailable hk hv) fun r v hv => Plan.leads_pure hv.map

theorem safe_sendEvents {batch : List Message} (h : IsCurrent g view w) :
    Safe s g view (s.sendEvents batch) (Kept g view) w := by
  have hi : Safe s g view (s.sending.invoke (s.put (Stream.events batch)))
      (AfterPut g view) w :=
    Plan.leads_invoke (fun _ => .inl h.notStale) (fun _ hv => safe_put hk hv) (fun _ hv => hv)
      (fun d v hv => IsCurrent.meanwhile hv (hk.elapse d v)) h
  refine Plan.leads_bind hi fun r v hv => ?_
  split
  · exact safe_accepted hk hv
  · exact Plan.leads_pure (IsCurrent.notStale hv)
  · split
    · exact safe_recover hk
    · exact Plan.leads_pure (IsCurrent.notStale hv)

theorem safe_sendAfresh {batch : List Message} : Safe s g view (s.sendAfresh batch) (Kept g view) w := by
  have hl : Safe s g view s.fetchToken
      (fun r v => ∃ d, r = .ok d.join ∧ Fades d (view v)) w :=
    safe_describe hk fun v hm => ⟨view w, rfl, hm.2⟩
  refine Plan.leads_bind hl fun r v hv => ?_
  obtain ⟨d, rfl, hd⟩ := hv
  have hc : IsCurrent g view (g.remember d.join v) := by
    cases d with
    | some token => exact hk.isCurrent_remember hd
    | none => exact isCurrent_of_missing ((hk.view_remember _ v).missing (hd.missing rfl))
  exact Plan.leads_bind (R := fun _ => IsCurrent g view) (Plan.leads_memorize hc)
    fun _ v hv => safe_sendEvents hk hv

theorem safe_send {batch : List Message} (h : NotStale g view w) :
    Safe s g view (s.send batch) (fun r v => NotStale g view v ∧ (batch ≠ [] → Kept g view r v)) w := by
  unfold Stream.send
  split
  · rename_i he
    exact Plan.leads_pure ⟨h, fun hn => absurd (List.isEmpty_iff.mp he) hn⟩
  · refine Plan.leads_bind (Plan.leads_memory (Q := fun token v => token = g.consult w ∧ v = w) ⟨rfl, rfl⟩) ?_
    intro token v hv
    obtain ⟨rfl, rfl⟩ := hv
    refine Leads.mono (Q := _) (R := Kept g view) ?_ fun r v hv => ⟨hv.notStale, fun _ => hv⟩
    split
    · rename_i hd
      rw [Bool.and_eq_true] at hd
      exact safe_sendEvents hk (h.isCurrent hd.2)
    · exact safe_sendAfresh hk

end

end LogRelay.CloudWatch
