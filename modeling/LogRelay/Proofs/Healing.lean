import LogRelay.Proofs.Acceptance
import LogRelay.Proofs.Tokens

/-!
# Streams that heal

The token in memory may be missing or stale, and stream and group may have been deleted. On a service
that refuses nothing but what it has to, one send then either stores its batch or creates what is
missing; whatever it finds, it leaves a stream behind, and where there is a stream a batch is stored.
-/

namespace LogRelay.CloudWatch

open Plan (Leads)

/-- What a service has of a stream: the group, the stream with its token, and the batches stored in it. -/
structure Holding where
  group : Bool
  stream : Option (Option String)
  stored : List (List Event)

def Refused {α : Type} (kind : FaultKind) (x : Except Fault α) : Prop := ∃ f, x = .error f ∧ f.kind = kind

def Request.Concerns (s : Stream) : Request → Prop
  | .groupExists group | .createGroup group | .putRetention group _ => group = s.group
  | .describeStream group stream | .createStream group stream => group = s.group ∧ stream = s.stream
  | .putEvents p => p.group = s.group ∧ p.stream = s.stream
  | .close => True

/-- The replies of a service that checks tokens, with what it has before and after. It reports no fault
that does not follow from what it has. Which tokens it gives out is up to it, and so is what it makes of
requests about a stream in a group that is missing. -/
def Answers (h : Holding) : (r : Request) → r.Reply → Holding → Prop
  | .groupExists _, x, h' => x = .ok h.group ∧ h' = h
  | .createGroup _, x, h' =>
    if h.group then Refused .resourceAlreadyExists x ∧ h' = h else x = .ok () ∧ h' = { h with group := true }
  | .putRetention _ _, x, h' => (h.group = true → x = .ok ()) ∧ h' = h
  | .describeStream _ _, x, h' =>
    (x = .ok h.stream ∨ h.group = false ∧ h.stream = none ∧ Refused .resourceNotFound x) ∧ h' = h
  | .createStream _ _, x, h' =>
    if h.stream.isSome then Refused .resourceAlreadyExists x
    else h.group = true → x = .ok () ∧ ∃ token, h' = { h with stream := some token }
  | .putEvents p, x, h' =>
    match h.stream with
    | none => Refused .resourceNotFound x ∧ h' = h
    | some token =>
      if p.token = token then
        ∃ reply token', x = .ok reply ∧ h' = { h with stream := some token', stored := h.stored ++ [p.events] }
      else Refused .invalidSequenceToken x ∧ h' = h
  | .close, _, h' => h' = h

section
variable {W : Type}

def Still (g : Ground api W) (view : W → Holding) (w w' : W) : Prop :=
  g.consult w' = g.consult w ∧ view w' = view w

/-- A service that answers truly, on a ground where nobody else uses the stream. -/
structure Truthful (s : Stream) (g : Ground api W) (view : W → Holding) : Prop where
  consult_remember : ∀ m w, g.consult (g.remember m w) = m
  view_remember : ∀ m w, view (g.remember m w) = view w
  now_remember : ∀ m w, g.now (g.remember m w) = g.now w
  elapse : ∀ d w, Still g view w (g.elapse d w)
  note : ∀ e w, Still g view w (g.note e w)
  consult_call : ∀ r w, g.consult (g.call r w).2 = g.consult w
  answers : ∀ r w, r.Concerns s →
    ∃ x, (g.call r w).1 = .ok x ∧ Answers (view w) r x (view (g.call r w).2)

/-- There is time to have a token refused, to ask for the right one and to try again. -/
def HasTime (s : Stream) (g : Ground api W) : Prop :=
  ∀ p w, (∃ x, (g.call (.putEvents p) w).1 = .ok x ∧ Refused .invalidSequenceToken x) →
    g.now (g.call (.describeStream s.group s.stream) (g.call (.putEvents p) w).2).2 < g.now w + s.sending.timeout

/-- At this time the clock can show when time would be up for setting up and for sending. -/
def Stream.HasRoom (s : Stream) (now : Instant) : Prop := s.setup.Fits now ∧ s.sending.Fits now

/-- Timeouts have room until the clock is within their reach of its end. -/
theorem Stream.hasRoom_of_le {s : Stream} {now : Instant} {reach : Duration} (hsetup : s.setup.timeout ≤ reach)
    (hsending : s.sending.timeout ≤ reach) (h : now + reach ≤ Instant.last) : s.HasRoom now :=
  ⟨Nat.le_trans (Nat.add_le_add_left hsetup now) h, Nat.le_trans (Nat.add_le_add_left hsending now) h⟩

abbrev Comes {α : Type} (s : Stream) (g : Ground api W) (p : Plan api α) (Q : α → W → Prop) (w : W) : Prop :=
  Leads g (fun _ _ => True) (fun v => ¬s.HasRoom (g.now v)) p Q w

def StoresOnce (batch : List Message) (h h' : Holding) : Prop :=
  ∃ events, h'.stored = h.stored ++ [events] ∧ events.Perm (batch.map eventOf)

def Heals (batch : List Message) (h : Holding) (view : W → Holding) (r : Except Failure (List Nat)) (w : W) :
    Prop :=
  r = .ok [] ∧ StoresOnce batch h (view w) ∨
  h.stream = none ∧ r = .ok (List.range batch.length) ∧ (view w).stored = h.stored ∧ (view w).stream.isSome = true

variable {s : Stream} {g : Ground api W} {view : W → Holding} {w : W}

section
variable (ht : Truthful s g view)
include ht

theorem comes_request {r : Request} {Q : r.Reply → W → Prop} (hr : r.Concerns s)
    (hQ : ∀ x v, Answers (view w) r x (view v) → g.consult v = g.consult w → g.call r w = (.ok x, v) → Q x v) :
    Comes s g (ask r) Q w := by
  obtain ⟨x, hx, ha⟩ := ht.answers r w hr
  have hc := ht.consult_call r w
  cases hcall : g.call r w with
  | mk result v =>
    rw [hcall] at hx ha hc
    cases hx
    refine Plan.leads_request trivial (fun y v' hy => ?_) fun q v' hq => ?_
    · rw [hcall] at hy
      cases hy
      exact hQ x v ha hc hcall
    · rw [hcall] at hq
      cases hq

theorem comes_reply {β : Type} {r : Request} {f : r.Reply → β} {Q : β → W → Prop} (hr : r.Concerns s)
    (hQ : ∀ x v, Answers (view w) r x (view v) → g.consult v = g.consult w → Q (f x) v) :
    Comes s g (do return f (← ask r)) Q w :=
  Plan.leads_bind (comes_request ht hr fun x v ha hc _ => hQ x v ha hc) fun _ _ h => Plan.leads_pure h

theorem comes_attempt_log {e : Entry} :
    Comes s g (Attempt.log e).run (fun r v => ∃ u, r = .ok u ∧ view v = view w) w :=
  Plan.leads_lift (Plan.leads_log ⟨(), rfl, (ht.note e w).2⟩)

/-! ## Setting up -/

theorem comes_groupExists :
    Comes s g s.groupExists (fun r v => ∃ b, r = .ok (some b) ∧ b = (view w).group ∧ view v = view w) w := by
  refine comes_reply ht rfl fun x v ha _ => ?_
  obtain ⟨rfl, hv⟩ := ha
  exact ⟨_, rfl, rfl, hv⟩

theorem comes_groupAppears (hg : (view w).group = true) :
    Comes s g s.groupAppears (fun r v => ∃ u, r = .ok (some u) ∧ view v = view w) w := by
  refine Plan.leads_bind (comes_groupExists ht) fun r v hr => ?_
  obtain ⟨b, rfl, rfl, hv⟩ := hr
  exact Plan.leads_pure ⟨(), by simp [hg, Except.map], hv⟩

theorem comes_createGroup (hg : (view w).group = false) :
    Comes s g (do return Patience.created (← ask (.createGroup s.group)))
      (fun r v => ∃ u, r = .ok (some u) ∧ view v = { view w with group := true }) w := by
  refine comes_reply ht rfl fun x v ha _ => ?_
  simp only [Answers, hg, Bool.false_eq_true, if_false] at ha
  obtain ⟨rfl, hv⟩ := ha
  exact ⟨(), rfl, hv⟩

theorem comes_applyRetention {days : Nat} (hg : (view w).group = true) :
    Comes s g (s.applyRetention days) (fun _ v => view v = view w) w := by
  refine Plan.leads_bind (Plan.leads_require_ready (R := fun _ v => view v = view w) (mt And.left) ?_) fun r v hr => ?_
  · refine comes_reply ht rfl fun x v ha _ => ?_
    obtain ⟨hx, hv⟩ := ha
    exact ⟨(), by rw [hx hg]; rfl, hv⟩
  · obtain ⟨u, rfl, hv⟩ := hr
    exact Plan.leads_pure hv

theorem comes_ensureGroup :
    Comes s g s.ensureGroup.run (fun r v => ∃ u, r = .ok u ∧ view v = { view w with group := true }) w := by
  refine Plan.leads_success_bind (comes_attempt_log ht) fun _ v hv => ?_
  refine Plan.leads_success_bind (Plan.leads_require_ready (mt And.left) (comes_groupExists ht)) fun b v' hb => ?_
  obtain ⟨rfl, hv'⟩ := hb
  rw [hv] at hv' ⊢
  by_cases hg : (view w).group = true
  · rw [if_pos hg]
    exact Plan.leads_pure ⟨(), rfl, by rw [hv', ← hg]⟩
  · rw [if_neg hg]
    have hg : (view w).group = false := by simpa using hg
    refine Plan.leads_success_bind (comes_attempt_log ht) fun _ v hv => ?_
    rw [hv'] at hv
    refine Plan.leads_success_bind (Plan.leads_require_ready (mt And.left)
      (comes_createGroup ht (by rw [hv, hg]))) fun _ v' hv' => ?_
    rw [hv] at hv'
    have hg' : (view v').group = true := by rw [hv']
    refine Plan.leads_success_bind (Plan.leads_require_ready (mt And.left) (comes_groupAppears ht hg'))
      fun _ u hu => ?_
    rw [hv'] at hu
    split
    · refine Plan.leads_lift ((comes_applyRetention ht (by rw [hu])).mono fun _ u' hu' => ?_)
      exact ⟨(), rfl, hu'.trans hu⟩
    · exact Plan.leads_pure ⟨(), rfl, hu⟩

theorem comes_describe (hg : (view w).group = true) :
    Comes s g s.describe
      (fun r v => ∃ found, r = .ok (some found) ∧ found = (view w).stream ∧ view v = view w) w := by
  refine comes_reply ht ⟨rfl, rfl⟩ fun x v ha _ => ?_
  obtain ⟨hx | ⟨hn, -⟩, hv⟩ := ha
  · exact ⟨_, by rw [hx]; rfl, rfl, hv⟩
  · rw [hg] at hn
    cases hn

theorem comes_createStream (hg : (view w).group = true) (hs : (view w).stream = none) :
    Comes s g (do return Patience.created (← ask (.createStream s.group s.stream)))
      (fun r v => ∃ u, r = .ok (some u) ∧ ∃ token, view v = { view w with stream := some token }) w := by
  refine comes_reply ht ⟨rfl, rfl⟩ fun x v ha _ => ?_
  simp only [Answers, hs, Option.isSome_none, Bool.false_eq_true, if_false] at ha
  obtain ⟨rfl, hv⟩ := ha hg
  exact ⟨(), rfl, hv⟩

theorem comes_streamAppears (hg : (view w).group = true) (hs : (view w).stream.isSome = true) :
    Comes s g s.streamAppears (fun r v => ∃ token, r = .ok (some token) ∧ view v = view w) w := by
  obtain ⟨token, hs⟩ := Option.isSome_iff_exists.mp hs
  refine Plan.leads_bind (comes_describe ht hg) fun r v hr => ?_
  obtain ⟨found, rfl, rfl, hv⟩ := hr
  exact Plan.leads_pure ⟨token, by simp [hs, Except.map], hv⟩

theorem comes_attempt_memorize {token : Option String} :
    Comes s g (Attempt.memorize token).run (fun r v => ∃ u, r = .ok u ∧ view v = view w) w :=
  Plan.leads_lift (Plan.leads_memorize ⟨(), rfl, ht.view_remember token w⟩)

theorem comes_ensureStream (hg : (view w).group = true) :
    Comes s g s.ensureStream.run
      (fun r v => ∃ u, r = .ok u ∧ (view v).stream.isSome = true ∧ (view v).stored = (view w).stored) w := by
  refine Plan.leads_success_bind (Plan.leads_require_ready (mt And.left) (comes_describe ht hg)) fun found v hv => ?_
  obtain ⟨rfl, hv⟩ := hv
  split
  · rename_i token hs
    refine (comes_attempt_memorize ht).mono fun r v' hr => ?_
    obtain ⟨u, rfl, hv'⟩ := hr
    rw [hv', hv, hs]
    exact ⟨u, rfl, rfl, rfl⟩
  · rename_i hs
    refine Plan.leads_success_bind (comes_attempt_log ht) fun _ v₁ h₁ => ?_
    rw [hv] at h₁
    refine Plan.leads_success_bind (Plan.leads_require_ready (mt And.left)
      (comes_createStream ht (by rw [h₁, hg]) (by rw [h₁, hs]))) fun _ v₂ h₂ => ?_
    obtain ⟨token, h₂⟩ := h₂
    rw [h₁] at h₂
    refine Plan.leads_success_bind (Plan.leads_require_ready (mt And.left)
      (comes_streamAppears ht (by rw [h₂, hg]) (by rw [h₂]; rfl))) fun token' v₃ h₃ => ?_
    refine (comes_attempt_memorize ht).mono fun r v₄ hr => ?_
    obtain ⟨u, rfl, h₄⟩ := hr
    rw [h₄, h₃, h₂]
    exact ⟨u, rfl, rfl, rfl⟩

section
variable (hgroup : Names.isLogGroup s.group = true) (hstream : Names.isLogStream s.stream = true)
include hgroup hstream

theorem comes_makeAvailable :
    Comes s g s.makeAvailable
      (fun r v => r = .ok () ∧ (view v).stream.isSome = true ∧ (view v).stored = (view w).stored) w := by
  unfold Stream.makeAvailable
  rw [hgroup, hstream]
  refine Plan.leads_bind (R := fun r v => ∃ u, r = .ok u ∧ (view v).stream.isSome = true ∧
    (view v).stored = (view w).stored) ?_ fun r v hr => ?_
  · refine Plan.leads_success_bind (comes_ensureGroup ht) fun _ v hv => ?_
    refine (comes_ensureStream ht (by rw [hv])).mono fun r v' hr => ?_
    rwa [hv] at hr
  · obtain ⟨u, rfl, hs⟩ := hr
    exact Plan.leads_pure ⟨rfl, hs⟩

theorem comes_recover {batch : List Message} {f : Fault} (hs : (view w).stream = none) :
    Comes s g (s.recover batch.length f) (Heals batch (view w) view) w := by
  refine Plan.leads_bind (Plan.leads_log (Q := fun _ v => view v = view w) (ht.note _ w).2) fun _ v hv => ?_
  refine Plan.leads_bind (Plan.leads_memorize (Q := fun _ v => view v = view w)
    ((ht.view_remember none v).trans hv)) fun _ v hv => ?_
  refine Plan.leads_bind (comes_makeAvailable ht hgroup hstream) fun r v' hr => ?_
  obtain ⟨rfl, hs', hstored⟩ := hr
  exact Plan.leads_pure (.inr ⟨hs, rfl, hstored.trans (by rw [hv]), hs'⟩)

end

/-! ## Putting -/

section
variable {events : List Event}

/-- What comes of putting events is what comes of the reply to the request with the token in memory. -/
theorem comes_put {Q : Patience.Try Fault PutReply → W → Prop}
    (hok : ∀ reply v, g.call (.putEvents ⟨s.group, s.stream, g.consult w, events⟩) w = (.ok (.ok reply), v) →
      Answers (view w) (.putEvents ⟨s.group, s.stream, g.consult w, events⟩) (.ok reply) (view v) →
      Q (.ok (some reply)) v)
    (hfail : ∀ f v, g.call (.putEvents ⟨s.group, s.stream, g.consult w, events⟩) w = (.ok (.error f), v) →
      Answers (view w) (.putEvents ⟨s.group, s.stream, g.consult w, events⟩) (.error f) (view v) →
      f.kind = .resourceNotFound ∧ Q (.error f) v ∨
      f.kind = .invalidSequenceToken ∧ Comes s g s.fetchToken
        (fun r v => ∃ token, r = .ok token ∧ Q (.ok none) (g.remember token v)) v) :
    Comes s g (s.put events) Q w := by
  refine Plan.leads_bind (Plan.leads_memory (Q := fun token v => token = g.consult w ∧ v = w) ⟨rfl, rfl⟩) ?_
  rintro token v ⟨rfl, rfl⟩
  refine Plan.leads_bind (comes_request ht ⟨rfl, rfl⟩ (Q := fun x v' =>
    g.call (.putEvents ⟨s.group, s.stream, g.consult v, events⟩) v = (.ok x, v') ∧
    Answers (view v) (.putEvents ⟨s.group, s.stream, g.consult v, events⟩) x (view v'))
    fun x v' ha _ hc => ⟨hc, ha⟩) fun x v' hx => ?_
  cases x with
  | ok reply => exact Plan.leads_pure (hok reply v' hx.1 hx.2)
  | error f =>
    dsimp only
    rcases hfail f v' hx.1 hx.2 with ⟨hk, hq⟩ | ⟨hk, hfetch⟩
    · rw [hk]
      refine Plan.leads_pure ?_
      have htransient : f.isTransient = false := by simp [Fault.isTransient, hk]
      simpa [Patience.unlessTransient, htransient] using hq
    · rw [hk]
      refine Plan.leads_bind hfetch fun r v₁ hr => ?_
      obtain ⟨token, rfl, hq⟩ := hr
      exact Plan.leads_bind (Plan.leads_memorize (Q := fun _ => Q (.ok none)) hq) fun _ _ h => Plan.leads_pure h

theorem comes_put_current (hs : (view w).stream = some (g.consult w)) :
    Comes s g (s.put events)
      (fun r v => ∃ reply, r = .ok (some reply) ∧ (view v).stored = (view w).stored ++ [events]) w := by
  refine comes_put ht ?_ ?_
  · intro reply v _ ha
    simp only [Answers, hs, if_true] at ha
    obtain ⟨_, token, -, hv⟩ := ha
    exact ⟨reply, rfl, by rw [hv]⟩
  · intro f v _ ha
    simp only [Answers, hs, if_true] at ha
    obtain ⟨_, _, hx, -⟩ := ha
    cases hx

theorem comes_put_missing (hs : (view w).stream = none) :
    Comes s g (s.put events)
      (fun r v => (∃ f, r = .error f ∧ f.kind = .resourceNotFound) ∧ view v = view w) w := by
  refine comes_put ht ?_ ?_
  · intro reply v _ ha
    simp only [Answers, hs] at ha
    obtain ⟨⟨f, hx, -⟩, -⟩ := ha
    cases hx
  · intro f v _ ha
    simp only [Answers, hs] at ha
    obtain ⟨⟨f', hx, hk⟩, hv⟩ := ha
    cases hx
    exact .inl ⟨hk, ⟨f, rfl, hk⟩, hv⟩

/-- A token that is refused is replaced by the right one, before time is up. -/
theorem comes_put_stale (htime : HasTime s g) {token : Option String} (hs : (view w).stream = some token)
    (hn : g.consult w ≠ token) :
    Comes s g (s.put events) (fun r v => r = .ok none ∧ g.now v < g.now w + s.sending.timeout ∧
      view v = view w ∧ g.consult v = token) w := by
  refine comes_put ht ?_ ?_
  · intro reply v _ ha
    simp only [Answers, hs, if_neg hn] at ha
    obtain ⟨⟨f, hx, -⟩, -⟩ := ha
    cases hx
  · intro f v hc ha
    simp only [Answers, hs, if_neg hn] at ha
    obtain ⟨⟨f', hx, hk⟩, hv⟩ := ha
    cases hx
    refine .inr ⟨hk, ?_⟩
    have hnow := htime _ w ⟨.error f, by rw [hc], f, rfl, hk⟩
    rw [hc] at hnow
    refine Plan.leads_bind (comes_request ht (r := .describeStream s.group s.stream) ⟨rfl, rfl⟩ (Q := fun x v' =>
      x = .ok (some token) ∧ view v' = view w ∧ g.now v' < g.now w + s.sending.timeout) ?_) fun x v' hx => ?_
    · intro x v' ha _ hc'
      rw [hc'] at hnow
      rw [hv] at ha
      obtain ⟨hx | ⟨-, hnone, -⟩, hv'⟩ := ha
      · exact ⟨hx.trans (by rw [hs]), hv', hnow⟩
      · rw [hs] at hnone
        cases hnone
    · obtain ⟨rfl, hv', hnow⟩ := hx
      refine Plan.leads_pure ⟨token, rfl, rfl, ?_, ?_, ?_⟩
      · rwa [ht.now_remember]
      · rw [ht.view_remember, hv']
      · exact ht.consult_remember token v'

theorem comes_invoke_put (htime : HasTime s g) (hs : (view w).stream.isSome = true) :
    Comes s g (s.sending.invoke (s.put events))
      (fun r v => ∃ reply, r = .ok (some reply) ∧ (view v).stored = (view w).stored ++ [events]) w := by
  obtain ⟨token, hs⟩ := Option.isSome_iff_exists.mp hs
  refine Plan.leads_invoke_soon (mt And.right) ?_
  by_cases hc : g.consult w = token
  · refine (comes_put_current ht (by rw [hs, hc])).mono fun r v hr => .inl ⟨?_, hr⟩
    obtain ⟨reply, rfl, -⟩ := hr
    simp
  · refine (comes_put_stale ht htime hs hc).mono fun r v hr => .inr ?_
    obtain ⟨rfl, hnow, hv, hc'⟩ := hr
    refine ⟨rfl, hnow, fun d => ?_⟩
    obtain ⟨hce, hve⟩ := ht.elapse d v
    refine (comes_put_current ht (by rw [hve, hv, hs, hce, hc'])).mono fun r v' hr => ?_
    obtain ⟨reply, rfl, hv'⟩ := hr
    exact ⟨by simp, reply, rfl, by rw [hv', hve, hv]⟩

theorem comes_invoke_missing (hs : (view w).stream = none) :
    Comes s g (s.sending.invoke (s.put events))
      (fun r v => (∃ f, r = .error f ∧ f.kind = .resourceNotFound) ∧ view v = view w) w := by
  refine Plan.leads_invoke_soon (mt And.right) ((comes_put_missing ht hs).mono fun r v hr => .inl ⟨?_, hr⟩)
  obtain ⟨⟨f, rfl, -⟩, -⟩ := hr
  simp

end

theorem comes_reportRejected {r : Rejected} :
    Comes s g (Stream.reportRejected r) (fun _ v => view v = view w) w := by
  have hnote : ∀ {e : Entry} {v : W}, view v = view w → Comes s g (Plan.log e) (fun _ v => view v = view w) v :=
    fun {e v} hv => Plan.leads_log ((ht.note e v).2.trans hv)
  have hrefl : view w = view w := rfl
  unfold Stream.reportRejected
  dsimp only
  split <;> split <;> split <;>
    repeat first
      | exact Plan.leads_pure (by assumption)
      | exact hnote (by assumption)
      | refine Plan.leads_bind (hnote (by assumption)) fun _ _ _ => ?_

theorem comes_accepted {reply : PutReply} :
    Comes s g (Stream.accepted reply) (fun r v => r = .ok [] ∧ view v = view w) w := by
  have hreported : ∀ r v, view v = view w →
      Comes s g (do Stream.reportRejected r; return .ok [])
        (fun (r : Except Failure (List Nat)) v => r = .ok [] ∧ view v = view w) v := by
    intro r v hv
    exact Plan.leads_bind (comes_reportRejected ht) fun _ _ hv' => Plan.leads_pure ⟨rfl, hv'.trans hv⟩
  unfold Stream.accepted
  dsimp only
  split
  · refine Plan.leads_bind (Plan.leads_memorize (Q := fun _ v => view v = view w) (ht.view_remember _ w))
      fun _ v hv => ?_
    split
    · exact hreported _ v hv
    · exact Plan.leads_pure ⟨rfl, hv⟩
  · split
    · exact hreported _ w rfl
    · exact Plan.leads_pure ⟨rfl, rfl⟩

/-! ## Sending -/

section
variable (hgroup : Names.isLogGroup s.group = true) (hstream : Names.isLogStream s.stream = true)
  (htime : HasTime s g) {batch : List Message}
include hgroup hstream htime

theorem comes_sendEvents : Comes s g (s.sendEvents batch) (Heals batch (view w) view) w := by
  by_cases hs : (view w).stream.isSome = true
  · refine Plan.leads_bind (comes_invoke_put ht htime hs) fun r v hr => ?_
    obtain ⟨reply, rfl, hv⟩ := hr
    refine (comes_accepted ht).mono fun r v' hr => .inl ?_
    obtain ⟨rfl, hv'⟩ := hr
    refine ⟨rfl, Stream.events batch, by rw [hv', hv], ?_⟩
    exact List.mergeSort_perm _ _
  · have hs : (view w).stream = none := by simpa using hs
    refine Plan.leads_bind (comes_invoke_missing ht hs) fun r v hr => ?_
    obtain ⟨⟨f, rfl, hk⟩, hv⟩ := hr
    dsimp only
    rw [if_pos hk, ← hv]
    exact comes_recover ht hgroup hstream (by rw [hv, hs])

theorem comes_sendAfresh : Comes s g (s.sendAfresh batch) (Heals batch (view w) view) w := by
  refine Plan.leads_bind (comes_reply ht ⟨rfl, rfl⟩ (Q := fun r v => view v = view w ∧
    ((∃ token, r = .ok token) ∨ (view w).stream = none ∧ Refused .resourceNotFound r)) ?_) fun r v hr => ?_
  · intro x v ha _
    obtain ⟨hx | ⟨-, hs, f, hx, hk⟩, hv⟩ := ha
    · exact ⟨hv, .inl ⟨_, by rw [hx]; rfl⟩⟩
    · exact ⟨hv, .inr ⟨hs, f, by rw [hx]; rfl, hk⟩⟩
  · obtain ⟨hv, ⟨token, rfl⟩ | ⟨hs, f, rfl, hk⟩⟩ := hr
    · refine Plan.leads_bind (Plan.leads_memorize (Q := fun _ v => view v = view w)
        ((ht.view_remember token v).trans hv)) fun _ v hv => ?_
      rw [← hv]
      exact comes_sendEvents ht hgroup hstream htime
    · dsimp only
      rw [if_pos hk, ← hv]
      exact comes_recover ht hgroup hstream (by rw [hv, hs])

theorem comes_send (hb : batch ≠ []) : Comes s g (s.send batch) (Heals batch (view w) view) w := by
  unfold Stream.send
  rw [if_neg (by simpa using hb)]
  refine Plan.leads_bind (Plan.leads_memory (Q := fun _ v => v = w) rfl) fun token v hv => ?_
  subst hv
  split
  · exact comes_sendEvents ht hgroup hstream htime
  · exact comes_sendAfresh ht hgroup hstream htime

/-- Whatever token is in memory and whatever the service has, a batch is stored by the first send or by
the second: the first one stores it, or stores nothing and leaves a stream to which the second can. The
clock must not come to its end meanwhile. -/
theorem heals_within_two_sends (hb : batch ≠ []) (w : W)
    (hroom : s.HasRoom (g.now (((destination s).send batch).run g w).2)) :
    ∃ positions w₁, ((destination s).send batch).run g w = (.ok (.ok positions), w₁) ∧
      (positions = [] ∧ StoresOnce batch (view w) (view w₁) ∨
        positions = List.range batch.length ∧ (view w₁).stored = (view w).stored ∧
          ∀ w₂, Still g view w₁ w₂ → s.HasRoom (g.now (((destination s).send batch).run g w₂).2) →
            ∃ w₃, ((destination s).send batch).run g w₂ = (.ok (.ok []), w₃) ∧
              StoresOnce batch (view w₂) (view w₃)) := by
  obtain ⟨r, w₁, hr, h⟩ := (comes_send ht hgroup hstream htime hb (w := w)).exists_end (not_not_intro hroom)
  rcases h with ⟨rfl, hs⟩ | ⟨-, rfl, hstored, hs⟩
  · exact ⟨[], w₁, hr, .inl ⟨rfl, hs⟩⟩
  · refine ⟨_, w₁, hr, .inr ⟨rfl, hstored, fun w₂ h₂ hroom₂ => ?_⟩⟩
    obtain ⟨r, w₃, hr, h⟩ := (comes_send ht hgroup hstream htime hb (w := w₂)).exists_end (not_not_intro hroom₂)
    rcases h with ⟨rfl, hs₃⟩ | ⟨hnone, -⟩
    · exact ⟨w₃, hr, hs₃⟩
    · rw [h₂.2, Option.isSome_iff_ne_none] at *
      exact absurd hnone hs

end

end

end

/-! ## The model of the service is truthful -/

namespace Service

variable {sv : Service} {s : Stream}

def holding (s : Stream) (sv : Service) : Holding where
  group := sv.groups.contains s.group
  stream := (sv.find? s.group s.stream).map (·.token)
  stored := (sv.stored.toList.filter fun p => p.group == s.group && p.stream == s.stream).map (·.events)

theorem setToken_stored (sv : Service) (group stream : String) (token : Option String) :
    (sv.setToken group stream token).stored = sv.stored ∧
      (sv.setToken group stream token).groups = sv.groups ∧
      (sv.setToken group stream token).checksTokens = sv.checksTokens := by
  unfold setToken
  split <;> exact ⟨rfl, rfl, rfl⟩

theorem holding_setToken (token : Option String) :
    (sv.setToken s.group s.stream token).holding s = { sv.holding s with stream := some token } := by
  obtain ⟨hs, hg, -⟩ := setToken_stored sv s.group s.stream token
  unfold holding
  rw [hs, hg, find?_setToken]

theorem answers_put (hc : sv.checksTokens = true) {p : Put} (hgroup : p.group = s.group)
    (hstream : p.stream = s.stream) :
    Answers (sv.holding s) (.putEvents p) (sv.put p).1 ((sv.put p).2.holding s) := by
  unfold put
  rw [hgroup, hstream]
  cases hf : sv.find? s.group s.stream with
  | none => simp [Answers, holding, hf, Refused, noSuchStream]
  | some state =>
    by_cases ht : p.token = state.token
    · simp only [Answers, holding, hf, ht, hc, Option.map_some, bne_self_eq_false, Bool.and_false,
        Bool.false_eq_true, if_false, if_true]
      refine ⟨_, some sv.nextToken, rfl, ?_⟩
      obtain ⟨hs, hg, -⟩ := setToken_stored sv s.group s.stream (some sv.nextToken)
      have hfind : ((sv.setToken s.group s.stream (some sv.nextToken)).find? s.group s.stream).map (·.token) =
          some (some sv.nextToken) := find?_setToken
      unfold find? at hfind ⊢
      simp [hfind, hg, hgroup, hstream]
    · simp [Answers, holding, hf, hc, ht, Refused, wrongToken]

theorem answers (hc : sv.checksTokens = true) {r : Request} (hr : r.Concerns s) :
    Answers (sv.holding s) r (sv.reply r).1 ((sv.reply r).2.holding s) := by
  cases r with
  | groupExists group =>
    obtain rfl := hr
    exact ⟨rfl, rfl⟩
  | createGroup group =>
    obtain rfl := hr
    by_cases hg : s.group ∈ sv.groups
    · simp [Answers, reply, createGroup, holding, hg, Refused, groupTaken]
    · simp [Answers, reply, createGroup, holding, hg, addGroup, find?]
  | putRetention group days => exact ⟨fun _ => rfl, rfl⟩
  | describeStream group stream =>
    obtain ⟨rfl, rfl⟩ := hr
    exact ⟨.inl rfl, rfl⟩
  | createStream group stream =>
    obtain ⟨rfl, rfl⟩ := hr
    cases hf : sv.find? s.group s.stream with
    | none =>
      simp only [Answers, reply, createStream, holding_setToken]
      simp [holding, hf]
    | some state => simp [Answers, reply, createStream, holding, hf, Refused, streamTaken]
  | putEvents p => exact answers_put hc hr.1 hr.2
  | close => rfl

theorem reply_checksTokens (r : Request) : (sv.reply r).2.checksTokens = sv.checksTokens := by
  cases r with
  | createGroup group =>
    simp only [reply, createGroup]
    split <;> rfl
  | createStream group stream => exact (setToken_stored sv group stream none).2.2
  | putEvents p =>
    simp only [reply, put]
    split
    · rfl
    · split
      · rfl
      · exact (setToken_stored _ _ _ _).2.2
  | _ => rfl

end Service

structure Desk where
  service : Service
  checks : service.checksTokens = true
  memory : Option String
  clock : Instant := 0

namespace Desk

def ground : Ground api Desk where
  now d := d.clock
  elapse t d := { d with clock := d.clock + t }
  note _ d := d
  consult d := d.memory
  remember m d := { d with memory := m }
  draw d := (0, d)
  call r d := (.ok (d.service.reply r).1, { d with
    service := (d.service.reply r).2
    checks := (Service.reply_checksTokens r).trans d.checks
    clock := d.clock + 1 })

def view (s : Stream) (d : Desk) : Holding := d.service.holding s

theorem truthful (s : Stream) : Truthful s ground (view s) where
  consult_remember _ _ := rfl
  view_remember _ _ := rfl
  now_remember _ _ := rfl
  elapse _ _ := ⟨rfl, rfl⟩
  note _ _ := ⟨rfl, rfl⟩
  consult_call _ _ := rfl
  answers _ d hr := ⟨_, rfl, Service.answers d.checks hr⟩

def deserted : Desk := { service := { checksTokens := true }, checks := rfl, memory := some "token-7" }

end Desk

theorem heals_within_two_sends_deserted :
    Truthful hasty Desk.ground (Desk.view hasty) ∧ Names.isLogGroup hasty.group = true ∧
    Names.isLogStream hasty.stream = true ∧ HasTime hasty Desk.ground ∧ greeting ≠ [] ∧
    hasty.HasRoom (Desk.ground.now (((destination hasty).send greeting).run Desk.ground Desk.deserted).2) ∧
    ∃ d₁ d₃, ((destination hasty).send greeting).run Desk.ground Desk.deserted = (.ok (.ok [0]), d₁) ∧
      ((destination hasty).send greeting).run Desk.ground d₁ = (.ok (.ok []), d₃) ∧
      StoresOnce greeting (Desk.view hasty d₁) (Desk.view hasty d₃) := by
  have ht := Desk.truthful hasty
  have htime : HasTime hasty Desk.ground := by
    intro p d _
    exact Nat.add_lt_add_left (show 1 + 1 < 5 by decide) d.clock
  have hgroup : Names.isLogGroup hasty.group = true := by decide
  have hstream : Names.isLogStream hasty.stream = true := by decide
  have hb : greeting ≠ [] := by simp [greeting]
  have hroom : hasty.HasRoom
      (Desk.ground.now (((destination hasty).send greeting).run Desk.ground Desk.deserted).2) :=
    Stream.hasRoom_of_le (Nat.le_refl hasty.setup.timeout) (by decide) (by decide)
  obtain ⟨positions, d₁, h₁, h⟩ := heals_within_two_sends ht hgroup hstream htime hb Desk.deserted hroom
  have hgiven : (((destination hasty).send greeting).run Desk.ground Desk.deserted).1 = .ok (.ok [0]) := rfl
  rw [h₁] at hgiven
  rcases h with ⟨rfl, -⟩ | ⟨rfl, -, h⟩
  · cases hgiven
  · have hd₁ : d₁ = (((destination hasty).send greeting).run Desk.ground Desk.deserted).2 := by rw [h₁]
    have hroom₁ : hasty.HasRoom (Desk.ground.now (((destination hasty).send greeting).run Desk.ground d₁).2) := by
      subst hd₁
      exact Stream.hasRoom_of_le (Nat.le_refl hasty.setup.timeout) (by decide) (by decide)
    obtain ⟨d₃, h₃, hs⟩ := h d₁ ⟨rfl, rfl⟩ hroom₁
    exact ⟨ht, hgroup, hstream, htime, hb, hroom, d₁, d₃, h₁, h₃, hs⟩

end LogRelay.CloudWatch
