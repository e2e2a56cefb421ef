import LogRelay.Delivery.Services
import LogRelay.Proofs.Records
import LogRelay.Proofs.Tally

/-!
# What the services accept

A log stream takes a batch as a whole, a data stream answers for every record, and a topic takes one
message at a time. In each case the answer to a batch is right about what was accepted while it was
being sent, however often there was another try.
-/

namespace LogRelay

/-! ## SNS -/

namespace Sns

def Accepts (batch : List Message) : Call api → List Nat → Prop
  | ⟨.publish _ _ text, .ok ()⟩, ps => ∃ i, ps = [i] ∧ (batch[i]?).map (·.text) = some text
  | _, ps => ps = []

namespace Topic

variable {t : Topic} {arn : String} {batch : List Message} {log : List (Call api)}

theorem tally_publishOnce {m : Message} {i : Nat} (hi : batch[i]? = some m) {r : Patience.Try Fault Unit}
    (h : (t.publishOnce arn m).Ends log r) : Tally (Accepts batch) log (onReady [i] r) := by
  obtain ⟨x, rfl, rfl⟩ := Plan.ends_reply.mp h
  cases x with
  | ok u => exact tally_singleton ⟨i, rfl, by rw [hi]; rfl⟩
  | error f =>
    simp only [Patience.unlessTransient]
    split <;> exact tally_singleton rfl

theorem tally_publish {m : Message} {i : Nat} (hi : batch[i]? = some m) {r : Except Failure Unit}
    (h : (t.publish arn m).Ends log r) : Tally (Accepts batch) log (onReady [i] (r.map some)) := by
  obtain ⟨l, _, x, rfl, hx, hr⟩ := Plan.ends_bind.mp h
  have ht : Tally (Accepts batch) l (onReady [i] x) :=
    tally_invoke rfl (fun l r hl => tally_publishOnce hi hl) hx
  split at hr <;>
  · obtain ⟨rfl, rfl⟩ := Plan.ends_pure.mp hr
    rw [List.append_nil]
    exact ht

def PublishedFrom (batch : List Message) (sent : Nat) (log : List (Call api)) : Except Failure (List Nat) → Prop
  | .ok positions => ∃ k, sent ≤ k ∧ k ≤ batch.length ∧
    Tally (Accepts batch) log (List.range' sent (k - sent)) ∧ positions = List.range' k (batch.length - k)
  | .error _ => sent = 0 ∧ Tally (Accepts batch) log []

theorem publishFrom_spec {sent : Nat} {rest : List Message} (hr : batch.drop sent = rest)
    (hs : sent ≤ batch.length) {answer : Except Failure (List Nat)}
    (h : (t.publishFrom arn batch.length sent rest).Ends log answer) : PublishedFrom batch sent log answer := by
  induction rest generalizing sent log with
  | nil =>
    have hlen := congrArg List.length hr
    rw [List.length_drop, List.length_nil] at hlen
    obtain ⟨rfl, rfl⟩ := Plan.ends_pure.mp h
    refine ⟨batch.length, hs, Nat.le_refl _, ?_, ?_⟩
    · rw [hlen]
      rfl
    · rw [Nat.sub_self]
      rfl
  | cons m rest ih =>
    have hlen := congrArg List.length hr
    rw [List.length_drop, List.length_cons] at hlen
    have hi : batch[sent]? = some m := by
      rw [← List.head?_drop, hr, List.head?_cons]
    have hr' : batch.drop (sent + 1) = rest := by
      rw [← List.tail_drop, hr, List.tail_cons]
    unfold publishFrom at h
    obtain ⟨l₁, l₂, x, rfl, hx, h₂⟩ := Plan.ends_bind.mp h
    have hp := tally_publish hi hx
    cases x with
    | ok u =>
      have hrest := ih hr' (by omega) h₂
      cases answer with
      | error e => exact absurd hrest.1 (by omega)
      | ok positions =>
        obtain ⟨k, hk, hkl, ht, hpos⟩ := hrest
        refine ⟨k, by omega, hkl, ?_, hpos⟩
        have he : List.range' sent (k - sent) = [sent] ++ List.range' (sent + 1) (k - (sent + 1)) := by
          rw [show k - sent = k - (sent + 1) + 1 by omega]
          rfl
        rw [he]
        exact hp.append ht
    | error e =>
      have hp : Tally (Accepts batch) l₁ [] := hp
      dsimp only at h₂
      split at h₂
      · rename_i hz
        obtain ⟨rfl, rfl⟩ := Plan.ends_pure.mp h₂
        rw [List.append_nil]
        exact ⟨hz, hp⟩
      · obtain ⟨u, -, h₃⟩ := Plan.ends_bind_of_quiet (Plan.asks_log _) h₂
        obtain ⟨rfl, rfl⟩ := Plan.ends_pure.mp h₃
        -- all before this message was accepted, and it goes back with all that follow
        refine ⟨sent, Nat.le_refl _, hs, ?_, rfl⟩
        rw [Nat.sub_self, List.append_nil]
        exact hp

theorem send_accounts {answer : Except Failure (List Nat)} (h : (t.send batch).Ends log answer) :
    Accounts (Accepts batch) batch.length log answer := by
  obtain ⟨m, -, hp⟩ := Plan.ends_bind_of_quiet Plan.asks_memory h
  cases m with
  | none =>
    obtain ⟨rfl, rfl⟩ := Plan.ends_pure.mp hp
    exact rfl
  | some arn =>
    have hf := publishFrom_spec rfl (Nat.zero_le _) hp
    cases answer with
    | error e => exact hf.2
    | ok positions =>
      obtain ⟨k, -, hk, ht, rfl⟩ := hf
      refine ⟨List.pairwise_lt_range', _, ht, ?_⟩
      have he : List.range' 0 (k - 0) ++ List.range' k (batch.length - k) = List.range batch.length := by
        have h : List.range' 0 k ++ List.range' (0 + k) (batch.length - k) =
            List.range' 0 (k + (batch.length - k)) := List.range'_append_1
        rw [Nat.zero_add] at h
        rw [Nat.sub_zero, h, List.range_eq_range']
        congr 1
        omega
      rw [he]

end Topic

end Sns

/-! ## Kinesis -/

namespace Kinesis

def stored (replies : List RecordReply) : List Nat :=
  (replies.zipIdx.filter fun x => !x.1.code.isSome).map (·.2)

def Accepts (batch : List Message) : Call api → List Nat → Prop
  | ⟨.putRecords _ records, .ok replies⟩, ps =>
    records.map (·.data) = batch.map (·.text) ∧ ps = stored replies
  | _, ps => ps = []

/-- One result is answered for every record. -/
def AnswersEach : Call api → Prop
  | ⟨.putRecords _ records, .ok replies⟩ => replies.length = records.length
  | _ => True

theorem stored_append_refused_perm (replies : List RecordReply) :
    (stored replies ++ Stream.refused replies).Perm (List.range replies.length) := by
  have h :=
    (List.filter_append_perm (fun x : RecordReply × Nat => !x.1.code.isSome) replies.zipIdx).map Prod.snd
  rw [List.map_append, List.zipIdx_map_snd, ← List.range_eq_range'] at h
  simpa [stored, Stream.refused] using h

theorem refused_pairwise (replies : List RecordReply) : (Stream.refused replies).Pairwise (· < ·) := by
  have h : (Stream.refused replies).Sublist (List.range replies.length) := by
    have hs := (List.filter_sublist (l := replies.zipIdx) (p := fun x => x.1.code.isSome)).map Prod.snd
    rwa [List.zipIdx_map_snd, ← List.range_eq_range'] at hs
  exact List.pairwise_lt_range.sublist h

namespace Stream

variable {s : Stream} {batch : List Message} {log : List (Call api)} {records : List Record}

def storedIn {ε : Type} : Patience.Try ε (List RecordReply) → List Nat
  | .ok (some replies) => stored replies
  | _ => []

theorem tally_put (hd : records.map (·.data) = batch.map (·.text)) {r : Patience.Try Fault (List RecordReply)}
    (h : (s.put records).Ends log r) : Tally (Accepts batch) log (storedIn r) := by
  obtain ⟨x, rfl, rfl⟩ := Plan.ends_reply.mp h
  cases x with
  | ok replies => exact tally_singleton ⟨hd, rfl⟩
  | error f =>
    simp only [Patience.unlessTransient]
    split <;> exact tally_singleton rfl

theorem length_of_ends_put {replies : List RecordReply} (h : (s.put records).Ends log (.ok (some replies)))
    (ha : ∀ c ∈ log, AnswersEach c) : replies.length = records.length := by
  obtain ⟨x, rfl, he⟩ := Plan.ends_reply.mp h
  cases x with
  | ok rs =>
    cases he
    exact ha _ List.mem_cons_self
  | error f =>
    simp only [Patience.unlessTransient] at he
    split at he <;> cases he

theorem send_accounts {answer : Except Failure (List Nat)} (h : (s.send batch).Ends log answer)
    (ha : ∀ c ∈ log, AnswersEach c) : Accounts (Accepts batch) batch.length log answer := by
  unfold send at h
  split at h
  · rename_i he
    rw [List.isEmpty_iff] at he
    obtain ⟨rfl, rfl⟩ := Plan.ends_pure.mp h
    rw [he]
    exact accounts_all rfl
  · obtain ⟨_, l, records, rfl, hrec, hsend⟩ := Plan.ends_bind.mp h
    obtain ⟨rfl, hd, -⟩ := of_ends_records hrec
    have hlen : records.length = batch.length := by
      have h := congrArg List.length hd
      rwa [List.length_map, List.length_map] at h
    obtain ⟨l₁, l₂, x, rfl, hx, hanswer⟩ := Plan.ends_bind.mp hsend
    have ht : Tally (Accepts batch) l₁ (storedIn x) := tally_invoke rfl (fun l r hl => tally_put hd hl) hx
    split at hanswer
    · obtain ⟨rfl, rfl⟩ := Plan.ends_pure.mp hanswer
      rw [List.append_nil]
      exact ht
    · obtain ⟨rfl, rfl⟩ := Plan.ends_pure.mp hanswer
      rw [List.append_nil]
      exact ht
    · rename_i replies
      -- the service answers for every record, so the replies are not miscounted
      have hreplies : replies.length = batch.length := by
        obtain ⟨before, last, rfl, -, hl⟩ := Plan.ends_invoke hx
        rcases hl with hl | ⟨-, hl⟩
        · rw [← hlen]
          exact length_of_ends_put hl fun c hc => ha c (by simp [hc])
        · cases hl
      rw [if_pos hreplies] at hanswer
      obtain ⟨l₃, _, u, rfl, hu, hok⟩ := Plan.ends_bind.mp hanswer
      obtain ⟨rfl, rfl⟩ := Plan.ends_pure.mp hok
      have hquiet : l₃ = [] := by
        unfold reportRefused at hu
        split at hu
        · exact (Plan.ends_pure.mp hu).1
        · exact Plan.ends_log.mp hu
      rw [hquiet, List.append_nil, List.append_nil]
      refine ⟨refused_pairwise replies, stored replies, ht, ?_⟩
      rw [← hreplies]
      exact stored_append_refused_perm replies

end Stream

end Kinesis

/-! ## CloudWatch Logs -/

namespace CloudWatch

def eventOf (m : Message) : Event := { time := m.time.millis, text := m.text }

def isAccepted : Except Fault PutReply → Bool
  | .ok _ => true
  | .error f => f.kind = .dataAlreadyAccepted

def Accepts (batch : List Message) : Call api → List Nat → Prop
  | ⟨.putEvents put, reply⟩, ps =>
    if isAccepted reply then put.events.Perm (ps.filterMap fun i => batch[i]?.map eventOf) else ps = []
  | _, ps => ps = []

def Request.IsOther : Request → Prop
  | .putEvents _ => False
  | _ => True

theorem events_perm (batch : List Message) :
    (Stream.events batch).Perm ((List.range batch.length).filterMap fun i => batch[i]?.map eventOf) := by
  have hall : ∀ l : List Message, (List.range l.length).filterMap (fun i => l[i]?) = l := by
    intro l
    induction l with
    | nil => rfl
    | cons m l ih =>
      rw [List.length_cons, List.range_succ_eq_map, List.filterMap_cons, List.filterMap_map]
      exact congrArg (List.cons m) ih
  rw [← List.map_filterMap, hall]
  exact List.mergeSort_perm _ _

theorem tally_of_isOther {batch : List Message} {log : List (Call api)} (h : ∀ c ∈ log, c.request.IsOther) :
    Tally (Accepts batch) log [] := by
  refine tally_nil fun c hc => ?_
  obtain ⟨request, reply⟩ := c
  have hr : request.IsOther := h _ hc
  cases request with
  | putEvents put => cases hr
  | _ => rfl

namespace Stream

variable {s : Stream} {batch : List Message} {log : List (Call api)}

theorem asks_ensureGroup : Plan.Asks Request.IsOther s.ensureGroup.run := by
  unfold ensureGroup
  refine Plan.asks_attempt_bind (Plan.asks_lift (Plan.asks_log _)) fun _ => ?_
  refine Plan.asks_attempt_bind (Plan.asks_require _ _ (Plan.asks_reply trivial)) fun there => ?_
  split
  · exact Plan.asks_pure _
  · refine Plan.asks_attempt_bind (Plan.asks_lift (Plan.asks_log _)) fun _ => ?_
    refine Plan.asks_attempt_bind (Plan.asks_require _ _ (Plan.asks_reply trivial)) fun _ => ?_
    have happears : s.groupAppears.Asks Request.IsOther :=
      Plan.asks_bind (Plan.asks_reply trivial) fun _ => Plan.asks_pure _
    refine Plan.asks_attempt_bind (Plan.asks_require _ _ happears) fun _ => ?_
    split
    · refine Plan.asks_lift (Plan.asks_bind (Plan.asks_require _ _ (Plan.asks_reply trivial)) fun r => ?_)
      split
      · exact Plan.asks_pure _
      · exact Plan.asks_log _
    · exact Plan.asks_pure _

theorem asks_ensureStream : Plan.Asks Request.IsOther s.ensureStream.run := by
  unfold ensureStream
  refine Plan.asks_attempt_bind (Plan.asks_require _ _ (Plan.asks_reply trivial)) fun token => ?_
  split
  · exact Plan.asks_lift (Plan.asks_memorize _)
  · refine Plan.asks_attempt_bind (Plan.asks_lift (Plan.asks_log _)) fun _ => ?_
    refine Plan.asks_attempt_bind (Plan.asks_require _ _ (Plan.asks_reply trivial)) fun _ => ?_
    have happears : s.streamAppears.Asks Request.IsOther :=
      Plan.asks_bind (Plan.asks_reply trivial) fun _ => Plan.asks_pure _
    refine Plan.asks_attempt_bind (Plan.asks_require _ _ happears) fun _ => ?_
    exact Plan.asks_lift (Plan.asks_memorize _)

theorem asks_makeAvailable : s.makeAvailable.Asks Request.IsOther := by
  unfold makeAvailable
  split
  · exact Plan.asks_pure _
  · split
    · exact Plan.asks_pure _
    · refine Plan.asks_bind ?_ fun _ => Plan.asks_pure _
      exact Plan.asks_attempt_bind asks_ensureGroup fun _ => asks_ensureStream

theorem asks_fetchToken : s.fetchToken.Asks Request.IsOther := Plan.asks_reply trivial

theorem tally_put {r : Patience.Try Fault PutReply} (h : (s.put (events batch)).Ends log r) :
    Tally (Accepts batch) log (onReady (List.range batch.length) r) := by
  obtain ⟨token, -, h₁⟩ := Plan.ends_bind_of_quiet Plan.asks_memory h
  obtain ⟨_, l, x, rfl, hx, h₂⟩ := Plan.ends_bind.mp h₁
  obtain rfl := Plan.ends_request.mp hx
  cases x with
  | ok reply =>
    obtain ⟨rfl, rfl⟩ := Plan.ends_pure.mp h₂
    exact tally_singleton (events_perm batch)
  | error f =>
    dsimp only at h₂
    split at h₂
    · rename_i hk
      obtain ⟨rfl, rfl⟩ := Plan.ends_pure.mp h₂
      refine tally_singleton ?_
      simp only [Accepts, isAccepted, hk, decide_true, if_true]
      exact events_perm batch
    · rename_i hk
      -- the request with the stale token was refused, and asking for a token puts nothing
      have hr : ¬ isAccepted (.error f) = true := by simp [isAccepted, hk]
      have hput : Tally (Accepts batch)
          [⟨.putEvents ⟨s.group, s.stream, token, events batch⟩, .error f⟩] [] := by
        refine tally_singleton ?_
        simp only [Accepts, if_neg hr]
      obtain ⟨l₁, l₂, y, rfl, hy, h₃⟩ := Plan.ends_bind.mp h₂
      have hfetch : Tally (Accepts batch) l₁ [] := tally_of_isOther (asks_fetchToken.of_ends hy)
      have hrest : l₂ = [] ∧ r = .ok none := by
        split at h₃ <;>
        · obtain ⟨u, -, h₄⟩ := Plan.ends_bind_of_quiet (Plan.asks_memorize _) h₃
          exact Plan.ends_pure.mp h₄
      obtain ⟨rfl, rfl⟩ := hrest
      rw [List.append_nil]
      exact hput.append hfetch
    · rename_i hk hk'
      obtain ⟨rfl, rfl⟩ := Plan.ends_pure.mp h₂
      have hr : ¬ isAccepted (.error f) = true := by simpa [isAccepted] using hk
      have hnone : onReady (List.range batch.length)
          (Patience.unlessTransient (.error f : Except Fault PutReply)) = [] := by
        simp only [Patience.unlessTransient]
        split <;> rfl
      rw [hnone]
      refine tally_singleton ?_
      simp only [Accepts, if_neg hr]

theorem recover_accounts {f : Fault} {answer : Except Failure (List Nat)}
    (h : (s.recover batch.length f).Ends log answer) : Accounts (Accepts batch) batch.length log answer := by
  obtain ⟨u, -, h₁⟩ := Plan.ends_bind_of_quiet (Plan.asks_log _) h
  obtain ⟨v, -, h₂⟩ := Plan.ends_bind_of_quiet (Plan.asks_memorize _) h₁
  obtain ⟨made, hm, rfl⟩ := Plan.ends_map.mp h₂
  have ht : Tally (Accepts batch) log [] := tally_of_isOther (asks_makeAvailable.of_ends hm)
  cases made with
  | ok u => exact accounts_none ht
  | error e => exact ht

theorem asks_reportRejected {P : Request → Prop} (r : Rejected) : (reportRejected r).Asks P := by
  unfold reportRejected
  split <;> split <;> split <;> simp [Plan.asks_bind]

theorem of_ends_accepted {reply : PutReply} {answer : Except Failure (List Nat)}
    (h : (accepted reply).Ends log answer) : log = [] ∧ answer = .ok [] := by
  unfold accepted at h
  dsimp only at h
  split at h
  · obtain ⟨u, -, h₁⟩ := Plan.ends_bind_of_quiet (Plan.asks_memorize _) h
    split at h₁
    · obtain ⟨v, -, h₂⟩ := Plan.ends_bind_of_quiet (asks_reportRejected _) h₁
      exact Plan.ends_pure.mp h₂
    · exact Plan.ends_pure.mp h₁
  · split at h
    · obtain ⟨v, -, h₁⟩ := Plan.ends_bind_of_quiet (asks_reportRejected _) h
      exact Plan.ends_pure.mp h₁
    · exact Plan.ends_pure.mp h

theorem sendEvents_accounts {answer : Except Failure (List Nat)} (h : (s.sendEvents batch).Ends log answer) :
    Accounts (Accepts batch) batch.length log answer := by
  obtain ⟨l, _, x, rfl, hx, h₁⟩ := Plan.ends_bind.mp h
  have ht : Tally (Accepts batch) l (onReady (List.range batch.length) x) :=
    tally_invoke rfl (fun l r hl => tally_put hl) hx
  split at h₁
  · obtain ⟨rfl, rfl⟩ := of_ends_accepted h₁
    rw [List.append_nil]
    exact accounts_all ht
  · obtain ⟨rfl, rfl⟩ := Plan.ends_pure.mp h₁
    rw [List.append_nil]
    exact ht
  · split at h₁
    · exact Accounts.prepend ht (recover_accounts h₁)
    · obtain ⟨rfl, rfl⟩ := Plan.ends_pure.mp h₁
      rw [List.append_nil]
      exact ht

theorem sendAfresh_accounts {answer : Except Failure (List Nat)} (h : (s.sendAfresh batch).Ends log answer) :
    Accounts (Accepts batch) batch.length log answer := by
  obtain ⟨l, _, x, rfl, hx, h₁⟩ := Plan.ends_bind.mp h
  have ht : Tally (Accepts batch) l [] := tally_of_isOther (asks_fetchToken.of_ends hx)
  refine Accounts.prepend ht ?_
  split at h₁
  · obtain ⟨u, -, h₂⟩ := Plan.ends_bind_of_quiet (Plan.asks_memorize _) h₁
    exact sendEvents_accounts h₂
  · split at h₁
    · exact recover_accounts h₁
    · split at h₁
      · obtain ⟨u, -, h₂⟩ := Plan.ends_bind_of_quiet (Plan.asks_memorize _) h₁
        exact sendEvents_accounts h₂
      · obtain ⟨rfl, rfl⟩ := Plan.ends_pure.mp h₁
        exact rfl

theorem send_accounts {answer : Except Failure (List Nat)} (h : (s.send batch).Ends log answer) :
    Accounts (Accepts batch) batch.length log answer := by
  unfold send at h
  split at h
  · rename_i he
    rw [List.isEmpty_iff] at he
    obtain ⟨rfl, rfl⟩ := Plan.ends_pure.mp h
    rw [he]
    exact accounts_all rfl
  · obtain ⟨token, -, h₁⟩ := Plan.ends_bind_of_quiet Plan.asks_memory h
    split at h₁
    · exact sendEvents_accounts h₁
    · exact sendAfresh_accounts h₁

end Stream

end CloudWatch

/-! ## The three services -/

namespace Services

def Accepts (batch : List Message) : Call api → List Nat → Prop
  | ⟨.cloudWatch r, x⟩, ps => CloudWatch.Accepts batch ⟨r, x⟩ ps
  | ⟨.kinesis r, x⟩, ps => Kinesis.Accepts batch ⟨r, x⟩ ps
  | ⟨.sns r, x⟩, ps => Sns.Accepts batch ⟨r, x⟩ ps

/-- Records that are put are answered one by one. -/
def AnswersEach {W : Type} (g : Ground api W) : Prop :=
  ∀ name records w replies w', g.call (.kinesis (.putRecords name records)) w = (.ok (.ok replies), w') →
    replies.length = records.length

variable {W : Type} {g : Ground api W} {p : Patiences} {t : Target} {batch : List Message}

theorem AnswersEach.kinesis (hg : AnswersEach g) {c : Call Kinesis.api} {v v' : W}
    (h : g.call (.kinesis c.request) v = (.ok c.reply, v')) : Kinesis.AnswersEach c := by
  obtain ⟨request, reply⟩ := c
  cases request with
  | putRecords name records =>
    cases reply with
    | ok replies => exact hg name records v replies v' h
    | error f => trivial
  | _ => trivial

/-- Whatever the service and the clock do while a batch is sent, the positions returned are those of
the messages that were not accepted, every other message was accepted once, and when there is a
failure no message was. -/
theorem batch_accounted (hg : AnswersEach g) {w w' : W} {answer : Except Failure (List Nat)}
    (h : ((destination p t).send batch).run g w = (.ok answer, w')) :
    ∃ log, ((destination p t).send batch).run g.recorded (w, []) = (.ok answer, w', log) ∧
      Accounts (Accepts batch) batch.length log answer := by
  obtain ⟨log, hrun, hends, hcalls⟩ := Plan.run_recorded h []
  refine ⟨log, hrun, ?_⟩
  cases t with
  | cloudWatch s =>
    obtain ⟨l, rfl, hl⟩ := Plan.ends_within hends
    refine Accounts.map ?_ (CloudWatch.Stream.send_accounts hl)
    intro x ps hx
    exact hx
  | kinesis s =>
    obtain ⟨l, rfl, hl⟩ := Plan.ends_within hends
    have ha : ∀ c ∈ l.map (fun x => (⟨x.1, x.2⟩ : Call Kinesis.api)), Kinesis.AnswersEach c := by
      intro c hc
      obtain ⟨x, hx, rfl⟩ := List.mem_map.mp hc
      obtain ⟨v, v', hv⟩ := hcalls _ (List.mem_map_of_mem hx)
      exact hg.kinesis hv
    refine Accounts.map ?_ (Kinesis.Stream.send_accounts hl ha)
    intro x ps hx
    exact hx
  | sns s =>
    obtain ⟨l, rfl, hl⟩ := Plan.ends_within hends
    refine Accounts.map ?_ (Sns.Topic.send_accounts hl)
    intro x ps hx
    exact hx

def reluctant : Ground api Nat where
  now _ := 0
  elapse _ n := n
  note _ n := n
  consult _ := none
  remember _ n := n
  draw n := (0, n)
  call
    | .kinesis (.putRecords _ records), n =>
      if n = 0 then (.ok (.error { kind := .throttled, message := "slow down" }), 1)
      else
        (.ok (.ok (records.mapIdx fun i _ => if i = 1 then { code := some "InternalFailure" } else {})), n + 1)
    | _, n => (.error { payload := none }, n)

theorem batch_accounted_reluctant :
    AnswersEach reluctant ∧
    ∃ log, ((destination .default (.kinesis { stream := "events" })).send
        [⟨⟨0⟩, "a"⟩, ⟨⟨0⟩, "b"⟩, ⟨⟨0⟩, "c"⟩]).run reluctant.recorded (0, []) = (.ok (.ok [1]), 2, log) ∧
      Accounts (Accepts [⟨⟨0⟩, "a"⟩, ⟨⟨0⟩, "b"⟩, ⟨⟨0⟩, "c"⟩]) 3 log (.ok [1]) := by
  have hg : AnswersEach reluctant := by
    intro name records w replies w' h
    simp only [reluctant] at h
    split at h
    · cases h
    · cases h
      exact List.length_mapIdx
  exact ⟨hg, batch_accounted hg rfl⟩

end Services

end LogRelay
