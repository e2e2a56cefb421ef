import LogRelay.Delivery.CloudWatch
import LogRelay.Delivery.Kinesis
import LogRelay.Proofs.Histories

/-!
# Streams that are provided for

Before a stream is written to it is looked for, and it is created if it is missing and may be created. Whatever
the service answers, and whether it answers at all, nothing is created that has not been found missing, nothing
is created twice, and the stream passes for available only when the last look found it so.
-/

namespace LogRelay

def CountsAsCreated : Except Fault Unit → Prop
  | .ok () => True
  | .error f => f.kind = .resourceAlreadyExists

theorem created_eq_ready_iff {x : Except Fault Unit} :
    Patience.created x = .ok (some ()) ↔ CountsAsCreated x := by
  cases x with
  | ok u => simp [Patience.created, CountsAsCreated]
  | error f =>
    by_cases hf : f.kind = .resourceAlreadyExists
    · simp [Patience.created, CountsAsCreated, hf]
    · by_cases ht : f.isTransient = true <;>
        simp [Patience.created, Patience.unlessTransient, CountsAsCreated, hf, ht]

theorem not_countsAsCreated {x : Except Fault Unit} (h : Patience.created x = .ok none) : ¬ CountsAsCreated x := by
  intro hx
  rw [created_eq_ready_iff.mpr hx] at h
  cases h

theorem ne_ok_of_settle_eq_error {α : Type} {p : Patience} {message : String} {x : Except Fault α} {e : Failure}
    (h : p.settle message (Patience.unlessTransient x) = .error e) (a : α) : x ≠ .ok a := by
  rintro rfl
  exact Patience.not_ready_of_settle_eq_error h a rfl

theorem not_countsAsCreated_of_settle {p : Patience} {message : String} {x : Except Fault Unit} {e : Failure}
    (h : p.settle message (Patience.created x) = .error e) : ¬ CountsAsCreated x :=
  fun hx => Patience.not_ready_of_settle_eq_error h () (created_eq_ready_iff.mpr hx)

namespace CloudWatch

theorem groupAppears_ready_iff {x : Except Fault Bool} :
    ((Patience.unlessTransient x).map fun there => if there = some true then some () else none) = .ok (some ()) ↔
      x = .ok true := by
  rcases x with f | b
  · by_cases ht : f.isTransient = true <;> simp [Patience.unlessTransient, ht, Except.map]
  · cases b <;> simp [Patience.unlessTransient, Except.map]

theorem streamAppears_ready_iff {x : Except Fault (Option (Option String))} {token : Option String} :
    (Patience.unlessTransient x).map Option.join = .ok (some token) ↔ x = .ok (some token) := by
  rcases x with f | found
  · by_cases ht : f.isTransient = true <;> simp [Patience.unlessTransient, ht, Except.map]
  · cases found <;> simp [Patience.unlessTransient, Except.map]

namespace Stream

variable (s : Stream)

abbrev sawGroup (there : Bool) : Call api := ⟨.groupExists s.group, .ok there⟩

abbrev sawStream (found : Option (Option String)) : Call api := ⟨.describeStream s.group s.stream, .ok found⟩

abbrev triedGroup (x : Except Fault Unit) : Call api := ⟨.createGroup s.group, x⟩

abbrev triedStream (x : Except Fault Unit) : Call api := ⟨.createStream s.group s.stream, x⟩

/-- What may be asked for when a stream is set up, by the calls answered so far. -/
def Allows (log : List (Call api)) : Request → Prop
  | .groupExists group => group = s.group
  | .createGroup group => group = s.group ∧ s.sawGroup false ∈ log ∧ ∀ x, s.triedGroup x ∈ log → ¬ CountsAsCreated x
  | .putRetention group days => group = s.group ∧ s.settings.retentionDays = some days ∧
      ∃ x, CountsAsCreated x ∧ [s.sawGroup false, s.triedGroup x, s.sawGroup true].Sublist log
  | .describeStream group stream => group = s.group ∧ stream = s.stream ∧ s.sawGroup true ∈ log
  | .createStream group stream => group = s.group ∧ stream = s.stream ∧
      [s.sawGroup true, s.sawStream none].Sublist log ∧ ∀ x, s.triedStream x ∈ log → ¬ CountsAsCreated x
  | .putEvents _ | .close => False

/-- A reply that keeps a stream from being set up: a fault, or the news that something is still missing. What
becomes of the retention period is not among them. -/
def FallsShort : Call api → Prop
  | ⟨.groupExists _, x⟩ => x ≠ .ok true
  | ⟨.describeStream _ _, x⟩ => ∀ token, x ≠ .ok (some token)
  | ⟨.createGroup _, x⟩ | ⟨.createStream _ _, x⟩ => ¬ CountsAsCreated x
  | _ => False

def EndsShort (log : List (Call api)) : Prop := ∃ c, log.getLast? = some c ∧ FallsShort c

def HasValidNames : Prop := Names.isLogGroup s.group = true ∧ Names.isLogStream s.stream = true

/-- How setting a stream up ends, where `m` was in memory before. Success leaves the token that the last call
showed, and everything else leaves what there was. -/
def Concludes {W : Type} (g : Ground api W) (m : Option String) :
    Except Panic (Except Failure Unit) → W → List (Call api) → Prop
  | .ok (.ok ()), v, log => ∃ token, log.getLast? = some (s.sawStream (some token)) ∧ g.consult v = token
  | .ok (.error _), v, log => g.consult v = m ∧ (s.HasValidNames → EndsShort log)
  | .error _, v, _ => g.consult v = m

def GroupSeen (log : List (Call api)) : Prop :=
  s.sawGroup true ∈ log ∧ ∀ c ∈ log, c.request ≠ .createStream s.group s.stream

def findToken : Attempt api (Option String) := do
  match ← s.setup.require "failed to check for log stream" s.describe with
  | some token => return token
  | none =>
    Attempt.log (.debug ("creating log stream: " ++ s.group ++ " / " ++ s.stream))
    s.setup.require "failed to create log stream" do
      return Patience.created (← ask (.createStream s.group s.stream))
    s.setup.require "log stream did not become available" s.streamAppears

theorem ensureStream_eq : s.ensureStream = s.findToken >>= Attempt.memorize := by
  unfold ensureStream findToken
  rw [bind_assoc]
  refine congrArg _ (funext fun found => ?_)
  cases found with
  | some token => rw [pure_bind]
  | none => simp only [bind_assoc]

variable {s} {W : Type} {g : Ground api W} {F : W → Prop} {log : List (Call api)}

theorem endsShort_of_tries {α : Type} {r : Request} {f : r.Reply → Patience.Try Fault α} {x : r.Reply}
    {l : List (Call api)} (h : Tries (A := api) f log x l) (hx : FallsShort ⟨r, x⟩) : EndsShort l :=
  ⟨_, h.getLast?_eq, hx⟩

section
variable (hF : g.Keeps F)
include hF

theorem abides_applyRetention {days : Nat} {x : Except Fault Unit} (hd : s.settings.retentionDays = some days)
    (hx : CountsAsCreated x) (hlog : [s.sawGroup false, s.triedGroup x, s.sawGroup true].Sublist log) :
    Plan.Abides g F s.Allows (s.applyRetention days)
      (fun _ l => log.Sublist l ∧ ∀ c ∈ l, c ∈ log ∨ c.request = .putRetention s.group days) log := by
  unfold applyRetention
  refine Plan.abides_bind (Plan.abides_require (r := .putRetention s.group days) hF rfl fun tries _ =>
    ⟨rfl, hd, x, hx, hlog.trans (List.sublist_append_left log tries)⟩) ?_
  rintro r l ⟨y, hl, -⟩
  have hgrown : log.Sublist l ∧ ∀ c ∈ l, c ∈ log ∨ c.request = .putRetention s.group days :=
    ⟨(List.sublist_append_left log _).trans (hl.sublist (List.Sublist.refl log)), fun c hc => hl.mem_or hc⟩
  split
  · exact Plan.abides_pure hgrown
  · refine (Plan.abides_log hF _).mono ?_
    rintro _ _ rfl
    exact hgrown

theorem abides_ensureGroup :
    Plan.Abides g F s.Allows s.ensureGroup.run
      (fun r l => (r = .ok () → s.GroupSeen l) ∧ ∀ e, r = .error e → EndsShort l) [] := by
  unfold ensureGroup
  refine Plan.abides_log_bind hF (Plan.abides_require_bind (r := .groupExists s.group) hF rfl
    (fun tries _ => rfl) (fun there x log hlog hx => ?_) fun e x l hl hx => ?_)
  · obtain rfl := Patience.unlessTransient_eq_ready_iff.mp hx
    have hstream : ∀ c ∈ log, c.request ≠ .createStream s.group s.stream := hlog.request_ne (by simp) (by simp)
    cases there with
    | true => exact Plan.abides_pure ⟨fun _ => ⟨hlog.mem, hstream⟩, nofun⟩
    | false =>
      refine Plan.abides_log_bind hF (Plan.abides_require_bind (r := .createGroup s.group) hF rfl
        (fun tries htries => ⟨rfl, List.mem_append_left _ hlog.mem, fun x hx => ?_⟩)
        (fun _ x l hl hx => ?_) fun e x l hl hx => ?_)
      · exact not_countsAsCreated (reply_of_asksAgain htries (hlog.request_ne (by simp) (by simp)) hx)
      · have hx := created_eq_ready_iff.mp hx
        have hmade : [s.sawGroup false, s.triedGroup x].Sublist l :=
          hl.sublist (List.singleton_sublist.mpr hlog.mem)
        have hstream : ∀ c ∈ l, c.request ≠ .createStream s.group s.stream := hl.request_ne (by simp) hstream
        refine Plan.abides_require_bind (r := .groupExists s.group)
          (f := fun x => (Patience.unlessTransient x).map fun there => if there = some true then some () else none)
          hF rfl (fun tries _ => rfl) (fun _ y l' hl' hy => ?_) fun e y l' hl' hy => ?_
        · obtain rfl := groupAppears_ready_iff.mp hy
          have hseen : s.GroupSeen l' := ⟨hl'.mem, hl'.request_ne (by simp) hstream⟩
          split
          · rename_i days hd
            refine Plan.abides_lift ((abides_applyRetention hF hd hx (hl'.sublist hmade)).mono ?_)
            rintro u l'' ⟨hsub, hmem⟩
            refine ⟨fun _ => ⟨hsub.subset hseen.1, fun c hc => ?_⟩, nofun⟩
            rcases hmem c hc with hc | hc
            · exact hseen.2 c hc
            · simp [hc]
          · exact Plan.abides_pure ⟨fun _ => hseen, nofun⟩
        · refine ⟨nofun, fun _ _ => endsShort_of_tries hl' fun h => ?_⟩
          exact Patience.not_ready_of_settle_eq_error hy () (groupAppears_ready_iff.mpr h)
      · exact ⟨nofun, fun _ _ => endsShort_of_tries hl (not_countsAsCreated_of_settle hx)⟩
  · exact ⟨nofun, fun _ _ => endsShort_of_tries hl (ne_ok_of_settle_eq_error hx true)⟩

theorem abides_findToken (hlog : s.GroupSeen log) :
    Plan.Abides g F s.Allows s.findToken.run (fun r l =>
      (∀ token, r = .ok token → l.getLast? = some (s.sawStream (some token))) ∧
      ∀ e, r = .error e → EndsShort l) log := by
  unfold findToken
  refine Plan.abides_require_bind (r := .describeStream s.group s.stream) hF rfl
    (fun tries _ => ⟨rfl, rfl, List.mem_append_left _ hlog.1⟩) (fun found x l hl hx => ?_) fun e x l hl hx => ?_
  · obtain rfl := Patience.unlessTransient_eq_ready_iff.mp hx
    cases found with
    | some token =>
      refine Plan.abides_pure ⟨?_, nofun⟩
      rintro _ ⟨⟩
      exact hl.getLast?_eq
    | none =>
      have hmissing : [s.sawGroup true, s.sawStream none].Sublist l := hl.sublist (List.singleton_sublist.mpr hlog.1)
      refine Plan.abides_log_bind hF (Plan.abides_require_bind (r := .createStream s.group s.stream) hF rfl
        (fun tries htries => ⟨rfl, rfl, hmissing.trans (List.sublist_append_left _ _), fun x hx => ?_⟩)
        (fun _ x l' hl' hx => ?_) fun e x l' hl' hx => ?_)
      · exact not_countsAsCreated (reply_of_asksAgain htries (hl.request_ne (by simp) hlog.2) hx)
      · refine (Plan.abides_require (r := .describeStream s.group s.stream)
          (f := fun x => (Patience.unlessTransient x).map Option.join) hF rfl
          (fun tries _ => ⟨rfl, rfl, List.mem_append_left _ (hl'.mem_of_mem (hl.mem_of_mem hlog.1))⟩)).mono ?_
        rintro r l'' ⟨y, hl'', rfl⟩
        refine ⟨fun token hy => ?_, fun e hy => endsShort_of_tries hl'' fun token h => ?_⟩
        · obtain rfl := streamAppears_ready_iff.mp (Patience.settle_eq_ok.mp hy)
          exact hl''.getLast?_eq
        · exact Patience.not_ready_of_settle_eq_error hy token (streamAppears_ready_iff.mpr h)
      · exact ⟨nofun, fun _ _ => endsShort_of_tries hl' (not_countsAsCreated_of_settle hx)⟩
  · exact ⟨nofun, fun _ _ => endsShort_of_tries hl fun token => ne_ok_of_settle_eq_error hx (some token)⟩

end

theorem leads_ensure (hg : g.Retentive) (w : W) :
    Plan.Leads g.recorded (fun v r => s.Allows v.2 r) (fun v => g.consult v.1 = g.consult w ∧ ∃ r, s.Allows v.2 r)
      s.ensure.run (fun r v => s.Concludes g (g.consult w) (.ok r) v.1 v.2) (w, []) := by
  have hF := hg.keeps (g.consult w)
  have hfind : Plan.Abides g (fun v => g.consult v = g.consult w) s.Allows (s.ensureGroup >>= fun _ => s.findToken).run
      (fun r l => (∀ token, r = .ok token → l.getLast? = some (s.sawStream (some token))) ∧
        ∀ e, r = .error e → EndsShort l) [] :=
    Plan.abides_attempt_bind (abides_ensureGroup hF) (fun _ l hl => abides_findToken hF (hl.1 rfl))
      fun e l hl => ⟨nofun, fun _ _ => hl.2 e rfl⟩
  unfold ensure
  rw [ensureStream_eq, ← bind_assoc]
  refine Plan.leads_attempt_bind (hfind w rfl) (fun token v hv => ?_) fun e v hv => ⟨hv.1, fun _ => hv.2.2 e rfl⟩
  exact Plan.leads_lift (Plan.leads_memorize ⟨token, hv.2.1 token rfl, hg.consult_remember token v.1⟩)

theorem leads_makeAvailable (hg : g.Retentive) (w : W) :
    Plan.Leads g.recorded (fun v r => s.Allows v.2 r) (fun v => g.consult v.1 = g.consult w ∧ ∃ r, s.Allows v.2 r)
      s.makeAvailable (fun r v => s.Concludes g (g.consult w) (.ok r) v.1 v.2) (w, []) := by
  unfold makeAvailable
  split
  · rename_i hgroup
    refine Plan.leads_pure ⟨rfl, fun h => ?_⟩
    simp [h.1] at hgroup
  · split
    · rename_i hstream
      refine Plan.leads_pure ⟨rfl, fun h => ?_⟩
      simp [h.2] at hstream
    · refine Plan.leads_bind (leads_ensure hg w) fun r v hv => Plan.leads_pure ?_
      cases r <;> exact hv

/-- Whatever the service answers, a stream is set up by the rules. No request is made for a stream whose names are
invalid. The group is created only once it has been found missing, its retention period is set only once it has
been missing, created and seen, the stream is created only once the group has been seen and the stream found
missing, and neither is created again when it has been created or was there. Success comes with the last call,
which shows the stream, and leaves its token in memory; otherwise the last call of a stream with valid names is
one that fell short, as the setting of a retention period never does, and the memory is as it was. While group
and stream are there nothing is created, so a second call after a successful one creates nothing. -/
theorem provided_by_protocol (hg : g.Retentive) (w : W) :
    (¬ s.HasValidNames → (destination s).makeAvailable.calls g.recorded (w, []) = [] ∧
      ∃ e, (destination s).makeAvailable.run g w = (.ok (.error e), w)) ∧
    (∀ v log r, ((v, log), r) ∈ (destination s).makeAvailable.calls g.recorded (w, []) → s.Allows log r) ∧
    (∀ result v, (destination s).makeAvailable.run g w = (result, v) → ∃ log,
      (destination s).makeAvailable.run g.recorded (w, []) = (result, v, log) ∧
      s.Concludes g (g.consult w) result v log) ∧
    ∀ Both : W → Prop, g.Keeps Both → (∀ m v, Both v → Both (g.remember m v)) →
      (∀ v, Both v → (g.call (.groupExists s.group) v).1 ≠ .ok (.ok false) ∧
        (g.call (.describeStream s.group s.stream) v).1 ≠ .ok (.ok none)) →
      ∀ u, Both u → ∀ c ∈ (destination s).makeAvailable.calls g.recorded (u, []),
        (∀ group, c.2 ≠ .createGroup group) ∧ ∀ group stream, c.2 ≠ .createStream group stream := by
  refine ⟨fun hnames => ?_, fun v log r hc => ?_, fun result v hr => ?_,
    fun Both hkeeps hremember hthere u hu c hc => ?_⟩
  · change s.makeAvailable.calls g.recorded (w, []) = [] ∧ ∃ e, s.makeAvailable.run g w = (.ok (.error e), w)
    unfold makeAvailable
    split
    · exact ⟨rfl, _, rfl⟩
    · split
      · exact ⟨rfl, _, rfl⟩
      · rename_i hgroup hstream
        exact absurd ⟨by simpa using hgroup, by simpa using hstream⟩ hnames
  · exact (leads_makeAvailable hg w).asks _ hc
  · obtain ⟨log, hlog⟩ := Plan.exists_record hr []
    refine ⟨log, hlog, ?_⟩
    cases result with
    | ok r => exact (leads_makeAvailable hg w).ends r _ hlog
    | error q => exact ((leads_makeAvailable hg w).breaks q _ hlog).1
  · have hallowed := (leads_makeAvailable hg u).asks c hc
    obtain ⟨-, hanswered⟩ := Plan.answered_of_recorded hkeeps hremember hu c hc
    refine ⟨fun group h => ?_, fun group stream h => ?_⟩
    · rw [h] at hallowed
      rcases hanswered _ hallowed.2.1 with he | ⟨v, v', hv, hcall⟩
      · cases he
      · exact (hthere v hv).1 (by rw [hcall])
    · rw [h] at hallowed
      rcases hanswered (s.sawStream none) (hallowed.2.2.1.subset (by simp)) with he | ⟨v, v', hv, hcall⟩
      · cases he
      · exact (hthere v hv).2 (by rw [hcall])

def contested : Ground api (Nat × Option String) := .ticking answer
where
  answer : (r : Request) → Nat → r.Reply
    | .groupExists _, n => if n = 0 then .error { kind := .throttled, message := "slow down" } else .ok (n ≥ 6)
    | .createGroup _, _ => .error { kind := .resourceAlreadyExists, message := "app" }
    | .putRetention _ _, _ => .error { kind := .invalidParameter, message := "days" }
    | .describeStream _ _, n => .ok (if n ≥ 10 then some (some "t") else none)
    | .createStream _ _, _ => .ok ()
    | .putEvents _, _ => .error { kind := .other, message := "not now" }
    | .close, _ => ()

def weekly : Stream where
  settings := { logGroup := "app", logStream := "main", retentionDays := some 7 }
  setup := { initialDelay := 1, timeout := 5, exponential := false }
  sending := { initialDelay := 1, timeout := 5, exponential := false }

theorem provided_by_protocol_contested :
    contested.Retentive ∧
    (∃ log, (destination weekly).makeAvailable.run contested.recorded ((0, none), []) =
        (.ok (.ok ()), (11, some "t"), log) ∧ weekly.Concludes contested none (.ok (.ok ())) (11, some "t") log ∧
      log.map (·.request) = [.groupExists "app", .groupExists "app", .createGroup "app", .groupExists "app",
        .groupExists "app", .putRetention "app" 7, .describeStream "app" "main", .createStream "app" "main",
        .describeStream "app" "main"]) ∧
    ∀ c ∈ (destination weekly).makeAvailable.calls contested.recorded ((11, some "t"), []),
      (∀ group, c.2 ≠ .createGroup group) ∧ ∀ group stream, c.2 ≠ .createStream group stream := by
  have hg : contested.Retentive := Ground.ticking_retentive _
  obtain ⟨-, -, hends, hagain⟩ := provided_by_protocol (s := weekly) hg (0, none)
  obtain ⟨log, hrun, hconcludes⟩ := hends (.ok (.ok ())) (11, some "t") rfl
  refine ⟨hg, ⟨log, hrun, hconcludes, ?_⟩, hagain (fun w => 10 ≤ w.1) ?_ (fun _ _ => id) ?_ _ (by decide)⟩
  · have hlog := congrArg (fun run => run.2.2.map (·.request)) hrun
    exact hlog.symm
  · exact ⟨fun d w h => Nat.le_add_right_of_le h, fun _ _ => id, fun _ => id, fun _ _ h => Nat.le_succ_of_le h⟩
  · intro v hv
    have hn : v.1 ≠ 0 ∧ 6 ≤ v.1 := by omega
    simp [contested, Ground.ticking, contested.answer, hv, hn]

end Stream

end CloudWatch

/-! ## Data streams -/

namespace Kinesis

def IsReady (status : Status) : Prop := status = .active ∨ status = .updating

namespace Stream

variable (s : Stream)

abbrev saw (found : Option Status) : Call api := ⟨.describe s.name, .ok found⟩

abbrev tried (x : Except Fault Unit) : Call api := ⟨.create s.name s.settings.shards, x⟩

def look? : Call api → Option (Option Status)
  | ⟨.describe _, .ok found⟩ => some found
  | _ => none

def looks (log : List (Call api)) : List (Option Status) := log.filterMap look?

/-- After the first look, which only says whether there is a stream, one showed it being deleted. -/
def IsDoomed (log : List (Call api)) : Prop := some .deleting ∈ (looks log).tail

/-- What may be asked for when a stream is set up, by the calls answered so far: nothing once it has been seen
being deleted. -/
def Allows (log : List (Call api)) (r : Request) : Prop :=
  ¬ IsDoomed log ∧
  match r with
  | .describe stream => stream = s.name
  | .create stream shards => stream = s.name ∧ shards = s.settings.shards ∧ s.settings.autoCreate = true ∧
      s.saw none ∈ log ∧ ∀ x, s.tried x ∈ log → ¬ CountsAsCreated x
  | .increaseRetention stream hours => stream = s.name ∧ s.settings.retentionHours = some hours ∧
      ∃ x status, CountsAsCreated x ∧ IsReady status ∧ [s.tried x, s.saw (some status)].Sublist log
  | .putRecords _ _ | .close => False

def HasLooked (log : List (Call api)) : Prop := looks log ≠ [] ∧ ¬ IsDoomed log

/-- A reply that keeps a stream from being set up. -/
def FallsShort : Call api → Prop
  | ⟨.describe _, x⟩ => ∀ status, IsReady status → x ≠ .ok (some status)
  | ⟨.create _ _, x⟩ => ¬ CountsAsCreated x
  | ⟨.increaseRetention _ _, x⟩ => x ≠ .ok ()
  | _ => False

def HasValidNames : Prop :=
  Names.isStream s.name = true ∧ (s.settings.partitionKey = KinesisSettings.randomKey ∨
    1 ≤ s.settings.partitionKey.utf8ByteSize ∧ s.settings.partitionKey.utf8ByteSize ≤ 256)

theorem hasValidKey_iff : s.hasValidKey = true ↔ s.settings.partitionKey = KinesisSettings.randomKey ∨
    1 ≤ s.settings.partitionKey.utf8ByteSize ∧ s.settings.partitionKey.utf8ByteSize ≤ 256 := by
  change _ ↔ _ ∨ 1 ≤ _ ∧ _ ≤ maxKeyBytes
  simp [hasValidKey, KinesisSettings.hasRandomKey]

def beingDeleted : Failure :=
  { message := "stream did not become active"
    causes := [.fault { kind := .resourceInUse, message := "stream is being deleted" }] }

/-- How setting a stream up ends. -/
def Concludes : Except Panic (Except Failure Unit) → List (Call api) → Prop
  | .ok (.ok ()), log => ¬ IsDoomed log ∧ ∃ status, IsReady status ∧ log.getLast? = some (s.saw (some status))
  | .ok (.error e), log => (s.HasValidNames → ∃ c, log.getLast? = some c ∧ FallsShort c) ∧
      (IsDoomed log → log.getLast? = some (s.saw (some .deleting)) ∧ e = beingDeleted)
  | .error _, log => ¬ IsDoomed log

def readiness (x : Except Fault (Option Status)) : Patience.Try Fault Unit :=
  match Patience.unlessTransient x with
  | .error f => .error f
  | .ok (some (some .active)) | .ok (some (some .updating)) => .ok (some ())
  | .ok (some (some .deleting)) => .error { kind := .resourceInUse, message := "stream is being deleted" }
  | .ok _ => .ok none

theorem becomesActive_eq : s.becomesActive = do return readiness (← ask (.describe s.name)) := by
  unfold becomesActive describe
  rw [bind_assoc]
  refine congrArg _ (funext fun x => ?_)
  rw [pure_bind]
  unfold readiness
  rcases Patience.unlessTransient x with f | _ | _ | status
  · rfl
  · rfl
  · rfl
  · cases status <;> rfl

theorem readiness_ready_iff {x : Except Fault (Option Status)} :
    readiness x = .ok (some ()) ↔ ∃ status, IsReady status ∧ x = .ok (some status) := by
  rcases x with f | _ | status
  · by_cases ht : f.isTransient = true <;> simp [readiness, Patience.unlessTransient, ht]
  · simp [readiness, Patience.unlessTransient]
  · cases status <;> simp [readiness, Patience.unlessTransient, IsReady]

variable {s} {W : Type} {g : Ground api W} {F : W → Prop} {log tries l : List (Call api)}

theorem looks_append : looks (log ++ l) = looks log ++ looks l := List.filterMap_append

theorem looks_eq_nil (h : ∀ c ∈ l, look? c = none) : looks l = [] := List.filterMap_eq_nil_iff.mpr h

/-- One who waits does not stop at a look that shows no more than that the stream is not ready. -/
theorem not_deleting_mem_looks (h : ∀ c ∈ tries, AsksAgain (A := api) (r := .describe s.name) readiness c) :
    some .deleting ∉ looks tries := by
  intro hm
  obtain ⟨c, hc, hl⟩ := List.mem_filterMap.mp hm
  obtain ⟨x, rfl, hx⟩ := h c hc
  cases x with
  | error f => cases hl
  | ok found =>
    cases hl
    cases hx

theorem HasLooked.isDoomed_append_iff (h : HasLooked log) : IsDoomed (log ++ l) ↔ some .deleting ∈ looks l := by
  unfold IsDoomed
  rw [looks_append, List.tail_append_of_ne_nil h.1, List.mem_append]
  exact or_iff_right h.2

theorem HasLooked.append (h : HasLooked log) (hl : some .deleting ∉ looks l) : HasLooked (log ++ l) := by
  refine ⟨?_, fun hd => hl (h.isDoomed_append_iff.mp hd)⟩
  rw [looks_append]
  exact List.append_ne_nil_of_left_ne_nil h.1 _

/-- Requests that are no looks change nothing of what has been seen. -/
theorem HasLooked.append_tries {α : Type} {r : Request} {f : r.Reply → Patience.Try Fault α} (h : HasLooked log)
    (hr : ∀ x, look? ⟨r, x⟩ = none) (htries : ∀ c ∈ tries, AsksAgain (A := api) f c) : HasLooked (log ++ tries) := by
  have hnone : looks tries = [] := looks_eq_nil fun c hc => by
    obtain ⟨x, rfl, -⟩ := htries c hc
    exact hr x
  exact h.append (by simp [hnone])

theorem HasLooked.of_tries {α : Type} {r : Request} {f : r.Reply → Patience.Try Fault α} {x : r.Reply}
    (h : HasLooked log) (hr : ∀ x, look? ⟨r, x⟩ = none) (hl : Tries (A := api) f log x l) : HasLooked l := by
  obtain ⟨tries, htries, rfl⟩ := hl
  rw [← List.append_assoc]
  exact (h.append_tries hr htries).append (by simp [looks, hr])

/-- Once one has waited for the stream, it is being deleted if the last look says so. -/
theorem HasLooked.isDoomed_iff (h : HasLooked log) {x : Except Fault (Option Status)}
    (hl : Tries (A := api) (r := .describe s.name) readiness log x l) : IsDoomed l ↔ x = .ok (some .deleting) := by
  obtain ⟨tries, htries, rfl⟩ := hl
  rw [h.isDoomed_append_iff, looks_append, List.mem_append, or_iff_right (not_deleting_mem_looks htries)]
  rcases x with f | found <;> simp [looks, look?, eq_comm]

theorem HasLooked.of_ready (h : HasLooked log) {status : Status} (hs : IsReady status)
    (hl : Tries (A := api) (r := .describe s.name) readiness log (.ok (some status)) l) : HasLooked l := by
  refine ⟨?_, fun hd => ?_⟩
  · obtain ⟨tries, -, rfl⟩ := hl
    rw [looks_append]
    exact List.append_ne_nil_of_left_ne_nil h.1 _
  · cases (h.isDoomed_iff hl).mp hd
    rcases hs with hs | hs <;> cases hs

theorem concludes_of_waiting (h : HasLooked log) {q : Patience} {x : Except Fault (Option Status)}
    (hl : Tries (A := api) (r := .describe s.name) readiness log x l) :
    s.Concludes (.ok (q.settle "stream did not become active" (readiness x))) l := by
  cases hx : q.settle "stream did not become active" (readiness x) with
  | ok u =>
    obtain ⟨status, hs, rfl⟩ := readiness_ready_iff.mp (Patience.settle_eq_ok.mp hx)
    exact ⟨(h.of_ready hs hl).2, status, hs, hl.getLast?_eq⟩
  | error e =>
    refine ⟨fun _ => ⟨_, hl.getLast?_eq, fun status hs h => ?_⟩, fun hd => ?_⟩
    · exact Patience.not_ready_of_settle_eq_error hx () (readiness_ready_iff.mpr ⟨status, hs, h⟩)
    · obtain rfl := (h.isDoomed_iff hl).mp hd
      cases hx
      exact ⟨hl.getLast?_eq, rfl⟩

/-- A last call other than a look shows nothing of the stream. -/
theorem concludes_of_tries {α : Type} {r : Request} {f : r.Reply → Patience.Try Fault α} {x : r.Reply} {e : Failure}
    (hl : Tries (A := api) f log x l) (hlooked : ¬ IsDoomed l) (hx : FallsShort ⟨r, x⟩) :
    s.Concludes (.ok (.error e)) l :=
  ⟨fun _ => ⟨_, hl.getLast?_eq, hx⟩, fun hd => absurd hd hlooked⟩

section
variable (hF : g.Keeps F)
include hF

theorem abides_waitUntilActive (h : HasLooked log) :
    Plan.Abides g F s.Allows s.waitUntilActive.run
      (fun r l => ∃ x : Except Fault (Option Status), Tries (A := api) (r := .describe s.name) readiness log x l ∧
        r = s.setup.settle "stream did not become active" (readiness x)) log :=
  Plan.abides_require (r := .describe s.name) hF s.becomesActive_eq
    fun _ htries => ⟨(h.append (not_deleting_mem_looks htries)).2, rfl⟩

theorem abides_create (h : HasLooked log) (hauto : s.settings.autoCreate = true) (hmissing : s.saw none ∈ log)
    (hnone : ∀ c ∈ log, c.request ≠ .create s.name s.settings.shards) :
    Plan.Abides g F s.Allows s.create.run (fun r l => s.Concludes (.ok r) l) log := by
  unfold create
  refine Plan.abides_log_bind hF (Plan.abides_require_bind (r := .create s.name s.settings.shards) hF rfl
    (fun tries htries => ⟨(h.append_tries (fun _ => rfl) htries).2, rfl, rfl, hauto,
      List.mem_append_left _ hmissing, fun x hx => not_countsAsCreated (reply_of_asksAgain htries hnone hx)⟩)
    (fun _ x l hl hx => ?_) fun e x l hl hx => ?_)
  · have hx := created_eq_ready_iff.mp hx
    have hlooked : HasLooked l := h.of_tries (fun _ => rfl) hl
    refine Plan.abides_attempt_bind (abides_waitUntilActive hF hlooked) ?_ ?_
    · rintro _ l' ⟨y, hl', hy⟩
      obtain ⟨status, hs, rfl⟩ := readiness_ready_iff.mp (Patience.settle_eq_ok.mp hy.symm)
      have hlooked' : HasLooked l' := hlooked.of_ready hs hl'
      have hready : [s.tried x, s.saw (some status)].Sublist l' := hl'.sublist (List.singleton_sublist.mpr hl.mem)
      split
      · exact Plan.abides_pure ⟨hlooked'.2, status, hs, hl'.getLast?_eq⟩
      · rename_i hours hh
        refine Plan.abides_require_bind (r := .increaseRetention s.name hours) hF rfl
          (fun tries htries => ⟨(hlooked'.append_tries (fun _ => rfl) htries).2, rfl, hh, x, status, hx, hs,
            hready.trans (List.sublist_append_left _ _)⟩) (fun _ z l'' hl'' _ => ?_) fun e z l'' hl'' hz => ?_
        · have hlooked'' : HasLooked l'' := hlooked'.of_tries (fun _ => rfl) hl''
          refine (abides_waitUntilActive hF hlooked'').mono ?_
          rintro _ l₃ ⟨y', hl₃, rfl⟩
          exact concludes_of_waiting hlooked'' hl₃
        · exact concludes_of_tries hl'' (hlooked'.of_tries (fun _ => rfl) hl'').2 (ne_ok_of_settle_eq_error hz ())
    · rintro e l' ⟨y, hl', hy⟩
      rw [hy]
      exact concludes_of_waiting hlooked hl'
  · exact concludes_of_tries hl (h.of_tries (fun _ => rfl) hl).2 (not_countsAsCreated_of_settle hx)

theorem abides_ensure : Plan.Abides g F s.Allows s.ensure.run (fun r l => s.Concludes (.ok r) l) [] := by
  -- what is asked again at first is a look that did not come about
  have hunseen : ∀ tries, (∀ c ∈ tries, AsksAgain (A := api) (r := .describe s.name) Patience.unlessTransient c) →
      looks tries = [] := by
    refine fun tries htries => looks_eq_nil fun c hc => ?_
    obtain ⟨x, rfl, hx⟩ := htries c hc
    cases x with
    | ok found => cases hx
    | error f => rfl
  have hfirst : ∀ {x l}, Tries (A := api) (r := .describe s.name) Patience.unlessTransient [] x l →
      looks l = looks [⟨.describe s.name, x⟩] := by
    rintro x l ⟨tries, htries, rfl⟩
    rw [List.nil_append, looks_append, hunseen tries htries, List.nil_append]
  unfold ensure
  refine Plan.abides_log_bind hF (Plan.abides_require_bind (r := .describe s.name) hF rfl
    (fun tries htries => ⟨by simp [IsDoomed, hunseen tries htries], rfl⟩) (fun found x l hl hx => ?_)
    fun e x l hl hx => ?_)
  · obtain rfl := Patience.unlessTransient_eq_ready_iff.mp hx
    have hlooks : looks l = [found] := hfirst hl
    have hlooked : HasLooked l := ⟨by simp [hlooks], by simp [IsDoomed, hlooks]⟩
    cases found with
    | some status =>
      refine (abides_waitUntilActive hF hlooked).mono ?_
      rintro _ l' ⟨y, hl', rfl⟩
      exact concludes_of_waiting hlooked hl'
    | none =>
      dsimp only
      split
      · rename_i hauto
        exact abides_create hF hlooked hauto hl.mem (hl.request_ne (by simp) (by simp))
      · exact Plan.abides_pure (concludes_of_tries hl hlooked.2 fun status _ => by simp)
  · have hdoomed : ¬ IsDoomed l := by
      unfold IsDoomed
      rw [hfirst hl]
      cases x <;> exact List.not_mem_nil
    exact concludes_of_tries hl hdoomed fun status _ => ne_ok_of_settle_eq_error hx (some status)

theorem abides_makeAvailable :
    Plan.Abides g F s.Allows s.makeAvailable (fun r l => s.Concludes (.ok r) l) [] := by
  unfold makeAvailable
  split
  · rename_i hname
    refine Plan.abides_pure ⟨fun h => ?_, by simp [IsDoomed, looks]⟩
    simp [h.1] at hname
  · split
    · rename_i hkey
      refine Plan.abides_pure ⟨fun h => ?_, by simp [IsDoomed, looks]⟩
      simp [s.hasValidKey_iff.mpr h.2] at hkey
    · exact abides_ensure hF

end

/-- Whatever the service answers, a stream is readied by the rules. No request is made for a stream whose name or
key is invalid. The stream is created only once it has been found missing, only if it may be, and not again when
it has been created or was there; its retention period is raised only once it has been created and seen ready.
Once a look after the first one has shown it being deleted no request follows and the call fails for that reason.
Success comes with the last call, which shows a stream that is ready, and otherwise the last call of a stream with
a valid name and key is one that fell short. -/
theorem readied_by_protocol (s : Stream) (g : Ground api W) (w : W) :
    (¬ s.HasValidNames → (destination s).makeAvailable.calls g.recorded (w, []) = [] ∧
      ∃ e, (destination s).makeAvailable.run g w = (.ok (.error e), w)) ∧
    (∀ v log r, ((v, log), r) ∈ (destination s).makeAvailable.calls g.recorded (w, []) → s.Allows log r) ∧
    ∀ result v, (destination s).makeAvailable.run g w = (result, v) → ∃ log,
      (destination s).makeAvailable.run g.recorded (w, []) = (result, v, log) ∧ s.Concludes result log := by
  have hF : g.Keeps fun _ => True := ⟨fun _ _ => id, fun _ _ => id, fun _ => id, fun _ _ => id⟩
  have hleads := abides_makeAvailable (s := s) hF w trivial
  refine ⟨fun hnames => ?_, fun v log r hc => hleads.asks _ hc, fun result v hr => ?_⟩
  · change s.makeAvailable.calls g.recorded (w, []) = [] ∧ ∃ e, s.makeAvailable.run g w = (.ok (.error e), w)
    unfold makeAvailable
    split
    · exact ⟨rfl, _, rfl⟩
    · split
      · exact ⟨rfl, _, rfl⟩
      · rename_i hname hkey
        exact absurd ⟨by simpa using hname, s.hasValidKey_iff.mp (by simpa using hkey)⟩ hnames
  · obtain ⟨log, hlog⟩ := Plan.exists_record hr []
    refine ⟨log, hlog, ?_⟩
    cases result with
    | ok r => exact (hleads.ends r _ hlog).2
    | error q =>
      obtain ⟨-, r, hallowed, -⟩ := hleads.breaks q _ hlog
      exact hallowed

def fleeting : Ground api (Nat × Option String) := .ticking answer
where
  answer : (r : Request) → Nat → r.Reply
    | .describe _, n => .ok (if n = 0 then none else if n = 2 then some .creating else some .deleting)
    | .create _ _, _ => .ok ()
    | .increaseRetention _ _, _ => .ok ()
    | .putRecords _ _, _ => .error { kind := .other, message := "not now" }
    | .close, _ => ()

def hourly : Stream where
  settings := { stream := "clicks", partitionKey := "k", autoCreate := true, retentionHours := some 48 }
  setup := { initialDelay := 1, timeout := 5, exponential := false }
  sending := { initialDelay := 1, timeout := 5, exponential := false }

example : ∃ log, (destination hourly).makeAvailable.run fleeting.recorded ((0, none), []) =
      (.ok (.error beingDeleted), (5, none), log) ∧
    log.map (·.request) = [.describe "clicks", .create "clicks" 1, .describe "clicks", .describe "clicks"] :=
  ⟨_, rfl, rfl⟩

end Stream

end Kinesis

end LogRelay
