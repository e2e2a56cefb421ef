import LogRelay.Proofs.Keeping
import LogRelay.Simulation.CloudWatchService

/-!
# Tokens that are never stale

A destination is set up and sends batches in any order, and between its uses and its requests the stream
may be deleted. While the stream exists the destination never presents a token that is not the current
one, whether it is the only one to write to the stream by its settings or just happens to be.
-/

namespace LogRelay.CloudWatch

/-! ## The model of the service keeps tokens -/

namespace Service

variable {sv : Service} {group stream : String}

theorem find?_setToken {token : Option String} :
    ((sv.setToken group stream token).find? group stream).map (·.token) = some token := by
  unfold setToken
  split
  · rename_i hs
    obtain ⟨x, hx⟩ := Option.isSome_iff_exists.mp hs
    have hp := List.find?_some hx
    have hkeeps : (fun x : StreamState => x.group == group && x.stream == stream) ∘
        (fun x => if x.group == group && x.stream == stream then { x with token } else x) =
        fun x => x.group == group && x.stream == stream := by
      funext y
      dsimp only [Function.comp]
      split <;> rfl
    unfold find? at hx ⊢
    rw [List.find?_map, hkeeps, hx, Option.map_some, Option.map_some, if_pos hp]
  · rename_i hs
    rw [Bool.not_eq_true, Option.isSome_eq_false_iff, Option.isNone_iff_eq_none] at hs
    unfold find? at hs ⊢
    rw [List.find?_append, hs]
    simp

theorem put_accepted {p : Put} {reply : PutReply} {after : Service} (hc : sv.checksTokens = true)
    (h : sv.put p = (.ok reply, after)) :
    (sv.find? p.group p.stream).map (·.token) = some p.token ∧
      ∃ t, reply.nextToken = some t ∧ (after.find? p.group p.stream).map (·.token) = some (some t) := by
  unfold put at h
  split at h
  · cases h
  · rename_i state hs
    split at h
    · cases h
    · rename_i hn
      cases h
      have heq : p.token = state.token := by simpa [hc] using hn
      exact ⟨by rw [hs, heq]; rfl, _, rfl, find?_setToken⟩

theorem put_refused {p : Put} {f : Fault} {after : Service} (h : sv.put p = (.error f, after)) :
    after = sv ∧ (f.kind = .invalidSequenceToken →
      ∃ token, (sv.find? p.group p.stream).map (·.token) = some token ∧ p.token ≠ token) := by
  unfold put at h
  split at h
  · cases h
    exact ⟨rfl, fun hf => by cases hf⟩
  · rename_i state hs
    split at h
    · rename_i hn
      cases h
      refine ⟨rfl, fun _ => ⟨state.token, by rw [hs]; rfl, ?_⟩⟩
      rw [Bool.and_eq_true] at hn
      exact bne_iff_ne.mp hn.2
    · cases h

end Service

structure Bench where
  service : Service
  memory : Option String := none
  busy : Nat := 0
  clock : Instant := 0

namespace Bench

def slowDown : Fault := { kind := .throttled, message := "slow down" }

def answer (b : Bench) : (r : Request) → r.Reply × Bench
  | .putEvents p =>
    match b.busy with
    | n + 1 => (.error slowDown, { b with busy := n })
    | 0 =>
      let (reply, service) := { b.service with checksTokens := true }.put p
      (reply, { b with service })
  | r =>
    let (reply, service) := b.service.reply r
    (reply, { b with service })

def ground : Ground api Bench where
  now b := b.clock
  elapse d b := { b with clock := b.clock + d }
  note _ b := b
  consult b := b.memory
  remember m b := { b with memory := m }
  draw b := (0, b)
  call r b := (.ok (b.answer r).1, (b.answer r).2)

def view (s : Stream) (b : Bench) : Option (Option String) := (b.service.find? s.group s.stream).map (·.token)

def wipe (b : Bench) : Bench := { b with service := b.service.wipe }

theorem answer_putEvents (b : Bench) (p : Put) :
    (∃ n, b.busy = n + 1 ∧ b.answer (.putEvents p) = (.error slowDown, { b with busy := n })) ∨
    b.answer (.putEvents p) = (({ b.service with checksTokens := true }.put p).1,
      { b with service := ({ b.service with checksTokens := true }.put p).2 }) := by
  cases hb : b.busy with
  | zero => exact .inr (by simp only [answer, hb])
  | succ n => exact .inl ⟨n, rfl, by simp only [answer, hb]⟩

theorem keeper (s : Stream) : Keeper s ground (view s) where
  consult_remember _ _ := rfl
  view_remember _ _ := .inl rfl
  elapse _ _ := ⟨rfl, .inl rfl⟩
  note _ _ := ⟨rfl, .inl rfl⟩
  consult_call r b := by
    cases r with
    | putEvents p =>
      rcases b.answer_putEvents p with ⟨n, -, h⟩ | h <;> simp only [ground, h]
    | _ => rfl
  passive r b hr := by
    cases r with
    | putEvents p => cases hr
    | createStream group stream => cases hr
    | createGroup group =>
      left
      simp only [ground, answer, Service.reply, Service.createGroup]
      split <;> rfl
    | _ => exact .inl rfl
  describes _ := rfl
  creates b h := by
    right
    have hf : (b.service.find? s.group s.stream).isSome = false := by simpa [view] using h
    simp only [ground, answer, Service.reply, Service.createStream, hf, Bool.false_eq_true, if_false]
  accepts p b reply b' hgroup hstream h := by
    rcases b.answer_putEvents p with ⟨n, -, ha⟩ | ha
    · simp only [ground, ha] at h
      cases h
    · cases hp : Service.put p { b.service with checksTokens := true } with
      | mk result after =>
        rw [hp] at ha
        simp only [ground, ha] at h
        cases h
        obtain ⟨hb, t, ht, hafter⟩ := Service.put_accepted rfl hp
        rw [hgroup, hstream] at hb hafter
        exact ⟨hb, t, ht, .inl hafter⟩
  refuses p b hgroup hstream h := by
    left
    rcases b.answer_putEvents p with ⟨n, -, ha⟩ | ha
    · simp only [ground, ha, view]
    · cases hp : Service.put p { b.service with checksTokens := true } with
      | mk result after =>
        rw [hp] at ha
        cases result with
        | ok reply => exact absurd (by simp only [ground, ha]) (h reply)
        | error f =>
          simp only [ground, ha, view, (Service.put_refused hp).1]
          rfl
  blames p b f hgroup hstream h hf := by
    rcases b.answer_putEvents p with ⟨n, -, ha⟩ | ha
    · simp only [ground, ha] at h
      cases h
      cases hf
    · cases hp : Service.put p { b.service with checksTokens := true } with
      | mk result after =>
        rw [hp] at ha
        simp only [ground, ha] at h
        cases h
        have hb := (Service.put_refused hp).2 hf
        rwa [hgroup, hstream] at hb

end Bench

/-! ## Every use of a destination -/

section
variable {W : Type}

/-- What a writer does with its destination until it shuts it down. -/
inductive Use
  | ensure
  | send (batch : List Message)

namespace Use

def calls (s : Stream) (g : Ground api W) : Use → W → List (W × Request)
  | ensure, w => (destination s).makeAvailable.calls g w
  | send batch, w => ((destination s).send batch).calls g w

def after (s : Stream) (g : Ground api W) : Use → W → W
  | ensure, w => ((destination s).makeAvailable.run g w).2
  | send batch, w => (((destination s).send batch).run g w).2

def Panics (s : Stream) (g : Ground api W) : Use → W → Prop
  | ensure, w => ∃ q, ((destination s).makeAvailable.run g w).1 = .error q
  | send batch, w => ∃ q, (((destination s).send batch).run g w).1 = .error q

end Use

/-- The states between the uses of a destination that has nothing in memory at first. A use that a panic
breaks off leaves a clock that is not at its end. -/
inductive Reached (s : Stream) (g : Ground api W) (view : W → Option (Option String)) : W → Prop
  | start {w : W} (h : g.consult w = none) : Reached s g view w
  | use {w : W} (h : Reached s g view w) (u : Use) (hclock : u.Panics s g w → s.setup.Fits (g.now (u.after s g w))) :
    Reached s g view (u.after s g w)
  | meanwhile {w w' : W} (h : Reached s g view w) (hm : Meanwhile g view w w') : Reached s g view w'

section
variable {s : Stream} {g : Ground api W} {view : W → Option (Option String)} {w : W} (hk : Keeper s g view)
include hk

theorem Use.presents (h : NotStale g view w) (u : Use) : ∀ c ∈ u.calls s g w, Presents s view c.1 c.2 := by
  cases u with
  | ensure => exact (safe_makeAvailable hk h).asks
  | send batch => exact (safe_send hk h).asks

theorem Use.notStale_after (h : NotStale g view w) (u : Use)
    (hclock : u.Panics s g w → s.setup.Fits (g.now (u.after s g w))) : NotStale g view (u.after s g w) := by
  cases u with
  | ensure => exact (safe_makeAvailable hk h).notStale (fun _ _ hv => hv.notStale) hclock
  | send batch => exact (safe_send hk h).notStale (fun _ _ hv => hv.1) hclock

theorem Reached.notStale (h : Reached s g view w) : NotStale g view w := by
  induction h with
  | start h => exact notStale_of_forgotten h
  | use _ u hclock ih => exact u.notStale_after hk ih hclock
  | meanwhile _ hm ih => exact ih.meanwhile hm

/-- However a destination is used, whatever fails and whenever the stream is deleted, a batch that meets
an existing stream carries the token of that stream, so no token is ever called invalid. A batch that
has been taken leaves the token of the stream in memory. -/
theorem token_never_stale (hw : Reached s g view w) :
    (∀ u : Use, ∀ c ∈ u.calls s g w, ∀ p, c.2 = .putEvents p →
      p.group = s.group ∧ p.stream = s.stream ∧ (∀ token, view c.1 = some token → p.token = token) ∧
      ∀ f w', g.call (.putEvents p) c.1 = (.ok (.error f), w') → f.kind ≠ .invalidSequenceToken) ∧
    ∀ batch positions w', batch ≠ [] → ((destination s).send batch).run g w = (.ok (.ok positions), w') →
      ∀ token, view w' = some token → g.consult w' = token := by
  have hn := hw.notStale hk
  constructor
  · intro u c hc p hp
    have hpresents := u.presents hk hn c hc
    rw [hp] at hpresents
    obtain ⟨hgroup, hstream, htoken⟩ := hpresents
    refine ⟨hgroup, hstream, htoken, ?_⟩
    intro f w' hcall hf
    obtain ⟨token, ht, hne⟩ := hk.blames p c.1 f hgroup hstream (by rw [hcall]) hf
    exact hne (htoken token ht)
  · intro batch positions w' hb hr
    exact ((safe_send hk hn).ends _ w' hr).2 hb

end

end

def hasty : Stream where
  settings := { logGroup := "app", logStream := "main" }
  setup := { initialDelay := 1, timeout := 5, exponential := false }
  sending := { initialDelay := 1, timeout := 5, exponential := false }

def greeting : List Message := [{ time := ⟨0⟩, text := "hello" }]

def taken : Bench :=
  Use.after hasty Bench.ground (.send greeting) (Use.after hasty Bench.ground .ensure { service := {}, busy := 2 })

def recreated : Bench :=
  Use.after hasty Bench.ground (.send greeting) (Use.after hasty Bench.ground (.send greeting) taken.wipe)

theorem token_never_stale_recreated :
    Keeper hasty Bench.ground (Bench.view hasty) ∧ Reached hasty Bench.ground (Bench.view hasty) recreated ∧
    (∃ p, (Use.send greeting).calls hasty Bench.ground recreated = [(recreated, .putEvents p)] ∧
      Bench.view hasty recreated = some (some "token-2") ∧ p.token = some "token-2") ∧
    ∃ b, ((destination hasty).send greeting).run Bench.ground recreated = (.ok (.ok []), b) ∧
      Bench.view hasty b = some (some "token-3") ∧ b.memory = some "token-3" := by
  have hk := Bench.keeper hasty
  have htaken : Reached hasty Bench.ground (Bench.view hasty) taken :=
    .use (.use (.start rfl) .ensure fun _ => by decide) _ fun _ => by decide
  have hwiped : Reached hasty Bench.ground (Bench.view hasty) taken.wipe := .meanwhile htaken ⟨rfl, .inr rfl⟩
  have hw : Reached hasty Bench.ground (Bench.view hasty) recreated :=
    .use (.use hwiped _ fun _ => by decide) _ fun _ => by decide
  obtain ⟨hput, hkept⟩ := token_never_stale hk hw
  refine ⟨hk, hw, ⟨_, rfl, rfl, ?_⟩, ⟨_, rfl, rfl, ?_⟩⟩
  · obtain ⟨-, -, htoken, -⟩ := hput (.send greeting) _ (List.mem_singleton_self _) _ rfl
    exact htoken _ rfl
  · exact hkept greeting [] _ (by simp [greeting]) rfl _ rfl

end LogRelay.CloudWatch
