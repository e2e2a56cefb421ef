import LogRelay.Appender
import LogRelay.Proofs.Limits
import LogRelay.Proofs.Provision
import LogRelay.Proofs.Stages

/-!
# Room in a record

The partition key takes up a part of every record, and a message may have the rest. How much that is has been worked
out before anyone looks at the key. For a key that fits in a record it is a true difference, and no record gets too
large; for a longer key making a writer panics. Such a key is no valid one, and with a key or a name that is not valid
a writer never becomes available.
-/

namespace LogRelay

/-! ## What a writer is told of its destination -/

namespace Writer

variable {μ : Measure} {now : Instant} {w : Writer} {r : Writer × List Notice} {e : Event}

theorem turn_available (progressed last : Bool) (w : Writer) :
    (w.turn progressed last).1.available = w.available := by
  unfold turn
  repeat' split
  all_goals rfl

theorem panicked_available (p : Panic) (w : Writer) : (w.panicked p).1.available = w.available := by
  unfold panicked
  repeat' split
  all_goals rfl

theorem add_available (m : Message) (now : Instant) (w : Writer) : (w.add m now).1.available = w.available := by
  rw [add_fst]
  split
  · unfold queue
    dsimp only
    split <;> rfl
  · rfl

theorem stop_available (now : Instant) (w : Writer) : (w.stop now).1.available = w.available := by
  unfold stop
  dsimp only
  repeat' split
  all_goals rfl

theorem start_available (w : Writer) : w.start.available = w.available := by
  unfold start
  split <;> rfl

theorem Move.available (h : w.Move μ now r) : r.1.available = w.available := by
  cases h with
  | balk | spill => exact panicked_available _ _
  | interrupted | expire => exact turn_available _ _ _
  | _ => rfl

theorem sent_available (batch : List Message) (last : Bool) (result : Except Panic (Except Failure (List Nat)))
    (w : Writer) : (w.sent batch last result).1.available = w.available := by
  rw [sent_fst]
  exact turn_available _ _ _

theorem checked_available {result : Except Panic (Except Failure Unit)} (h : result ≠ .ok (.ok ())) (w : Writer) :
    (w.checked result).1.available = w.available := by
  rcases result with p | e | u
  · rfl
  · rfl
  · exact absurd rfl h

theorem closed_available (result : Except Panic Unit) (w : Writer) :
    (w.closed result).1.available = w.available := by
  cases result with
  | ok _ => rfl
  | error p => exact panicked_available p w

theorem respond_available (hready : e ≠ .checked (.ok (.ok ()))) (h : w.respond μ now e = some r) :
    r.1.available = w.available := by
  cases e with
  | add m =>
    simp only [respond] at h
    split at h
    · cases h
    · cases h
      exact add_available m now w
  | stop =>
    simp only [respond] at h
    split at h
    · cases h
    · cases h
      exact stop_available now w
  | start =>
    cases h
    exact start_available w
  | setBatchDelay _ | setThreshold _ | setAction _ | setFailure _ =>
    cases h
    rfl
  | go => exact (respond_go h).available
  | checked result =>
    obtain ⟨-, rfl⟩ := respond_checked h
    apply checked_available
    rintro rfl
    exact hready rfl
  | sent result =>
    obtain ⟨batch, last, -, rfl⟩ := respond_sent h
    exact sent_available batch last result w
  | closed result =>
    obtain ⟨-, rfl⟩ := respond_closed h
    exact closed_available result w

end Writer

/-- A check of the destination that comes to an end ends as making the destination `d` available may end. -/
def Event.IsAnswerOf {A : Api} (d : Destination A) : Event → Prop
  | .checked (.ok result) => ∃ log, d.makeAvailable.Ends log result
  | _ => True

namespace Course

variable {μ : Measure} {es : List Moment} {c c' : Course}

theorem run_available (hready : ∀ x ∈ es, x.event ≠ .checked (.ok (.ok ()))) (h : c.run μ es = some c') :
    c'.writer.available = c.writer.available := by
  induction es generalizing c with
  | nil =>
    cases h
    rfl
  | cons x es ih =>
    obtain ⟨c₁, h₁, h₂⟩ := run_cons h
    obtain ⟨r, hr, hw, -⟩ := step_respond h₁
    have hstep := Writer.respond_available (hready x (by simp)) hr
    rw [← hw] at hstep
    rw [ih (fun y hy => hready y (List.mem_cons_of_mem x hy)) h₂, hstep]

theorem run_unavailable {A : Api} {d : Destination A} {e : Failure} (hplan : d.makeAvailable = pure (.error e))
    (htold : ∀ x ∈ es, x.event.IsAnswerOf d) (h : c.run μ es = some c') :
    c'.writer.available = c.writer.available := by
  apply run_available _ h
  intro x hx hready
  have hanswer := htold x hx
  rw [hready] at hanswer
  obtain ⟨log, hends⟩ := hanswer
  rw [hplan, Plan.ends_pure] at hends
  cases hends.2

end Course

/-! ## Keys and what they leave -/

namespace Kinesis.Stream

variable {s : Stream}

theorem not_hasValidNames_of_long (h : maxKeyBytes < s.keySize) : ¬ s.HasValidNames := by
  intro hvalid
  have hkey := keySize_le (hvalid.2.imp_left beq_iff_eq.mpr)
  exact absurd hkey (Nat.not_le.mpr h)

def refusal (s : Stream) : Failure := if Names.isStream s.name then s.invalidKey else s.invalidName

theorem makeAvailable_of_invalid (h : ¬ s.HasValidNames) : s.makeAvailable = pure (.error s.refusal) := by
  unfold makeAvailable refusal
  by_cases hname : Names.isStream s.name = true
  · have hkey : s.hasValidKey = false := by
      rw [← Bool.not_eq_true]
      intro hkey
      exact h ⟨hname, s.hasValidKey_iff.mp hkey⟩
    simp only [hname, hkey]
    rfl
  · simp only [hname]
    rfl

theorem records_fit {limit : Nat} (hlimit : s.maxMessageSize = .ok limit) {settings : Settings} {d : Diagnostics}
    {es : List Moment} {c : Course} (h : (Course.new settings limit d).run (destination s).toMeasure es = some c)
    {m : Message} (hm : m ∈ c.writer.held ++ c.writer.backlog.toList) {log : List (Call api)} {r : Record}
    (hr : (s.record m).Ends log r) : r.bytes ≤ maxRecordBytes := by
  obtain ⟨hwriter, hmax⟩ := Course.run_fits (fun m hm => allows_alone hlimit hm) h
  have hsize := hwriter.sizes m hm
  rw [hmax] at hsize
  obtain ⟨-, -, hbytes⟩ := of_ends_record hr
  have hrest := maxMessageSize_eq_ok_iff.mp hlimit
  omega

end Kinesis.Stream

/-! ## Writers of any settings -/

namespace Services

open Kinesis (maxRecordBytes)

/-- The data stream that the settings ask for if they have `k` for a target. -/
def streamOf (s : Settings) (k : KinesisSettings) : Kinesis.Stream where
  settings := k
  setup := (Patiences.ofSettings s).setup
  sending := (Patiences.ofSettings s).sending

def connected (s : Settings) (k : KinesisSettings) : Destination api :=
  (Kinesis.destination (streamOf s k)).within Request.kinesis fun _ reply => reply

variable {s : Settings} {k : KinesisSettings}

theorem connect_kinesis (hk : s.target = .kinesis k) (c : Clients) :
    connect c s = if c.kinesis then .ok (connected s k) else .error (noClient "Kinesis") := by
  unfold connect connect.made
  rw [hk]
  rfl

theorem connected_maxMessageSize (s : Settings) (k : KinesisSettings) :
    (connected s k).maxMessageSize = (streamOf s k).maxMessageSize := rfl

theorem connected_makeAvailable {e : Failure} (h : (streamOf s k).makeAvailable = pure (.error e)) :
    (connected s k).makeAvailable = pure (.error e) := by
  unfold connected Destination.within
  dsimp only
  rw [show (Kinesis.destination (streamOf s k)).makeAvailable = pure (.error e) from h]
  rfl

section
variable {σ : Type} (env : Environment api σ) (c : Clients) (w : World api σ)
  (hmade : (env.connect s w.now w.outside).1 = connect c s)
include hmade

theorem connect_of_error {e : Failure} (he : connect c s = .error e) :
    (Appender.connect env s w).1 = .ok (.error e) ∧ (Appender.connect env s w).2.cells = w.cells := by
  rw [he] at hmade
  unfold Appender.connect
  simp only [hmade, and_self]

variable {d : Destination api} (hd : connect c s = .ok d)
include hd

theorem connect_of_panic {p : Panic} (hp : d.maxMessageSize = .error p) :
    (Appender.connect env s w).1 = .error p ∧ (Appender.connect env s w).2.cells = w.cells := by
  rw [hd] at hmade
  unfold Appender.connect
  simp only [hmade, hp, and_self]

theorem connect_of_limit {limit : Nat} (hlimit : d.maxMessageSize = .ok limit) :
    (Appender.connect env s w).1 = .ok (.ok w.cells.size) ∧
      (Appender.connect env s w).2.cells = w.cells.push { writer := Writer.create s limit, destination := d } := by
  rw [hd] at hmade
  unfold Appender.connect
  simp only [hmade, hlimit, and_self]

end

/-- What becomes of a writer for a data stream. Without a client there is none. With a key that is longer than a record,
which is no valid one, making it panics. Otherwise its limit is what the key leaves of a record, and no record that it
sends is too large; with a name or a key that is not valid it never gets available. -/
theorem limit_is_rest_of_record {σ : Type} (env : Environment api σ) (c : Clients) (w : World api σ)
    (hk : s.target = .kinesis k) (hmade : (env.connect s w.now w.outside).1 = connect c s) :
    (c.kinesis = false ∧ (Appender.connect env s w).1 = .ok (.error (noClient "Kinesis")) ∧
      (Appender.connect env s w).2.cells = w.cells) ∨
    (c.kinesis = true ∧ maxRecordBytes < (streamOf s k).keySize ∧ ¬ (streamOf s k).HasValidNames ∧
      (Appender.connect env s w).1 = .error .differenceTooSmall ∧ (Appender.connect env s w).2.cells = w.cells) ∨
    ∃ limit, c.kinesis = true ∧ limit + (streamOf s k).keySize = maxRecordBytes ∧
      (Appender.connect env s w).1 = .ok (.ok w.cells.size) ∧
      (Appender.connect env s w).2.cells =
        w.cells.push { writer := Writer.create s limit, destination := connected s k } ∧
      (∀ diagnostics es c', (Course.new s limit diagnostics).run (connected s k).toMeasure es = some c' →
        ∀ m ∈ c'.writer.held ++ c'.writer.backlog.toList, ∀ log r,
          ((streamOf s k).record m).Ends log r → r.bytes ≤ maxRecordBytes) ∧
      (¬ (streamOf s k).HasValidNames →
        (connected s k).makeAvailable = pure (.error (streamOf s k).refusal) ∧ ∀ diagnostics es c',
          (Course.new s limit diagnostics).run (connected s k).toMeasure es = some c' →
          (∀ x ∈ es, x.event.IsAnswerOf (connected s k)) → c'.writer.available = false) := by
  have hconnect := connect_kinesis hk c
  by_cases hc : c.kinesis = true
  · right
    rw [if_pos hc] at hconnect
    by_cases hfits : (streamOf s k).keySize ≤ maxRecordBytes
    · right
      have hrest := Nat.sub_add_cancel hfits
      have hlimit := Kinesis.Stream.maxMessageSize_eq_ok_iff.mpr hrest
      obtain ⟨hplace, hcells⟩ := connect_of_limit env c w hmade hconnect hlimit
      refine ⟨_, hc, hrest, hplace, hcells, ?_, ?_⟩
      · intro diagnostics es c' hrun m hm log r hr
        exact Kinesis.Stream.records_fit hlimit hrun hm hr
      · intro hinvalid
        have hplan := connected_makeAvailable (Kinesis.Stream.makeAvailable_of_invalid hinvalid)
        refine ⟨hplan, ?_⟩
        intro diagnostics es c' hrun htold
        exact Course.run_unavailable hplan htold hrun
    · left
      have hlong := Nat.lt_of_not_le hfits
      have hkeys : Kinesis.maxKeyBytes < maxRecordBytes := by decide
      have hinvalid := Kinesis.Stream.not_hasValidNames_of_long (Nat.lt_trans hkeys hlong)
      have hlimit := Kinesis.Stream.maxMessageSize_of_overlong hlong
      exact ⟨hc, hlong, hinvalid, connect_of_panic env c w hmade hconnect hlimit⟩
  · left
    rw [if_neg hc] at hconnect
    obtain ⟨hresult, hcells⟩ := connect_of_error env c w hmade hconnect
    exact ⟨by simpa using hc, hresult, hcells⟩

def repeated (n : Nat) : KinesisSettings := { stream := "logs", partitionKey := String.ofList (List.replicate n 'k') }

def keyed (n : Nat) : Settings := { target := .kinesis (repeated n), truncateOversize := false }

theorem bytes_repeated (n : Nat) : (repeated n).partitionKey.utf8ByteSize = n := by
  unfold repeated
  dsimp only
  rw [Text.bytes_of_small, List.length_replicate]
  intro c hc
  rw [List.eq_of_mem_replicate hc]
  rfl

theorem keySize_repeated {n : Nat} (hn : Kinesis.randomKeyBytes < n) (s : Settings) :
    (streamOf s (repeated n)).keySize = n := by
  unfold Kinesis.Stream.keySize
  split
  · rename_i hrandom
    have hbytes := bytes_repeated n
    rw [show (repeated n).partitionKey = KinesisSettings.randomKey from beq_iff_eq.mp hrandom] at hbytes
    rw [← hbytes] at hn
    exact absurd hn (by decide +kernel)
  · exact bytes_repeated n

def silent : Environment api Unit where
  ask _ _ _ o := (⟨none, fun o => (.error ⟨none⟩, o)⟩, o)
  draw o := (0, o)
  connect s _ o := (connect {} s, o)
  spawn o := (.ok (), o)

def still : World api Unit := { epoch := ⟨0⟩, host := ⟨⟨0⟩, 1, {}⟩, outside := () }

theorem made_by_silent (s : Settings) : (silent.connect s still.now still.outside).1 = connect {} s := rfl

def obstinate (n : Nat) : List Moment :=
  [.add ⟨⟨0⟩, "early"⟩, .start, .checked (.ok (.error (streamOf (keyed n) (repeated n)).refusal)),
    .setThreshold 5, .add ⟨⟨1⟩, "late"⟩].map (⟨0, ⟨0⟩, ·⟩)

theorem limit_is_rest_of_record_obstinate :
    (keyed 300).target = .kinesis (repeated 300) ∧
    (silent.connect (keyed 300) still.now still.outside).1 = connect {} (keyed 300) ∧
    ∃ limit c, limit + 300 = maxRecordBytes ∧ (Appender.connect silent (keyed 300) still).1 = .ok (.ok 0) ∧
      (Course.new (keyed 300) limit {}).run (connected (keyed 300) (repeated 300)).toMeasure (obstinate 300) = some c ∧
      c.writer.backlog.toList = [⟨⟨1⟩, "late"⟩] ∧ c.writer.available = false ∧
      ∀ log r, ((streamOf (keyed 300) (repeated 300)).record ⟨⟨1⟩, "late"⟩).Ends log r →
        r.bytes ≤ maxRecordBytes := by
  have hkey : (streamOf (keyed 300) (repeated 300)).keySize = 300 := keySize_repeated (by decide) _
  have hmade := made_by_silent (keyed 300)
  have hinvalid : ¬ (streamOf (keyed 300) (repeated 300)).HasValidNames := by
    apply Kinesis.Stream.not_hasValidNames_of_long
    rw [hkey]
    decide
  obtain ⟨hnone, -⟩ | ⟨-, hlong, -⟩ | ⟨limit, -, hrest, hplace, -, hrecords, hfail⟩ :=
    limit_is_rest_of_record (s := keyed 300) (k := repeated 300) silent {} still rfl hmade
  · cases hnone
  · rw [hkey] at hlong
    exact absurd hlong (by decide)
  rw [hkey] at hrest
  obtain rfl : limit = 1048276 := by
    unfold maxRecordBytes at hrest
    omega
  have hrun : ((Course.new (keyed 300) 1048276 {}).run (connected (keyed 300) (repeated 300)).toMeasure
      (obstinate 300)).map (·.writer.backlog.toList) = some [⟨⟨1⟩, "late"⟩] := by
    decide +kernel
  obtain ⟨c, hc, hlate⟩ := Option.map_eq_some_iff.mp hrun
  refine ⟨rfl, hmade, 1048276, c, hrest, hplace, hc, hlate, ?_, ?_⟩
  · obtain ⟨hplan, hnever⟩ := hfail hinvalid
    apply hnever {} (obstinate 300) c hc
    simp only [obstinate, List.map_cons, List.map_nil, List.forall_mem_cons]
    refine ⟨trivial, trivial, ⟨[], ?_⟩, trivial, trivial, nofun⟩
    rw [hplan, Plan.ends_pure]
    exact ⟨rfl, rfl⟩
  · apply hrecords {} (obstinate 300) c hc
    rw [hlate]
    exact List.mem_append_right _ (List.mem_singleton.mpr rfl)

/-- With a key one byte longer than a record there comes to be no writer, and no failure either: making it panics. -/
theorem overlong_key_panics :
    (streamOf (keyed 1048577) (repeated 1048577)).keySize = maxRecordBytes + 1 ∧
    (silent.connect (keyed 1048577) still.now still.outside).1 = .ok (connected (keyed 1048577) (repeated 1048577)) ∧
    (Appender.connect silent (keyed 1048577) still).1 = .error .differenceTooSmall ∧
    (Appender.connect silent (keyed 1048577) still).2.cells.size = 0 := by
  have hkey : (streamOf (keyed 1048577) (repeated 1048577)).keySize = maxRecordBytes + 1 :=
    keySize_repeated (by decide) _
  have hconnect : connect {} (keyed 1048577) = .ok (connected (keyed 1048577) (repeated 1048577)) := by
    rw [connect_kinesis rfl, if_pos rfl]
  have hlimit := (connected_maxMessageSize (keyed 1048577) (repeated 1048577)).trans
    (Kinesis.Stream.maxMessageSize_of_overlong (by omega))
  obtain ⟨hpanic, hcells⟩ := connect_of_panic silent {} still (made_by_silent _) hconnect hlimit
  refine ⟨hkey, hconnect, hpanic, ?_⟩
  rw [hcells]
  rfl

end Services

end LogRelay
