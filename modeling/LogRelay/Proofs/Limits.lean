import LogRelay.Delivery.Services
import LogRelay.Proofs.Course
import LogRelay.Proofs.Records

/-!
# Batches within the limits

Messages are cut or dropped before they are queued, so no message that a writer has is larger than
its destination takes. One such message fits in a batch, and a batch only grows while it fits. What
is sent back and queued again is subject to nothing else.
-/

namespace LogRelay

def Phase.Fits (μ : Measure) : Phase → Prop
  | .collecting batch _ _ =>
    batch.messages ≠ [] ∧ batch.bytes = μ.totalWeight batch.messages ∧ μ.Allows batch.messages
  | .sending batch _ => batch ≠ [] ∧ μ.Allows batch
  | _ => True

namespace Writer

structure Fits (μ : Measure) (w : Writer) : Prop where
  sizes : ∀ m ∈ w.held ++ w.backlog.toList, m.size ≤ w.maxMessageSize
  phase : w.phase.Fits μ

variable {μ : Measure} {now : Instant} {w : Writer} {r : Writer × List Notice}

theorem fits_of_isBare {w : Writer} (h : w.isBare = true) : w.phase.Fits μ := by
  unfold isBare at h
  cases hp : w.phase with
  | collecting batch limit last => simp [hp] at h
  | sending batch last => simp [hp] at h
  | _ => trivial

theorem size_of_admitted? {e : Event} {m : Message} (h : e.admitted? w = some m) :
    m.size ≤ w.maxMessageSize := by
  unfold Event.admitted? at h
  split at h
  · unfold Writer.admitted? at h
    split at h
    · cases h
    · split at h
      · rename_i hs
        cases h
        exact hs
      · split at h
        · cases h
          exact Message.size_truncate_le _ _
        · cases h
  · cases h

theorem retained_sublist (failed : List Nat) (batch : List Message) :
    (retained failed batch).Sublist batch := by
  rw [Ledger.retained_eq_listed]
  exact Ledger.listed_sublist failed batch

theorem Keeps.has (hk : Keeps w r) (hq : r.1.backlog.toList = w.backlog.toList) {m : Message}
    (hm : m ∈ r.1.held ++ r.1.backlog.toList) : m ∈ w.held ++ w.backlog.toList := by
  rwa [hk.held, hq] at hm

theorem Settles.has {back : List Message} {n : Nat} (hs : Settles w back n r) (hb : ∀ m ∈ back, m ∈ w.held)
    {m : Message} (hm : m ∈ r.1.held ++ r.1.backlog.toList) : m ∈ w.held ++ w.backlog.toList := by
  rw [held_of_isBare hs.bare, List.nil_append, hs.backlog, List.mem_append] at hm
  rcases hm with hm | hm
  · exact List.mem_append_left _ (hb m hm)
  · exact List.mem_append_right _ hm

theorem Advances.has (ha : Advances μ w r) {m : Message} (hm : m ∈ r.1.held ++ r.1.backlog.toList) :
    m ∈ w.held ++ w.backlog.toList := by
  obtain ⟨taken, hq, hh⟩ := ha.taken
  rw [hq]
  rcases hh with hh | ⟨hh, _⟩
  · rwa [hh, List.append_assoc] at hm
  · rw [hh, List.nil_append] at hm
    exact List.mem_append_right _ (List.mem_append_right _ hm)

/-- A writer has no message that it did not have before, but for one that was admitted. -/
theorem Change.has {e : Event} (h : Change μ now w r e) {m : Message}
    (hm : m ∈ r.1.held ++ r.1.backlog.toList) :
    m ∈ w.held ++ w.backlog.toList ∨ e.admitted? w = some m := by
  cases h with
  | @enqueue m₀ m' ha hk hq =>
    rw [hk.held, hq, Backlog.toList_enqueue, List.mem_append] at hm
    rcases hm with hm | hm
    · exact Or.inl (List.mem_append_left _ hm)
    · have hkept := (w.backlog.action.keep_sublist w.backlog.threshold _).subset hm
      rw [List.mem_append, List.mem_singleton] at hkept
      rcases hkept with hkept | rfl
      · exact Or.inl (List.mem_append_right _ hkept)
      · exact Or.inr ha
  | ignore _ hk hq => exact Or.inl (hk.has (by rw [hq]) hm)
  | call _ hk hq => exact Or.inl (hk.has hq hm)
  | go hmove => exact Or.inl (hmove.advances.has hm)
  | clear _ hc =>
    rw [held_of_isBare hc.bare, hc.backlog] at hm
    cases hm
  | check _ hk hq => exact Or.inl (hk.has (by rw [hq]) hm)
  | @settle batch last failed hp hs =>
    have hb : w.held = batch := by simp [held, hp]
    refine Or.inl (hs.has (fun m hm => ?_) hm)
    rw [hb]
    exact (retained_sublist failed batch).subset hm
  | @giveBack batch last result hp _ hs =>
    have hb : w.held = batch := by simp [held, hp]
    exact Or.inl (hs.has (fun m hm => by rwa [hb]) hm)
  | close hk hq => exact Or.inl (hk.has (by rw [hq]) hm)

section
variable (hl : ∀ m : Message, m.size ≤ w.maxMessageSize → μ.Allows [m])
include hl

theorem Move.fits (h : w.Fits μ) (hm : w.Move μ now r) : r.1.phase.Fits μ := by
  have hp := h.phase
  cases hm with
  | resume _ _ => trivial
  | leave _ _ _ _ => trivial
  | await _ _ _ => trivial
  | @begin limit last m q bytes _ hq hb =>
    -- the message is taken unchecked, and all rests on its size
    have hm : m ∈ w.backlog.toList := by
      rw [(Backlog.pop?_eq_some hq).1]
      exact List.mem_cons_self
    refine ⟨by simp, ?_, hl m (h.sizes m (List.mem_append_right _ hm))⟩
    rw [Measure.totalWeight_singleton, Measure.weight_of_ok hb]
  | balk _ _ _ => exact fits_of_isBare (panicked_letsGo _ _).bare
  | interrupted _ _ _ => exact fits_of_isBare (turn_letsGo _ _ _).bare
  | expire _ _ _ _ => exact fits_of_isBare (turn_letsGo _ _ _).bare
  | @fill batch limit last f hc hf =>
    rw [hc] at hp
    obtain ⟨hne, hbytes, hallows⟩ := hp
    obtain ⟨-, hfb, hfl⟩ := Measure.fill_ok hf
    have hne' : batch.messages ++ f.taken ≠ [] := by simp [hne]
    have hb : f.bytes = μ.totalWeight (batch.messages ++ f.taken) := by
      rw [hfb, hbytes, Measure.totalWeight_append]
    -- what was checked against the limits are the bytes of the batch itself
    have ha : μ.Allows (batch.messages ++ f.taken) := by
      unfold Measure.Allows at hallows ⊢
      rw [← hbytes] at hallows
      rw [← hb, List.length_append]
      exact hfl hallows
    cases f.full with
    | true => exact ⟨hne', ha⟩
    | false => exact ⟨hne', hb, ha⟩
  | spill _ _ => exact fits_of_isBare (panicked_letsGo _ _).bare
  | cut hc _ _ | lapse hc _ _ =>
    rw [hc] at hp
    exact ⟨hp.1, hp.2.2⟩

theorem Change.fits {e : Event} (h : w.Fits μ) (hc : Change μ now w r e) : r.1.Fits μ := by
  refine ⟨?_, ?_⟩
  · intro m hm
    rw [hc.make.maxMessageSize]
    rcases hc.has hm with hm | hm
    · exact h.sizes m hm
    · exact size_of_admitted? hm
  · have hkeeps : Keeps w r → r.1.phase.Fits μ := by
      intro hk
      rcases hk.phase with hp | ⟨_, hb⟩
      · rw [hp]
        exact h.phase
      · exact fits_of_isBare hb
    cases hc with
    | ignore _ hk _ => exact hkeeps hk
    | enqueue _ hk _ => exact hkeeps hk
    | call _ hk _ => exact hkeeps hk
    | go hm => exact hm.fits hl h
    | clear _ hc => exact fits_of_isBare hc.bare
    | check _ hk _ => exact hkeeps hk
    | settle _ hs => exact fits_of_isBare hs.bare
    | giveBack _ _ hs => exact fits_of_isBare hs.bare
    | close hk _ => exact hkeeps hk

end

theorem create_fits (s : Settings) (limit : Nat) : (create s limit).Fits μ := ⟨by simp [create, held], trivial⟩

end Writer

/-! ## Whole courses -/

namespace Course

variable {μ : Measure} {s : Settings} {limit : Nat} {d : Diagnostics} {es : List Moment} {c : Course}

theorem run_fits (hl : ∀ m : Message, m.size ≤ limit → μ.Allows [m]) (h : (new s limit d).run μ es = some c) :
    c.writer.Fits μ ∧ c.writer.maxMessageSize = limit := by
  refine run_induct (P := fun c => c.writer.Fits μ ∧ c.writer.maxMessageSize = limit)
    (fun x c c' hx hP => ?_) h ⟨Writer.create_fits s limit, rfl⟩
  obtain ⟨r, hc, hw, -, -⟩ := step_eq_some hx
  rw [hw, hc.make.maxMessageSize]
  refine ⟨?_, hP.2⟩
  rw [← hP.2] at hl
  exact hc.fits hl hP.1

end Course

/-! ## The three services -/

namespace Kinesis

def Request.Counts (n : Nat) : Request → Prop
  | .putRecords _ records => (records.map (·.bytes)).sum = n
  | _ => True

namespace Stream

theorem send_asks (s : Stream) (batch : List Message) :
    (s.send batch).Asks (Request.Counts (batch.map (·.size + s.keySize)).sum) := by
  unfold send
  split
  · exact Plan.asks_pure _
  · refine Plan.asks_bind_of_ends (records_ask batch) fun log records hr => ?_
    obtain ⟨-, -, hb⟩ := of_ends_records hr
    have hput : (s.put records).Asks (Request.Counts (batch.map (·.size + s.keySize)).sum) :=
      Plan.asks_bind (Plan.asks_request (congrArg List.sum hb)) fun x => Plan.asks_pure _
    refine Plan.asks_bind (Plan.asks_invoke _ hput) fun x => ?_
    split
    · exact Plan.asks_pure _
    · exact Plan.asks_pure _
    · split
      · refine Plan.asks_bind ?_ fun _ => Plan.asks_pure _
        unfold reportRefused
        split
        · exact Plan.asks_pure _
        · exact Plan.asks_log _
      · exact Plan.asks_pure _

variable {s : Stream}

theorem keySize_le (h : s.settings.hasRandomKey = true ∨
    1 ≤ s.settings.partitionKey.utf8ByteSize ∧ s.settings.partitionKey.utf8ByteSize ≤ 256) :
    s.keySize ≤ maxKeyBytes := by
  unfold keySize
  split
  · decide
  · rename_i hr
    rcases h with h | h
    · exact absurd h hr
    · exact h.2

theorem maxMessageSize_eq_ok_iff {limit : Nat} :
    s.maxMessageSize = .ok limit ↔ limit + s.keySize = maxRecordBytes := by
  unfold maxMessageSize
  split
  · rw [Except.ok.injEq]
    omega
  · simp only [reduceCtorEq, false_iff]
    omega

theorem maxMessageSize_of_overlong (h : maxRecordBytes < s.keySize) :
    s.maxMessageSize = .error .differenceTooSmall := if_neg (Nat.not_le.mpr h)

theorem allows_alone {limit : Nat} (hlimit : s.maxMessageSize = .ok limit) {m : Message} (hm : m.size ≤ limit) :
    (destination s).toMeasure.Allows [m] := by
  have hrest := maxMessageSize_eq_ok_iff.mp hlimit
  have hbytes : m.size + s.keySize ≤ maxBatchBytes := by
    unfold maxRecordBytes at hrest
    unfold maxBatchBytes
    omega
  unfold Measure.Allows
  rw [Measure.totalWeight_singleton]
  change Except.ok (decide (m.size + s.keySize ≤ maxBatchBytes) && decide (1 ≤ maxBatchCount)) = Except.ok true
  rw [decide_eq_true hbytes]
  rfl

end Stream

end Kinesis

namespace Services

def countLimit : Target → Nat
  | .cloudWatch _ => 10000
  | .kinesis _ => 500
  | .sns _ => 10

def byteLimit : Target → Nat
  | .cloudWatch _ => 1048576
  | .kinesis _ => 5242880
  | .sns _ => 262144

/-- A partition key that Kinesis takes, or a random one for every record. -/
def HasKey : Target → Prop
  | .kinesis s => s.hasRandomKey = true ∨ 1 ≤ s.partitionKey.utf8ByteSize ∧ s.partitionKey.utf8ByteSize ≤ 256
  | _ => True

variable (p : Patiences) (t : Target)

theorem allows_iff (batch : List Message) : (destination p t).toMeasure.Allows batch ↔
    (destination p t).toMeasure.totalWeight batch ≤ byteLimit t ∧ batch.length ≤ countLimit t := by
  have hok : ∀ (a b : Prop) [Decidable a] [Decidable b],
      (Except.ok (decide a && decide b) : Except Panic Bool) = .ok true ↔ a ∧ b := by
    intro a b _ _
    simp
  cases t <;> exact hok _ _

variable {p t}

theorem exists_limit (hk : HasKey t) : ∃ limit, (destination p t).maxMessageSize = .ok limit := by
  cases t with
  | cloudWatch s => exact ⟨_, rfl⟩
  | kinesis s =>
    have hkey : (⟨s, p.setup, p.sending⟩ : Kinesis.Stream).keySize ≤ Kinesis.maxKeyBytes :=
      Kinesis.Stream.keySize_le hk
    exact ⟨_, if_pos (Nat.le_trans hkey (by decide))⟩
  | sns s => exact ⟨_, rfl⟩

section
variable {limit : Nat} (hlimit : (destination p t).maxMessageSize = .ok limit) {m : Message} (hm : m.size ≤ limit)
include hlimit hm

theorem allows_alone : (destination p t).toMeasure.Allows [m] := by
  cases t with
  | cloudWatch s =>
    cases hlimit
    rw [allows_iff, Measure.totalWeight_singleton]
    change m.size ≤ 256 * 1024 - 26 at hm
    change m.size + 26 ≤ 1048576 ∧ 1 ≤ 10000
    omega
  | kinesis s => exact Kinesis.Stream.allows_alone hlimit hm
  | sns s =>
    cases hlimit
    rw [allows_iff, Measure.totalWeight_singleton]
    change m.size ≤ 256 * 1024 at hm
    change m.size ≤ 262144 ∧ 1 ≤ 10
    omega

/-- What a batch and one message more count for is less than a word, so the sums that are compared with the
limits are true ones for all three services. -/
theorem totalWeight_lt_word {batch : List Message} (hb : (destination p t).toMeasure.Allows batch) :
    (destination p t).toMeasure.totalWeight (batch ++ [m]) < UInt64.size := by
  have hbatch := ((allows_iff p t batch).mp hb).1
  have halone := ((allows_iff p t [m]).mp (allows_alone hlimit hm)).1
  have hmost : byteLimit t ≤ 5242880 := by cases t <;> simp [byteLimit]
  rw [Measure.totalWeight_append]
  unfold UInt64.size
  omega

end

def Request.Counts (n : Nat) : Request → Prop
  | .kinesis r => r.Counts n
  | _ => True

theorem send_counts (batch : List Message) :
    ((destination p t).send batch).Asks (Request.Counts ((destination p t).toMeasure.totalWeight batch)) := by
  cases t with
  | cloudWatch s => exact Plan.asks_within (Plan.asks_of_forall fun _ => trivial)
  | kinesis s => exact Plan.asks_within (Kinesis.Stream.send_asks _ batch)
  | sns s => exact Plan.asks_within (Plan.asks_of_forall fun _ => trivial)

/-- The destination has a limit, and whatever has been added to a writer with that limit, and whatever became
of its batches, the next batch is within the limits of the service, and so is the request it is sent in. -/
theorem batches_within_limits {s : Settings} (hk : HasKey s.target) :
    ∃ limit, (destination p s.target).maxMessageSize = .ok limit ∧
      ∀ {d : Diagnostics} {es : List Moment} {c : Course},
        (Course.new s limit d).run (destination p s.target).toMeasure es = some c →
      (∀ m ∈ c.writer.backlog.toList, m.size ≤ limit ∧ (destination p s.target).toMeasure.Allows [m]) ∧
      ∀ now batch last, c.writer.next (destination p s.target).toMeasure now = .send batch last →
        batch ≠ [] ∧ batch.length ≤ countLimit s.target ∧
        (destination p s.target).toMeasure.totalWeight batch ≤ byteLimit s.target ∧
        (∀ m ∈ batch, m.size ≤ limit) ∧
        ((destination p s.target).send batch).Asks
          (Request.Counts ((destination p s.target).toMeasure.totalWeight batch)) := by
  obtain ⟨limit, hlimit⟩ := exists_limit (p := p) hk
  refine ⟨limit, hlimit, fun {d es c} h => ?_⟩
  obtain ⟨hf, hm⟩ := Course.run_fits (fun m hm => allows_alone hlimit hm) h
  have hsizes := hf.sizes
  rw [hm] at hsizes
  refine ⟨?_, ?_⟩
  · intro m hq
    have hs := hsizes m (List.mem_append_right _ hq)
    exact ⟨hs, allows_alone hlimit hs⟩
  · intro now batch last hn
    have hp := Writer.next_send hn
    have hphase := hf.phase
    rw [hp] at hphase
    obtain ⟨hb, hc⟩ := (allows_iff p s.target batch).mp hphase.2
    refine ⟨hphase.1, hc, hb, ?_, send_counts batch⟩
    intro m hmem
    have hh : m ∈ c.writer.held := by rwa [Writer.held, hp]
    exact hsizes m (List.mem_append_left _ hh)

def hasty : Settings := { target := .kinesis { stream := "events", partitionKey := "k1" }, batchDelay := 0 }

theorem batches_within_limits_hasty :
    HasKey hasty.target ∧ ∃ limit c, (destination .default hasty.target).maxMessageSize = .ok limit ∧
      (Course.new hasty limit {}).run (destination .default hasty.target).toMeasure
        ([.start, .checked (.ok (.ok ())), .go, .add ⟨⟨0⟩, "hello"⟩, .go, .go].map (⟨0, ⟨0⟩, ·⟩)) = some c ∧
      c.writer.next (destination .default hasty.target).toMeasure 0 = .send [⟨⟨0⟩, "hello"⟩] false ∧
      (destination .default hasty.target).toMeasure.totalWeight [⟨⟨0⟩, "hello"⟩] = 7 ∧
      ((destination .default hasty.target).send [⟨⟨0⟩, "hello"⟩]).Asks (Request.Counts 7) := by
  have hk : HasKey hasty.target := Or.inr (by decide)
  obtain ⟨limit, hlimit, hall⟩ := batches_within_limits (p := .default) hk
  -- the key takes two bytes of a record
  have hsum : limit + 2 = 1048576 := Kinesis.Stream.maxMessageSize_eq_ok_iff
    (s := ⟨{ stream := "events", partitionKey := "k1" }, Patiences.default.setup, Patiences.default.sending⟩).mp hlimit
  obtain rfl : limit = 1048574 := by omega
  obtain ⟨c, hc, hn⟩ : ∃ c, (Course.new hasty 1048574 {}).run (destination .default hasty.target).toMeasure
        ([.start, .checked (.ok (.ok ())), .go, .add ⟨⟨0⟩, "hello"⟩, .go, .go].map (⟨0, ⟨0⟩, ·⟩)) = some c ∧
      c.writer.next (destination .default hasty.target).toMeasure 0 = .send [⟨⟨0⟩, "hello"⟩] false :=
    ⟨_, rfl, rfl⟩
  obtain ⟨-, hsend⟩ := hall hc
  obtain ⟨-, -, -, -, hb⟩ := hsend 0 _ false hn
  have hw : (destination .default hasty.target).toMeasure.totalWeight [⟨⟨0⟩, "hello"⟩] = 7 := rfl
  rw [hw] at hb
  refine ⟨hk, 1048574, c, hlimit, hc, hn, hw, ?_⟩
  assumption

end Services

end LogRelay
