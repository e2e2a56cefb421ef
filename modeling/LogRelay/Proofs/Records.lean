import LogRelay.Delivery.Kinesis
import LogRelay.Proofs.Bytes
import LogRelay.Proofs.Plans

/-!
# The records of a batch

One record is made for every message, in order, without asking the service. The key that a record
really gets has the size that it is counted with, whatever word is drawn for it.
-/

namespace LogRelay.Kinesis

def Record.bytes (r : Record) : Nat := r.data.utf8ByteSize + r.key.utf8ByteSize

namespace Stream

variable {s : Stream} {log : List (Call api)}

theorem bytes_of_ends_key {k : String} (h : s.key.Ends log k) : log = [] ∧ k.utf8ByteSize = s.keySize := by
  unfold key at h
  unfold keySize
  split at h
  · rename_i hr
    obtain ⟨_, _, w, rfl, hw, h⟩ := Plan.ends_bind.mp h
    rw [Plan.ends_randomWord] at hw
    obtain ⟨rfl, rfl⟩ := Plan.ends_pure.mp h
    -- a word of 32 bits has no more than eight digits
    have hb : (Nat.toDigits 16 w.toNat).length ≤ randomKeyBytes :=
      (Nat.length_toDigits_le_iff (by decide) (by decide)).mpr w.toNat_lt
    rw [if_pos hr, Text.bytes_hex hb, hw]
    exact ⟨rfl, rfl⟩
  · rename_i hr
    obtain ⟨rfl, rfl⟩ := Plan.ends_pure.mp h
    rw [if_neg hr]
    exact ⟨rfl, rfl⟩

theorem of_ends_record {m : Message} {r : Record} (h : (s.record m).Ends log r) :
    log = [] ∧ r.data = m.text ∧ r.bytes = m.size + s.keySize := by
  obtain ⟨_, _, k, rfl, hk, h⟩ := Plan.ends_bind.mp h
  obtain ⟨rfl, rfl⟩ := Plan.ends_pure.mp h
  obtain ⟨rfl, hb⟩ := bytes_of_ends_key hk
  refine ⟨rfl, rfl, ?_⟩
  rw [Record.bytes, hb, Message.size]

theorem of_ends_records {batch : List Message} {records : List Record}
    (h : (batch.mapM s.record).Ends log records) :
    log = [] ∧ records.map (·.data) = batch.map (·.text) ∧
      records.map (·.bytes) = batch.map (·.size + s.keySize) := by
  induction batch generalizing log records with
  | nil =>
    obtain ⟨rfl, rfl⟩ := Plan.ends_pure.mp h
    exact ⟨rfl, rfl, rfl⟩
  | cons m batch ih =>
    rw [List.mapM_cons] at h
    obtain ⟨_, _, r, rfl, hr, h⟩ := Plan.ends_bind.mp h
    obtain ⟨_, _, rs, rfl, hrs, h⟩ := Plan.ends_bind.mp h
    obtain ⟨rfl, rfl⟩ := Plan.ends_pure.mp h
    obtain ⟨rfl, hd, hb⟩ := of_ends_record hr
    obtain ⟨rfl, hds, hbs⟩ := ih hrs
    refine ⟨rfl, ?_, ?_⟩
    · rw [List.map_cons, List.map_cons, hd, hds]
    · rw [List.map_cons, List.map_cons, hb, hbs]

theorem records_ask {P : Request → Prop} (batch : List Message) : (batch.mapM s.record).Asks P := by
  induction batch with
  | nil => exact Plan.asks_pure _
  | cons m batch ih =>
    rw [List.mapM_cons]
    refine Plan.asks_bind (Plan.asks_bind ?_ fun k => Plan.asks_pure _) fun r => ?_
    · unfold key
      split
      · exact Plan.asks_bind Plan.asks_randomWord fun w => Plan.asks_pure _
      · exact Plan.asks_pure _
    · exact Plan.asks_bind ih fun rs => Plan.asks_pure _

end Stream

end LogRelay.Kinesis
