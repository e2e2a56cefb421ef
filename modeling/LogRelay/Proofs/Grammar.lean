import LogRelay.Delivery.CloudWatch
import LogRelay.Proofs.Bytes
import LogRelay.Proofs.Histories

/-!
# The grammar of names

A group and a stream are asked for only if their names are such as the service documents them. The rules count
characters and the check counts bytes. That is one and the same for the names of groups; the name of a stream may have
any characters, and of the names that the rules allow only those are let through that have no more bytes than they
may have characters.
-/

namespace LogRelay

namespace Text

theorem length_le_byteCount (cs : List Char) : cs.length ≤ byteCount cs := by
  induction cs with
  | nil => simp
  | cons c cs ih =>
    have hpos := c.utf8Size_pos
    rw [List.length_cons, byteCount_cons]
    omega

theorem length_pos_of_byteCount {cs : List Char} (h : 1 ≤ byteCount cs) : 1 ≤ cs.length := by
  cases cs with
  | nil => simp at h
  | cons c cs => simp

theorem isName_iff {most : Nat} {allowed : Char → Bool} {s : String} :
    isName most allowed s = true ↔
      1 ≤ s.length ∧ s.length ≤ most ∧ s.utf8ByteSize ≤ most ∧ ∀ c ∈ s.toList, allowed c = true := by
  have hle := length_le_byteCount s.toList
  have hpos := @length_pos_of_byteCount s.toList
  rw [byteCount_toList, String.length_toList] at hle hpos
  simp only [isName, Bool.and_eq_true, decide_eq_true_eq, List.all_eq_true]
  constructor
  · rintro ⟨⟨hone, hmost⟩, hall⟩
    exact ⟨hpos hone, Nat.le_trans hle hmost, hmost, hall⟩
  · rintro ⟨hone, -, hmost, hall⟩
    exact ⟨⟨Nat.le_trans hone hle, hmost⟩, hall⟩

end Text

namespace Names

def IsGroupChar (c : Char) : Prop :=
  'A' ≤ c ∧ c ≤ 'Z' ∨ 'a' ≤ c ∧ c ≤ 'z' ∨ '0' ≤ c ∧ c ≤ '9' ∨ c ∈ ['.', '_', '/', '#', '-']

/-- `[A-Za-z0-9._/#-]{1,512}`. -/
def GroupGrammar (name : String) : Prop :=
  1 ≤ name.length ∧ name.length ≤ 512 ∧ ∀ c ∈ name.toList, IsGroupChar c

/-- From 1 to 512 characters, with neither a colon nor an asterisk. -/
def StreamGrammar (name : String) : Prop :=
  1 ≤ name.length ∧ name.length ≤ 512 ∧ ':' ∉ name.toList ∧ '*' ∉ name.toList

theorem isAlphanum_eq (c : Char) : c.isAlphanum = (decide ('A' ≤ c ∧ c ≤ 'Z') ||
    (decide ('a' ≤ c) && decide (c ≤ 'z')) || (decide ('0' ≤ c) && decide (c ≤ '9'))) := rfl

theorem isGroupChar_iff (c : Char) : IsGroupChar c ↔ (c.isAlphanum || c ∈ ['.', '-', '_', '/', '#']) = true := by
  have hsame : c ∈ ['.', '_', '/', '#', '-'] ↔ c ∈ ['.', '-', '_', '/', '#'] := by
    simp only [List.mem_cons, List.not_mem_nil, or_false]
    grind
  unfold IsGroupChar
  rw [hsame, isAlphanum_eq]
  simp only [Bool.or_eq_true, Bool.and_eq_true, decide_eq_true_eq, or_assoc]

theorem IsGroupChar.utf8Size {c : Char} (h : IsGroupChar c) : c.utf8Size = 1 := by
  rw [Char.utf8Size_eq_one_iff]
  simp only [IsGroupChar, Char.le_def, UInt32.le_iff_toNat_le, List.mem_cons, List.not_mem_nil, or_false] at h ⊢
  rcases h with h | h | h | rfl | rfl | rfl | rfl | rfl
  · exact Nat.le_trans h.2 (by decide)
  · exact Nat.le_trans h.2 (by decide)
  · exact Nat.le_trans h.2 (by decide)
  all_goals decide

theorem isLogGroup_iff {name : String} : isLogGroup name = true ↔ GroupGrammar name := by
  unfold isLogGroup GroupGrammar
  rw [Text.isName_iff]
  simp only [isGroupChar_iff]
  constructor
  · rintro ⟨hone, hmost, -, hall⟩
    exact ⟨hone, hmost, hall⟩
  · rintro ⟨hone, hmost, hall⟩
    -- characters and bytes are as many
    have hbytes := Text.bytes_of_small fun c hc => ((isGroupChar_iff c).mpr (hall c hc)).utf8Size
    rw [String.ofList_toList, String.length_toList] at hbytes
    exact ⟨hone, hmost, by rwa [hbytes], hall⟩

theorem isLogStream_iff {name : String} :
    isLogStream name = true ↔ StreamGrammar name ∧ name.utf8ByteSize ≤ 512 := by
  have hallowed : (∀ c ∈ name.toList, decide (c ∉ [':', '*']) = true) ↔ ':' ∉ name.toList ∧ '*' ∉ name.toList := by
    simp only [List.mem_cons, List.not_mem_nil, or_false, not_or, decide_eq_true_eq]
    constructor
    · intro h
      exact ⟨fun hc => (h _ hc).1 rfl, fun hc => (h _ hc).2 rfl⟩
    · rintro ⟨hcolon, hstar⟩ c hc
      exact ⟨fun heq => hcolon (heq ▸ hc), fun heq => hstar (heq ▸ hc)⟩
  unfold isLogStream StreamGrammar
  rw [Text.isName_iff, hallowed]
  constructor
  · rintro ⟨hone, hmost, hbytes, hchars⟩
    exact ⟨⟨hone, hmost, hchars⟩, hbytes⟩
  · rintro ⟨⟨hone, hmost, hchars⟩, hbytes⟩
    exact ⟨hone, hmost, hbytes, hchars⟩

end Names

namespace CloudWatch

open Names

variable {W : Type} (s : Stream) (g : Ground api W) (w : W)

def Stream.announced : W := g.note (.debug ("checking for existence of log group: " ++ s.group)) w

theorem Stream.exists_ensure : ∃ k, s.ensure = (do
    Attempt.log (.debug ("checking for existence of log group: " ++ s.group))
    s.setup.require "failed to check for log group" s.groupExists >>= k) := by
  have hgroup : ∃ k, s.ensureGroup = (do
      Attempt.log (.debug ("checking for existence of log group: " ++ s.group))
      s.setup.require "failed to check for log group" s.groupExists >>= k) := ⟨_, rfl⟩
  obtain ⟨k, hk⟩ := hgroup
  refine ⟨fun there => k there >>= fun _ => s.ensureStream, ?_⟩
  rw [ensure, hk]
  simp only [bind_assoc]

theorem Stream.asks_for_group (h : s.setup.Fits (g.now (s.announced g w))) :
    (s.announced g w, .groupExists s.group) ∈ s.ensure.run.calls g w := by
  obtain ⟨k, hk⟩ := s.exists_ensure
  rw [hk]
  change _ ∈ (s.setup.require _ s.groupExists >>= k).run.calls g (s.announced g w)
  rw [Plan.calls_attempt_bind]
  exact List.mem_append_left _ (Plan.mem_calls_require (A := api) (r := .groupExists s.group)
    (f := Patience.unlessTransient) rfl h _)

theorem Stream.ensure_of_not_fits (h : ¬s.setup.Fits (g.now (s.announced g w))) :
    s.ensure.run.calls g w = [] ∧ s.ensure.run.run g w = (.error .instantTooLate, s.announced g w) := by
  obtain ⟨k, hk⟩ := s.exists_ensure
  obtain ⟨hcalls, hrun⟩ := Plan.require_of_not_fits h "failed to check for log group" s.groupExists
  rw [hk]
  change (s.setup.require _ s.groupExists >>= k).run.calls g (s.announced g w) = [] ∧
    (s.setup.require _ s.groupExists >>= k).run.run g (s.announced g w) = _
  rw [Plan.calls_attempt_bind, Plan.run_attempt_bind, hcalls, hrun]
  exact ⟨rfl, rfl⟩

/-- The client is called only for names of the documented grammar, and for all of them whose stream has no more than
512 bytes, as long as the clock can show when time for it is up; if it cannot, that is a panic. For other names
making the destination available fails at once. -/
theorem asked_if_documented :
    ((∃ v, (v, .groupExists s.group) ∈ s.makeAvailable.calls g w) ↔
      (GroupGrammar s.group ∧ StreamGrammar s.stream ∧ s.stream.utf8ByteSize ≤ 512) ∧
        s.setup.Fits (g.now (s.announced g w))) ∧
    (GroupGrammar s.group ∧ StreamGrammar s.stream ∧ s.stream.utf8ByteSize ≤ 512 →
      ¬s.setup.Fits (g.now (s.announced g w)) →
      s.makeAvailable.calls g w = [] ∧ s.makeAvailable.run g w = (.error .instantTooLate, s.announced g w)) ∧
    (¬GroupGrammar s.group →
      s.makeAvailable.calls g w = [] ∧ s.makeAvailable.run g w = (.ok (.error s.invalidGroup), w)) ∧
    (GroupGrammar s.group → ¬(StreamGrammar s.stream ∧ s.stream.utf8ByteSize ≤ 512) →
      s.makeAvailable.calls g w = [] ∧ s.makeAvailable.run g w = (.ok (.error s.invalidStream), w)) := by
  rw [← isLogGroup_iff, ← isLogStream_iff]
  by_cases hg : isLogGroup s.group = true
  · by_cases hs : isLogStream s.stream = true
    · have hplan : s.makeAvailable = do return (← s.ensure.run).mapError (·.withContext "destination" s.name) := by
        simp [Stream.makeAvailable, hg, hs]
      rw [hplan, Plan.calls_bind, Plan.run_bind]
      by_cases hf : s.setup.Fits (g.now (s.announced g w))
      · exact ⟨iff_of_true ⟨_, List.mem_append_left _ (s.asks_for_group g w hf)⟩ ⟨⟨hg, hs⟩, hf⟩,
          fun _ h => absurd hf h, fun h => absurd hg h, fun _ h => absurd hs h⟩
      · obtain ⟨hcalls, hrun⟩ := s.ensure_of_not_fits g w hf
        rw [hcalls, hrun]
        refine ⟨iff_of_false ?_ fun h => hf h.2, fun _ _ => ⟨rfl, rfl⟩, fun h => absurd hg h, fun _ h => absurd hs h⟩
        rintro ⟨v, hv⟩
        cases hv
    · have hplan : s.makeAvailable = pure (.error s.invalidStream) := by simp [Stream.makeAvailable, hg, hs]
      rw [hplan]
      refine ⟨iff_of_false ?_ fun h => hs h.1.2, fun h => absurd h.2 hs, fun h => absurd hg h,
        fun _ _ => ⟨rfl, rfl⟩⟩
      rintro ⟨v, hv⟩
      cases hv
  · have hplan : s.makeAvailable = pure (.error s.invalidGroup) := by simp [Stream.makeAvailable, hg]
    rw [hplan]
    refine ⟨iff_of_false ?_ fun h => hg h.1.1, fun h => absurd h.1 hg, fun _ => ⟨rfl, rfl⟩, fun h => absurd h hg⟩
    rintro ⟨v, hv⟩
    cases hv

def accented : Stream where
  settings := { logGroup := "app", logStream := String.ofList (List.replicate 257 'é') }
  setup := { initialDelay := 100, timeout := 1000, exponential := true }
  sending := { initialDelay := 100, timeout := 1000, exponential := true }

/-- The rules allow the name, and yet nobody is asked. -/
theorem documented_not_asked :
    GroupGrammar accented.group ∧ StreamGrammar accented.stream ∧
      ∀ (W : Type) (g : Ground api W) (w : W), accented.makeAvailable.calls g w = [] ∧
        accented.makeAvailable.run g w = (.ok (.error accented.invalidStream), w) := by
  have hg : isLogGroup accented.group = true := by decide +kernel
  have hname : accented.stream = String.ofList (List.replicate 257 'é') := rfl
  have hgrammar : StreamGrammar accented.stream := by
    rw [StreamGrammar, hname, String.length_ofList, String.toList_ofList, List.length_replicate]
    have honly : ∀ c ∈ List.replicate 257 'é', c = 'é' := fun c hc => List.eq_of_mem_replicate hc
    exact ⟨by decide, by decide, fun h => absurd (honly _ h) (by decide), fun h => absurd (honly _ h) (by decide)⟩
  have hbytes : accented.stream.utf8ByteSize = 514 := by
    rw [hname, Text.bytes_ofList]
    decide +kernel
  have hs : ¬isLogStream accented.stream = true := by
    rw [isLogStream_iff, hbytes]
    omega
  have hplan : accented.makeAvailable = pure (.error accented.invalidStream) := by simp [Stream.makeAvailable, hg, hs]
  refine ⟨isLogGroup_iff.mp hg, hgrammar, fun W g w => ?_⟩
  rw [hplan]
  exact ⟨rfl, rfl⟩

end CloudWatch

end LogRelay
