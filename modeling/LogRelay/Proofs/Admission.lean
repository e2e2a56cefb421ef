import LogRelay.Proofs.Bytes
import LogRelay.Proofs.Conservation

/-!
# What is admitted

A message comes into the queue whole, or cut to the longest leading part that the destination allows, and with four
bytes or more allowed that part is never empty. Empty messages leave no trace, and the statistics count the ones that
were too large, whether they were cut or dropped.
-/

namespace LogRelay

namespace Message

/-- Of the message that was submitted all that fits came in, and not nothing. -/
structure Admits (limit : Nat) (submitted m : Message) : Prop where
  time : m.time = submitted.time
  cut : Text.IsCut limit submitted.text.toList m.text.toList
  size_pos : 1 ≤ m.size
  size_le : m.size ≤ limit
  whole : submitted.size ≤ limit → m = submitted
  near : limit < submitted.size → limit < m.size + 4

variable {limit : Nat} {m : Message}

theorem truncate_of_fits (h : m.size ≤ limit) : m.truncate limit = m := by
  unfold size at h
  simp [truncate, Text.cut, Text.cut?, h]

theorem admits_truncate (hlimit : 4 ≤ limit) (hm : 0 < m.size) : m.Admits limit (m.truncate limit) := by
  have hcut := Text.isCut_cut limit m.text
  have hnear : limit < m.size → limit < (m.truncate limit).size + 4 := by
    intro hover
    unfold size at hover ⊢
    rw [← Text.byteCount_toList] at hover ⊢
    exact hcut.near hover
  refine ⟨rfl, hcut, ?_, m.size_truncate_le limit, truncate_of_fits, hnear⟩
  by_cases hfit : m.size ≤ limit
  · rwa [truncate_of_fits hfit]
  · have hlt := hnear (by omega)
    omega

end Message

namespace Event

def submitted? : Event → Option Message
  | .add m => some m
  | _ => none

def isEmpty (e : Event) : Bool := e.submitted?.any (·.size == 0)

def isOversize (limit : Nat) (e : Event) : Bool := e.submitted?.any (limit < ·.size)

end Event

def Writer.takes (w : Writer) (m : Message) : Bool := m.size != 0 && (w.truncateOversize || m.size ≤ w.maxMessageSize)

theorem Writer.admitted?_eq (w : Writer) (m : Message) :
    w.admitted? m = if w.takes m then some (m.truncate w.maxMessageSize) else none := by
  unfold admitted? takes
  by_cases hempty : m.size = 0
  · simp [hempty]
  · by_cases hfit : m.size ≤ w.maxMessageSize
    · simp [hempty, hfit, Message.truncate_of_fits hfit]
    · simp [hempty, hfit]

/-! ## Messages that are too large -/

def Notice.oversize : Notice → Nat
  | .truncating .. | .discarding _ => 1
  | _ => 0

def Notice.oversizeIn (ns : List Notice) : Nat := (ns.map Notice.oversize).sum

theorem Diagnostics.oversize_record (now : Timestamp) (n : Notice) (d : Diagnostics) :
    (d.record now n).statistics.oversize = d.statistics.oversize + n.oversize.toUInt64 := by
  cases n with
  | truncating size limit => rfl
  | discarding size => rfl
  | sent delivered requeued =>
    simp only [record]
    split <;> exact (UInt64.add_zero _).symm
  | _ => exact (UInt64.add_zero _).symm

namespace Writer

variable {μ : Measure} {now : Instant} {w : Writer} {r : Writer × List Notice} {e : Event}

theorem turn_oversize (progressed last : Bool) (w : Writer) : Notice.oversizeIn (w.turn progressed last).2 = 0 := by
  unfold turn
  repeat' split
  all_goals rfl

theorem panicked_oversize (p : Panic) (w : Writer) : Notice.oversizeIn (w.panicked p).2 = 0 := by
  unfold panicked
  repeat' split
  all_goals rfl

theorem Move.oversize (h : w.Move μ now r) : Notice.oversizeIn r.2 = 0 := by
  cases h with
  | balk | spill => exact panicked_oversize _ _
  | interrupted | expire => exact turn_oversize true _ _
  | _ => rfl

theorem oversizeIn_cons_turn {n : Notice} (hn : n.oversize = 0) (progressed last : Bool) (w : Writer) :
    Notice.oversizeIn (n :: (w.turn progressed last).2) = 0 := by
  have h := turn_oversize progressed last w
  unfold Notice.oversizeIn at h ⊢
  rw [List.map_cons, List.sum_cons, hn, h]

theorem sent_oversize (batch : List Message) (last : Bool) (result : Except Panic (Except Failure (List Nat)))
    (w : Writer) : Notice.oversizeIn (w.sent batch last result).2 = 0 := by
  unfold sent
  split
  · exact oversizeIn_cons_turn (n := .sent _ _) rfl _ last _
  · exact oversizeIn_cons_turn (n := .refused _ _) rfl false last _
  · exact oversizeIn_cons_turn (n := .refused _ _) rfl false last _

theorem stop_oversize (now : Instant) (w : Writer) : Notice.oversizeIn (w.stop now).2 = 0 := by
  unfold stop
  dsimp only
  repeat' split
  all_goals rfl

theorem checked_oversize (result : Except Panic (Except Failure Unit)) (w : Writer) :
    Notice.oversizeIn (w.checked result).2 = 0 := by
  unfold checked
  dsimp only
  split <;> rfl

theorem closed_oversize (result : Except Panic Unit) (w : Writer) : Notice.oversizeIn (w.closed result).2 = 0 := by
  unfold closed
  split
  · rfl
  · exact panicked_oversize _ _

theorem add_oversize (m : Message) (now : Instant) (w : Writer) :
    Notice.oversizeIn (w.add m now).2 = if w.maxMessageSize < m.size then 1 else 0 := by
  unfold add
  split
  · simp_all [Notice.oversizeIn]
  · split
    · simp_all [Notice.oversizeIn, Nat.not_lt.mpr]
    · split <;> simp_all [Notice.oversizeIn, Notice.oversize]

theorem respond_oversize (h : w.respond μ now e = some r) :
    Notice.oversizeIn r.2 = if e.isOversize w.maxMessageSize then 1 else 0 := by
  cases e with
  | add m =>
    simp only [respond] at h
    split at h
    · cases h
    · cases h
      simp [add_oversize, Event.isOversize, Event.submitted?]
  | stop =>
    simp only [respond] at h
    split at h
    · cases h
    · cases h
      exact stop_oversize now w
  | start | setBatchDelay _ | setThreshold _ | setAction _ | setFailure _ =>
    cases h
    rfl
  | go =>
    simp only [respond] at h
    split at h
    · rename_i hn
      cases h
      exact (move_of_next hn).oversize
    · cases h
  | checked result =>
    simp only [respond] at h
    split at h
    · cases h
      exact checked_oversize result w
    · cases h
  | sent result =>
    simp only [respond] at h
    split at h
    · cases h
      exact sent_oversize _ _ _ _
    · cases h
  | closed result =>
    simp only [respond] at h
    split at h
    · cases h
      exact closed_oversize result w
    · cases h

end Writer

namespace Course

variable {μ : Measure} {es : List Moment} {c c' : Course}

theorem run_oversize (h : c.run μ es = some c') :
    c'.diagnostics.statistics.oversize = c.diagnostics.statistics.oversize +
      (es.countP (·.event.isOversize c.writer.maxMessageSize)).toUInt64 := by
  induction es generalizing c with
  | nil =>
    cases h
    exact (UInt64.add_zero _).symm
  | cons x es ih =>
    obtain ⟨c₁, h₁, h₂⟩ := Option.bind_eq_some_iff.mp h
    obtain ⟨r, hr, rfl⟩ := Option.map_eq_some_iff.mp h₁
    have hsize := (Writer.change_of_respond hr).make.maxMessageSize
    have hnotices := Diagnostics.recordAll_counts Diagnostics.oversize_record x.wall r.2 c.diagnostics
    have hevent := Writer.respond_oversize hr
    unfold Notice.oversizeIn at hevent
    rw [hevent] at hnotices
    rw [ih h₂, hnotices, hsize, List.countP_cons, UInt64.add_assoc, Nat.add_comm]
    exact congrArg _ (UInt64.ofNat_add _ _).symm

theorem step_of_isEmpty {x : Moment} (hx : x.event.isEmpty = true) (h : c.step μ x = some c') : c' = c := by
  obtain ⟨r, hr, rfl⟩ := Option.map_eq_some_iff.mp h
  cases he : x.event with
  | add m =>
    have hm : m.size = 0 := by simpa [he, Event.isEmpty, Event.submitted?] using hx
    rw [he] at hr
    simp only [Writer.respond] at hr
    split at hr
    · cases hr
    · cases hr
      simp [Writer.add, hm, Ledger.enter, Writer.admitted?, Diagnostics.recordAll]
  | _ => simp [he, Event.isEmpty, Event.submitted?] at hx

theorem run_without_empty (h : c.run μ es = some c') : c.run μ (es.filter (!·.event.isEmpty)) = some c' := by
  induction es generalizing c with
  | nil => exact h
  | cons x es ih =>
    obtain ⟨c₁, h₁, h₂⟩ := Option.bind_eq_some_iff.mp h
    by_cases hx : x.event.isEmpty = true
    · rw [step_of_isEmpty hx h₁] at h₂
      rw [List.filter_cons_of_neg (by simpa using hx)]
      exact ih h₂
    · rw [List.filter_cons_of_pos (by simpa using hx), run, h₁]
      exact ih h₂

theorem filterMap_admitted? (w : Writer) (es : List Moment) :
    es.filterMap (·.event.admitted? w) =
      ((es.filterMap (·.event.submitted?)).filter w.takes).map (·.truncate w.maxMessageSize) := by
  induction es with
  | nil => rfl
  | cons x es ih =>
    rw [List.filterMap_cons, List.filterMap_cons, ih]
    cases x.event with
    | add m =>
      simp only [Event.admitted?, Event.submitted?, Writer.admitted?_eq]
      by_cases htakes : w.takes m = true
      · simp [htakes]
      · simp [htakes]
    | _ => rfl

section
variable {s : Settings} {limit : Nat} {d : Diagnostics}

/-- Every message in the queue or in a batch is one that was submitted, whole or cut to the longest part that fits.
Without truncation it is one that fits, empty messages make no difference, and all that do not fit are counted. -/
theorem admitted_as_submitted (hlimit : 4 ≤ limit) (h : (new s limit d).run μ es = some c) :
    c.ledger.Describes c.writer ∧
    (∀ x ∈ c.ledger.held ++ c.ledger.queued, ∃ m,
      ((es.filterMap (·.event.submitted?)).filter (Writer.create s limit).takes)[x.number]? = some m ∧
      m.Admits limit x.message ∧ (s.truncateOversize = false → m.size ≤ limit)) ∧
    (new s limit d).run μ (es.filter (!·.event.isEmpty)) = some c ∧
    c.diagnostics.statistics.oversize.toNat =
      (d.statistics.oversize.toNat + es.countP (·.event.isOversize limit)) % UInt64.size := by
  have hsound : c.ledger.Sound := run_sound h Ledger.sound_empty
  have hadmitted : c.ledger.admitted.map (·.message) = _ := run_admitted h
  refine ⟨run_describes h (new_describes s limit d), fun x hx => ?_, run_without_empty h, ?_⟩
  · have hnumber := congrArg (Option.map (·.message)) (hsound.getElem?_number hx)
    change c.ledger.admitted.map (·.message) = [] ++ es.filterMap (·.event.admitted? (Writer.create s limit))
      at hadmitted
    rw [← List.getElem?_map, hadmitted, List.nil_append, filterMap_admitted?, List.getElem?_map] at hnumber
    obtain ⟨m, hm, hcut⟩ := Option.map_eq_some_iff.mp hnumber
    change m.truncate limit = x.message at hcut
    have htakes := (List.mem_filter.mp (List.mem_of_getElem? hm)).2
    simp only [Writer.takes, Bool.and_eq_true, bne_iff_ne, Bool.or_eq_true, decide_eq_true_eq] at htakes
    refine ⟨m, hm, ?_, fun hs => htakes.2.resolve_left (by simp [Writer.create, hs])⟩
    rw [← hcut]
    exact Message.admits_truncate hlimit (Nat.pos_of_ne_zero htakes.1)
  · rw [run_oversize h, UInt64.toNat_add, UInt64.toNat_ofNat']
    exact Nat.add_mod_mod _ _ _

def assorted : List Moment :=
  [.start, .checked (.ok (.ok ())), .go, .add ⟨⟨0⟩, ""⟩, .add ⟨⟨1⟩, "aé€"⟩, .go, .add ⟨⟨2⟩, "b"⟩, .add ⟨⟨0⟩, ""⟩,
    .add ⟨⟨3⟩, "ééé"⟩].map (⟨0, ⟨0⟩, ·⟩)

theorem admitted_as_submitted_assorted :
    4 ≤ 4 ∧ ∃ c, (new { target := .sns {} } 4 {}).run pairs assorted = some c ∧
      (c.ledger.held ++ c.ledger.queued).map (fun x => (x.number, x.message)) =
        [(0, ⟨⟨1⟩, "aé"⟩), (1, ⟨⟨2⟩, "b"⟩), (2, ⟨⟨3⟩, "éé"⟩)] ∧
      (∀ x ∈ c.ledger.held ++ c.ledger.queued, ∃ m,
        ((assorted.filterMap (·.event.submitted?)).filter (Writer.create { target := .sns {} } 4).takes)[x.number]? =
          some m ∧ m.Admits 4 x.message) ∧
      (new { target := .sns {} } 4 {}).run pairs (assorted.filter (!·.event.isEmpty)) = some c ∧
      c.diagnostics.statistics.oversize.toNat = (0 + 2) % UInt64.size := by
  have hv : ((new { target := .sns {} } 4 {}).run pairs assorted).map (fun c =>
      (c.ledger.held ++ c.ledger.queued).map fun x => (x.number, x.message)) =
        some [(0, ⟨⟨1⟩, "aé"⟩), (1, ⟨⟨2⟩, "b"⟩), (2, ⟨⟨3⟩, "éé"⟩)] := by decide +kernel
  obtain ⟨c, hc, hn⟩ := Option.map_eq_some_iff.mp hv
  obtain ⟨-, hadmits, hempty, hoversize⟩ := admitted_as_submitted (Nat.le_refl 4) hc
  refine ⟨Nat.le_refl 4, c, hc, hn, fun x hx => ?_, hempty, hoversize⟩
  obtain ⟨m, hm, hadmits, -⟩ := hadmits x hx
  exact ⟨m, hm, hadmits⟩

end

end Course

end LogRelay
