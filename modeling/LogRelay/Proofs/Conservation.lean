import LogRelay.Proofs.Course

/-!
# No message is lost, doubled or overtaken

The ledger of a course is sound at every moment, whatever becomes of the batches that are sent: each
message that was admitted stands in one place, and what is held and queued is in the order of
admission. With a measure that does not panic no message is lost, and the statistics count the
messages delivered.
-/

namespace LogRelay

namespace Diagnostics

theorem sent_record (now : Timestamp) (n : Notice) (d : Diagnostics) :
    (d.record now n).statistics.sent = d.statistics.sent + n.delivered.toUInt64 := by
  cases n with
  | sent delivered requeued =>
    simp only [record]
    split <;> rfl
  | refused count e => rfl
  | _ => exact (UInt64.add_zero _).symm

theorem recordAll_counts {counter : Statistics → UInt64} {share : Notice → Nat}
    (h : ∀ now n (d : Diagnostics), counter (d.record now n).statistics = counter d.statistics + (share n).toUInt64)
    (now : Timestamp) (ns : List Notice) (d : Diagnostics) :
    counter (d.recordAll now ns).statistics = counter d.statistics + (ns.map share).sum.toUInt64 := by
  induction ns generalizing d with
  | nil => exact (UInt64.add_zero _).symm
  | cons n ns ih =>
    have hc : ((n :: ns).map share).sum.toUInt64 = (share n).toUInt64 + (ns.map share).sum.toUInt64 :=
      UInt64.ofNat_add (share n) (ns.map share).sum
    have hr : d.recordAll now (n :: ns) = (d.record now n).recordAll now ns := rfl
    rw [hr, ih, h, hc, UInt64.add_assoc]

theorem sent_recordAll (now : Timestamp) (ns : List Notice) (d : Diagnostics) :
    (d.recordAll now ns).statistics.sent = d.statistics.sent + (Notice.deliveredIn ns).toUInt64 :=
  recordAll_counts sent_record now ns d

end Diagnostics

namespace Ledger

variable {μ : Measure} {now : Instant} {w : Writer} {r : Writer × List Notice} {l : Ledger}

theorem Sound.enter (h : l.Sound) (w w' : Writer) (e : Event) : (l.enter w w' e).Sound := by
  cases e with
  | add m =>
    simp only [Ledger.enter]
    split
    · exact h.enroll _ _ _
    · exact h
  | go =>
    simp only [Ledger.enter]
    split
    · exact (h.take _).lose
    · exact h.take _
  | checked result =>
    unfold Ledger.enter
    split
    all_goals first | exact h.drain | exact h | simp_all
  | sent result =>
    unfold Ledger.enter
    split
    all_goals first | exact h.settle _ | exact h.giveBack | simp_all
  | _ => exact h

/-- With a measure that does not panic, a batch that is let go of was empty. -/
theorem Describes.none_lost (h : l.Describes w) (ht : μ.Total) {e : Event} (hc : w.Change μ now r e)
    (hl : l.lost = []) : (l.enter w r.1 e).lost = [] := by
  cases e with
  | go =>
    cases hc with
    | call he _ _ => cases he
    | go hm =>
      obtain ⟨taken, hq, hh⟩ := hm.advances.taken
      obtain ⟨hheld, -⟩ := h.take hq
      simp only [Ledger.enter]
      split
      · rename_i he
        rw [List.isEmpty_iff] at he
        -- all that was held and taken is held still, so it was nothing
        rcases hh with hh | ⟨-, hn⟩
        · rw [← hh, he, List.map_eq_nil_iff] at hheld
          simp only [Ledger.lose, hheld, List.append_nil]
          exact hl
        · exact absurd ht hn
      · exact hl
  | add m => simp only [Ledger.enter]; split <;> exact hl
  | checked result => unfold Ledger.enter; split <;> first | exact hl | simp_all
  | sent result => unfold Ledger.enter; split <;> first | exact hl | simp_all
  | _ => exact hl

theorem Describes.delivered_enter (h : l.Describes w) {e : Event} (hc : w.Change μ now r e) :
    (l.enter w r.1 e).delivered.length = l.delivered.length + Notice.deliveredIn r.2 := by
  cases hc with
  | @ignore m hm hk hq => simp only [Ledger.enter, hm, hk.delivered, Nat.add_zero]
  | @enqueue m m' hm hk hq => simp only [Ledger.enter, hm, hk.delivered, Nat.add_zero]; rfl
  | call he hk _ => rw [hk.delivered, enter_of_isCall he, Nat.add_zero]
  | go hm =>
    rw [hm.advances.delivered]
    simp only [Ledger.enter]
    split <;> rfl
  | clear _ hc => rw [hc.delivered]; rfl
  | @check result hr hk _ =>
    rw [hk.delivered]
    unfold Ledger.enter
    split <;> first | rfl | simp_all
  | @settle batch last failed hp hs =>
    have hb : l.held.map (·.message) = batch := by rw [h.held]; simp [Writer.held, hp]
    rw [hs.delivered, retained_eq_listed, ← hb, listed_map, List.length_map, List.length_map, ← length_unlisted,
      ← List.length_append]
    rfl
  | @giveBack batch last result hp hr hs =>
    rw [hs.delivered]
    unfold Ledger.enter
    split <;> first | rfl | simp_all
  | close hk _ => rw [hk.delivered]; rfl

theorem admitted_enter (l : Ledger) (w w' : Writer) (e : Event) :
    (l.enter w w' e).admitted.map (·.message) = l.admitted.map (·.message) ++ (e.admitted? w).toList := by
  cases e with
  | add m =>
    simp only [Ledger.enter, Event.admitted?]
    cases hm : w.admitted? m with
    | none => simp
    | some m' => simp [Ledger.enroll, submission]
  | go => simp only [Ledger.enter]; split <;> simp [Ledger.lose, Ledger.take, Event.admitted?]
  | checked result => unfold Ledger.enter; split <;> simp_all [Ledger.drain, Event.admitted?]
  | sent result => unfold Ledger.enter; split <;> simp_all [Ledger.settle, Ledger.giveBack, Event.admitted?]
  | _ => simp [Ledger.enter, Event.admitted?]

end Ledger

/-! ## Whole courses -/

namespace Course

variable {μ : Measure} {es : List Moment} {c c' : Course}

theorem run_sound (h : c.run μ es = some c') (hs : c.ledger.Sound) : c'.ledger.Sound := by
  refine run_induct (P := fun c => c.ledger.Sound) (fun x c c' hx hs => ?_) h hs
  obtain ⟨r, -, -, -, hl⟩ := step_eq_some hx
  rw [hl]
  exact hs.enter _ _ _

theorem run_describes (h : c.run μ es = some c') (hd : c.ledger.Describes c.writer) :
    c'.ledger.Describes c'.writer := by
  refine run_induct (P := fun c => c.ledger.Describes c.writer) (fun x c c' hx hd => ?_) h hd
  obtain ⟨r, hc, hw, -, hl⟩ := step_eq_some hx
  rw [hl, hw]
  exact hd.enter hc

theorem run_none_lost (ht : μ.Total) (h : c.run μ es = some c') (hd : c.ledger.Describes c.writer)
    (hl : c.ledger.lost = []) : c'.ledger.lost = [] := by
  refine (run_induct (P := fun c => c.ledger.Describes c.writer ∧ c.ledger.lost = [])
    (fun x c c' hx hP => ?_) h ⟨hd, hl⟩).2
  obtain ⟨r, hc, hw, -, hl⟩ := step_eq_some hx
  rw [hl, hw]
  exact ⟨hP.1.enter hc, hP.1.none_lost ht hc hP.2⟩

theorem run_counted {sent : UInt64} (h : c.run μ es = some c') (hd : c.ledger.Describes c.writer)
    (hs : c.diagnostics.statistics.sent = sent + c.ledger.delivered.length.toUInt64) :
    c'.diagnostics.statistics.sent = sent + c'.ledger.delivered.length.toUInt64 := by
  refine (run_induct (P := fun c => c.ledger.Describes c.writer ∧
    c.diagnostics.statistics.sent = sent + c.ledger.delivered.length.toUInt64)
    (fun x c c' hx hP => ?_) h ⟨hd, hs⟩).2
  obtain ⟨r, hc, hw, hg, hl⟩ := step_eq_some hx
  rw [hl, hw]
  refine ⟨hP.1.enter hc, ?_⟩
  rw [hg, Diagnostics.sent_recordAll, hP.2, hP.1.delivered_enter hc, UInt64.add_assoc]
  exact congrArg _ (UInt64.ofNat_add _ _).symm

theorem run_admitted (h : c.run μ es = some c') :
    c'.ledger.admitted.map (·.message) =
      c.ledger.admitted.map (·.message) ++ es.filterMap (·.event.admitted? c.writer) := by
  induction es generalizing c with
  | nil =>
    simp only [run, Option.some.injEq] at h
    simp [h]
  | cons x es ih =>
    obtain ⟨c₁, h₁, h₂⟩ := Option.bind_eq_some_iff.mp h
    obtain ⟨r, hc, hw, -, hl⟩ := step_eq_some h₁
    rw [ih h₂, hl, Ledger.admitted_enter, hw, List.append_assoc]
    simp only [hc.make.admitted?]
    congr 1
    cases he : x.event.admitted? c.writer <;> simp [he]

theorem new_describes (s : Settings) (limit : Nat) (d : Diagnostics) :
    (new s limit d).ledger.Describes (new s limit d).writer := ⟨rfl, rfl⟩

section
variable {s : Settings} {limit : Nat} {d : Diagnostics}

/-- Whatever happens to a new writer, each message that was admitted is either delivered, in the
batch at hand, in the queue or discarded, and in one of these places only. -/
theorem messages_conserved (ht : μ.Total) (h : (new s limit d).run μ es = some c) :
    c.ledger.Describes c.writer ∧
    c.ledger.admitted.map (·.message) = es.filterMap (·.event.admitted? (Writer.create s limit)) ∧
    c.ledger.admitted.map (·.number) = List.range c.ledger.admitted.length ∧
    (c.ledger.delivered ++ c.ledger.held ++ c.ledger.queued ++ c.ledger.discarded).Perm c.ledger.admitted ∧
    (c.ledger.delivered ++ c.ledger.held ++ c.ledger.queued ++ c.ledger.discarded).Nodup ∧
    c.diagnostics.statistics.sent.toNat =
      (d.statistics.sent.toNat + c.ledger.delivered.length) % UInt64.size := by
  have hs : c.ledger.Sound := run_sound h Ledger.sound_empty
  have hd := run_describes h (new_describes s limit d)
  have hl : c.ledger.lost = [] := run_none_lost ht h (new_describes s limit d) rfl
  have hp : (c.ledger.delivered ++ c.ledger.held ++ c.ledger.queued ++ c.ledger.discarded).Perm
      c.ledger.admitted := by
    have h := hs.parts
    rwa [Ledger.places, hl, List.append_nil] at h
  have hc : c.diagnostics.statistics.sent = d.statistics.sent + c.ledger.delivered.length.toUInt64 :=
    run_counted h (new_describes s limit d) (UInt64.add_zero _).symm
  refine ⟨hd, run_admitted h, hs.numbers, hp, hp.nodup_iff.mpr hs.nodup, ?_⟩
  rw [hc, UInt64.toNat_add, UInt64.toNat_ofNat']
  exact Nat.add_mod_mod _ _ _

def pairs : Measure := ⟨fun m => .ok m.size, fun bytes count => .ok (bytes ≤ 8 && count ≤ 2)⟩

def mixed : List Moment :=
  [.start, .checked (.ok (.ok ())), .go, .add ⟨⟨0⟩, "a"⟩, .go, .add ⟨⟨0⟩, "b"⟩, .add ⟨⟨0⟩, "c"⟩, .go,
    .add ⟨⟨0⟩, "d"⟩, .add ⟨⟨0⟩, "e"⟩, .sent (.ok (.ok [1, 7, 1])), .go, .go, .go].map (⟨0, ⟨0⟩, ·⟩)

theorem messages_conserved_mixed :
    ∃ c, (new { target := .sns {}, discardThreshold := 2 } 8 {}).run pairs mixed = some c ∧
      (c.ledger.delivered.map (·.number), c.ledger.held.map (·.number), c.ledger.queued.map (·.number),
        c.ledger.discarded.map (·.number)) = ([0], [1, 3], [4], [2]) ∧
      (c.ledger.delivered ++ c.ledger.held ++ c.ledger.queued ++ c.ledger.discarded).Perm c.ledger.admitted ∧
      c.diagnostics.statistics.sent.toNat = (0 + c.ledger.delivered.length) % UInt64.size := by
  have hv : ((new { target := .sns {}, discardThreshold := 2 } 8 {}).run pairs mixed).map (fun c =>
      (c.ledger.delivered.map (·.number), c.ledger.held.map (·.number), c.ledger.queued.map (·.number),
        c.ledger.discarded.map (·.number))) = some ([0], [1, 3], [4], [2]) := by decide
  obtain ⟨c, hc, hn⟩ := Option.map_eq_some_iff.mp hv
  have ht : pairs.Total := ⟨fun m => ⟨m.size, rfl⟩, fun _ _ => ⟨_, rfl⟩⟩
  obtain ⟨-, -, -, hp, -, hs⟩ := messages_conserved ht hc
  exact ⟨c, hc, hn, hp, hs⟩

/-- Messages leave in the order in which they came, also when they have to be sent again: the queue
is in order, and a batch comes before all that is queued. -/
theorem order_kept (h : (new s limit d).run μ es = some c) :
    c.ledger.Describes c.writer ∧
    c.ledger.admitted.map (·.message) = es.filterMap (·.event.admitted? (Writer.create s limit)) ∧
    (∀ x ∈ c.ledger.held ++ c.ledger.queued, c.ledger.admitted[x.number]? = some x) ∧
    c.ledger.queued.Pairwise (·.number < ·.number) ∧
    (∀ x ∈ c.ledger.held, ∀ y ∈ c.ledger.queued, x.number < y.number) ∧
    ∀ now batch last, c.writer.next μ now = .send batch last →
      batch = c.ledger.held.map (·.message) ∧ c.ledger.held.Pairwise (·.number < ·.number) := by
  have hs : c.ledger.Sound := run_sound h Ledger.sound_empty
  have hd := run_describes h (new_describes s limit d)
  obtain ⟨hh, hq, hb⟩ := List.pairwise_append.mp hs.ordered
  refine ⟨hd, run_admitted h, fun x hx => hs.getElem?_number hx, hq, hb, ?_⟩
  intro now batch last hn
  refine ⟨?_, hh⟩
  rw [hd.held, Writer.held, Writer.next_send hn]

theorem order_kept_mixed :
    ∃ c, (new { target := .sns {}, discardThreshold := 2 } 8 {}).run pairs mixed = some c ∧
      c.writer.next pairs 0 = .send [⟨⟨0⟩, "b"⟩, ⟨⟨0⟩, "d"⟩] false ∧
      [⟨⟨0⟩, "b"⟩, ⟨⟨0⟩, "d"⟩] = c.ledger.held.map (·.message) ∧
      c.ledger.held.Pairwise (·.number < ·.number) ∧
      ∀ x ∈ c.ledger.held, ∀ y ∈ c.ledger.queued, x.number < y.number := by
  obtain ⟨c, hc, hn⟩ : ∃ c, (new { target := .sns {}, discardThreshold := 2 } 8 {}).run pairs mixed = some c ∧
      c.writer.next pairs 0 = .send [⟨⟨0⟩, "b"⟩, ⟨⟨0⟩, "d"⟩] false := ⟨_, rfl, rfl⟩
  obtain ⟨-, -, -, -, hb, hsend⟩ := order_kept hc
  obtain ⟨hm, ho⟩ := hsend 0 _ false hn
  exact ⟨c, hc, hn, hm, ho, hb⟩

end

end Course

end LogRelay
