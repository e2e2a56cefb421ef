import LogRelay.Proofs.Contents

/-!
# A ledger of messages

The messages that a writer has admitted are numbered in the order of their admission, and each
stands in one place: delivered, held in the batch at hand, queued, discarded by a policy, or lost to
a panic in sizing. The ledger is kept without looking at any writer. A ledger that is sound accounts
for every message once, and what is held and then queued is in the order of admission.
-/

namespace LogRelay

structure Submission where
  number : Nat
  message : Message
deriving DecidableEq

structure Ledger where
  admitted : List Submission := []
  delivered : List Submission := []
  held : List Submission := []
  queued : List Submission := []
  discarded : List Submission := []
  lost : List Submission := []

namespace Ledger

/-- What stands at the positions listed, in the order in which it stands. -/
def listed {α : Type} (positions : List Nat) (l : List α) : List α :=
  (l.zipIdx.filter fun x => x.2 ∈ positions).map (·.1)

def unlisted {α : Type} (positions : List Nat) (l : List α) : List α :=
  (l.zipIdx.filter fun x => x.2 ∉ positions).map (·.1)

def submission (m : Message) (l : Ledger) : Submission := ⟨l.admitted.length, m⟩

def enroll (a : DiscardAction) (threshold : Nat) (m : Message) (l : Ledger) : Ledger :=
  { l with
    admitted := l.admitted ++ [l.submission m]
    queued := a.keep threshold (l.queued ++ [l.submission m])
    discarded := l.discarded ++ a.shed threshold (l.queued ++ [l.submission m]) }

def take (n : Nat) (l : Ledger) : Ledger :=
  { l with held := l.held ++ l.queued.take n, queued := l.queued.drop n }

def settle (failed : List Nat) (l : Ledger) : Ledger :=
  { l with
    delivered := l.delivered ++ unlisted failed l.held
    held := []
    queued := listed failed l.held ++ l.queued }

def giveBack (l : Ledger) : Ledger := { l with held := [], queued := l.held ++ l.queued }

def drain (l : Ledger) : Ledger := { l with queued := [], discarded := l.discarded ++ l.queued }

def lose (l : Ledger) : Ledger := { l with held := [], lost := l.lost ++ l.held }

variable {α β : Type} (positions : List Nat)

theorem listed_map (f : α → β) (l : List α) : listed positions (l.map f) = (listed positions l).map f := by
  unfold listed
  rw [List.zipIdx_map, List.filter_map, List.map_map, List.map_map]
  rfl

theorem listed_sublist (l : List α) : (listed positions l).Sublist l := by
  have h := (List.filter_sublist (l := l.zipIdx) (p := fun x => x.2 ∈ positions)).map Prod.fst
  rwa [List.zipIdx_map_fst] at h

theorem unlisted_append_listed_perm (l : List α) : (unlisted positions l ++ listed positions l).Perm l := by
  have h := (List.filter_append_perm (fun x : α × Nat => decide (x.2 ∈ positions)) l.zipIdx).map Prod.fst
  rw [List.map_append, List.zipIdx_map_fst] at h
  refine List.perm_append_comm.trans ?_
  simpa [listed, unlisted] using h

theorem length_unlisted (l : List α) :
    (unlisted positions l).length = l.length - (listed positions l).length := by
  have h := (unlisted_append_listed_perm positions l).length_eq
  rw [List.length_append] at h
  omega

theorem length_listed_lt_iff (l : List α) :
    (listed positions l).length < l.length ↔ ∃ i < l.length, i ∉ positions := by
  have hlength : (listed positions l).length < l.length ↔ ∃ x ∈ l.zipIdx, x.2 ∉ positions := by
    unfold listed
    rw [List.length_map, ← List.length_zipIdx (l := l) (i := 0), List.length_filter_lt_length_iff_exists]
    simp only [decide_eq_true_eq]
  rw [hlength]
  constructor
  · rintro ⟨⟨a, i⟩, hx, hi⟩
    exact ⟨i, (List.mem_zipIdx' hx).1, hi⟩
  · rintro ⟨i, hlt, hi⟩
    exact ⟨(l[i], i), List.mk_mem_zipIdx_iff_getElem?.mpr (List.getElem?_eq_getElem hlt), hi⟩

/-! ## Soundness -/

def places (l : Ledger) : List Submission := l.delivered ++ l.held ++ l.queued ++ l.discarded ++ l.lost

theorem count_places (l : Ledger) (s : Submission) :
    l.places.count s =
      l.delivered.count s + l.held.count s + l.queued.count s + l.discarded.count s + l.lost.count s := by
  simp only [places, List.count_append]

structure Sound (l : Ledger) : Prop where
  parts : l.places.Perm l.admitted
  numbers : l.admitted.map (·.number) = List.range l.admitted.length
  ordered : (l.held ++ l.queued).Pairwise (·.number < ·.number)

theorem sound_empty : ({} : Ledger).Sound := ⟨.refl _, rfl, .nil⟩

variable {l l' : Ledger}

/-- Moving messages from place to place loses none of them. -/
theorem Sound.parts_of_count (h : l.Sound)
    (hc : ∀ s, l'.places.count s + l.admitted.count s = l.places.count s + l'.admitted.count s) :
    l'.places.Perm l'.admitted := by
  rw [List.perm_iff_count]
  intro s
  have hs := List.perm_iff_count.mp h.parts s
  have := hc s
  omega

theorem Sound.getElem?_number (h : l.Sound) {s : Submission} (hs : s ∈ l.held ++ l.queued) :
    l.admitted[s.number]? = some s := by
  have hm : s ∈ l.admitted := by
    refine h.parts.mem_iff.mp ?_
    unfold places
    rw [List.mem_append] at hs
    rcases hs with hs | hs <;> simp [hs]
  obtain ⟨i, hi, rfl⟩ := List.getElem_of_mem hm
  have hn : (l.admitted.map (·.number))[i]? = some i := by rw [h.numbers, List.getElem?_range hi]
  rw [List.getElem?_map, List.getElem?_eq_getElem hi] at hn
  have hi' : l.admitted[i].number = i := Option.some.inj hn
  rw [hi', List.getElem?_eq_getElem hi]

theorem Sound.number_lt (h : l.Sound) {s : Submission} (hs : s ∈ l.held ++ l.queued) :
    s.number < l.admitted.length := (List.getElem?_eq_some_iff.mp (h.getElem?_number hs)).1

theorem Sound.nodup (h : l.Sound) : l.admitted.Nodup := by
  have hn : (l.admitted.map (·.number)).Nodup := by rw [h.numbers]; exact List.nodup_range
  refine (List.pairwise_map.mp hn).imp ?_
  intro x y hxy he
  exact hxy (congrArg _ he)

theorem Sound.enroll (h : l.Sound) (a : DiscardAction) (threshold : Nat) (m : Message) :
    (l.enroll a threshold m).Sound := by
  refine ⟨h.parts_of_count fun x => ?_, ?_, ?_⟩
  · have hk := List.perm_iff_count.mp (a.keep_append_shed_perm threshold (l.queued ++ [l.submission m])) x
    simp only [count_places, Ledger.enroll, List.count_append] at hk ⊢
    omega
  · simp only [Ledger.enroll, List.map_append, h.numbers, List.length_append, List.length_singleton,
      List.range_succ, List.map_singleton, submission]
  · -- the new number is the largest, and a policy only leaves messages out
    have hs : (l.held ++ (l.queued ++ [l.submission m])).Pairwise (·.number < ·.number) := by
      rw [← List.append_assoc, List.pairwise_append]
      refine ⟨h.ordered, List.pairwise_singleton _ _, fun x hx y hy => ?_⟩
      rw [List.mem_singleton] at hy
      subst hy
      exact h.number_lt hx
    exact hs.sublist ((List.Sublist.refl l.held).append (a.keep_sublist threshold _))

theorem Sound.take (h : l.Sound) (n : Nat) : (l.take n).Sound := by
  have he : (l.take n).held ++ (l.take n).queued = l.held ++ l.queued := by
    simp [Ledger.take, List.append_assoc, List.take_append_drop]
  refine ⟨h.parts_of_count fun x => ?_, h.numbers, by rw [he]; exact h.ordered⟩
  have hx := congrArg (List.count x) he
  simp only [count_places, List.count_append] at hx ⊢
  change l.delivered.count x + _ + _ + l.discarded.count x + l.lost.count x + l.admitted.count x =
    _ + l.admitted.count x
  omega

theorem Sound.settle (h : l.Sound) (failed : List Nat) : (l.settle failed).Sound := by
  refine ⟨h.parts_of_count fun x => ?_, h.numbers, ?_⟩
  · have hu := List.perm_iff_count.mp (unlisted_append_listed_perm failed l.held) x
    simp only [count_places, Ledger.settle, List.count_append, List.count_nil] at hu ⊢
    omega
  · -- what comes back stood in front of the queue, in this order
    exact h.ordered.sublist ((listed_sublist failed l.held).append (.refl l.queued))

theorem Sound.giveBack (h : l.Sound) : l.giveBack.Sound := by
  refine ⟨h.parts_of_count fun x => ?_, h.numbers, h.ordered⟩
  simp only [count_places, Ledger.giveBack, List.count_append, List.count_nil]
  omega

theorem Sound.drain (h : l.Sound) : l.drain.Sound := by
  refine ⟨h.parts_of_count fun x => ?_, h.numbers, ?_⟩
  · simp only [count_places, Ledger.drain, List.count_append, List.count_nil]
    omega
  · exact h.ordered.sublist ((List.Sublist.refl l.held).append (List.nil_sublist l.queued))

theorem Sound.lose (h : l.Sound) : l.lose.Sound := by
  refine ⟨h.parts_of_count fun x => ?_, h.numbers, ?_⟩
  · simp only [count_places, Ledger.lose, List.count_append, List.count_nil]
    omega
  · exact h.ordered.sublist (List.sublist_append_right l.held l.queued)

end Ledger

end LogRelay
