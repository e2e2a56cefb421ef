import LogRelay.Proofs.Ledger
import LogRelay.Writer.Batch

/-!
# The messages of a batch that were not accepted

The positions that come back with a batch may be in any order, be repeated and lie beyond its end. Put
in order, each once, they are met one after the other on a single pass through the batch, which picks
just the messages that are listed.
-/

namespace LogRelay.Batch

variable {p i : Nat} {ps : List Nat}

theorem mem_insertPosition {q : Nat} : q ∈ insertPosition p ps ↔ q = p ∨ q ∈ ps := by
  induction ps with
  | nil => simp [insertPosition]
  | cons x xs ih =>
    unfold insertPosition
    split
    · exact List.mem_cons
    · split
      · rename_i hx
        subst hx
        simp
      · rw [List.mem_cons, ih, List.mem_cons, or_left_comm]

theorem pairwise_insertPosition (h : ps.Pairwise (· < ·)) : (insertPosition p ps).Pairwise (· < ·) := by
  induction ps with
  | nil => exact List.pairwise_singleton _ _
  | cons x xs ih =>
    obtain ⟨hx, hxs⟩ := List.pairwise_cons.mp h
    unfold insertPosition
    split
    · rename_i hp
      refine List.pairwise_cons.mpr ⟨fun y hy => ?_, h⟩
      rcases List.mem_cons.mp hy with rfl | hy
      · exact hp
      · exact Nat.lt_trans hp (hx y hy)
    · split
      · exact h
      · rename_i hlt hne
        refine List.pairwise_cons.mpr ⟨fun y hy => ?_, ih hxs⟩
        rcases mem_insertPosition.mp hy with rfl | hy
        · omega
        · exact hx y hy

theorem mem_ascending {positions : List Nat} : i ∈ ascending positions ↔ i ∈ positions := by
  unfold ascending
  induction positions with
  | nil => simp
  | cons p ps ih => rw [List.foldr_cons, mem_insertPosition, ih, List.mem_cons]

theorem pairwise_ascending (positions : List Nat) : (ascending positions).Pairwise (· < ·) := by
  unfold ascending
  induction positions with
  | nil => exact .nil
  | cons p ps ih =>
    rw [List.foldr_cons]
    exact pairwise_insertPosition ih

/-- The pass never meets a position that it has gone past. -/
theorem pick_eq_filter (h : ps.Pairwise (· < ·)) (hi : ∀ p ∈ ps, i ≤ p) (ms : List Message) :
    pick i ps ms = ((ms.zipIdx i).filter fun x => x.2 ∈ ps).map (·.1) := by
  induction ms generalizing i ps with
  | nil => cases ps <;> rfl
  | cons m ms ih =>
    rw [List.zipIdx_cons]
    cases ps with
    | nil => simp [pick]
    | cons p ps =>
      obtain ⟨hp, hps⟩ := List.pairwise_cons.mp h
      by_cases hpi : p = i
      · subst hpi
        have hnext : ∀ q ∈ ps, p + 1 ≤ q := hp
        -- the positions further on are not the one that was met
        have hrest : ((ms.zipIdx (p + 1)).filter fun x => x.2 ∈ p :: ps) =
            (ms.zipIdx (p + 1)).filter fun x => x.2 ∈ ps := by
          refine List.filter_congr fun x hx => ?_
          have hle := List.le_snd_of_mem_zipIdx hx
          have hne : x.2 ≠ p := by omega
          simp [hne]
        simp only [pick, if_true]
        rw [ih hps hnext, List.filter_cons_of_pos (by simp), hrest, List.map_cons]
      · have hip : i < p := by
          have := hi p List.mem_cons_self
          omega
        have hnext : ∀ q ∈ p :: ps, i + 1 ≤ q := by
          intro q hq
          rcases List.mem_cons.mp hq with rfl | hq
          · exact hip
          · exact Nat.le_trans hip (Nat.le_of_lt (hp q hq))
        have hnot : i ∉ p :: ps := fun hmem => Nat.lt_irrefl i (hnext i hmem)
        simp only [pick, if_neg hpi]
        rw [ih h hnext, List.filter_cons_of_neg (by simpa using hnot)]

theorem pick_ascending (failed : List Nat) (batch : List Message) :
    pick 0 (ascending failed) batch = Ledger.listed failed batch := by
  rw [pick_eq_filter (pairwise_ascending failed) (fun p _ => Nat.zero_le p)]
  unfold Ledger.listed
  simp only [mem_ascending]

end LogRelay.Batch
