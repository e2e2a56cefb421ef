import LogRelay.Backlog

/-!
# The contents of a backlog

Every operation on a backlog is an operation on the list of its messages, in the order in which
they leave. What a backlog keeps of a list that has grown past its threshold is `keep`, and what it
drops is `shed`: the two together are the list.
-/

namespace LogRelay

namespace DiscardAction

def keep {α : Type} (a : DiscardAction) (threshold : Nat) (l : List α) : List α :=
  match a with
  | none => l
  | oldest => l.drop (l.length - threshold)
  | newest => l.take threshold

def shed {α : Type} (a : DiscardAction) (threshold : Nat) (l : List α) : List α :=
  match a with
  | none => []
  | oldest => l.take (l.length - threshold)
  | newest => l.drop threshold

variable {α β : Type} (a : DiscardAction) (threshold : Nat)

theorem keep_sublist (l : List α) : (a.keep threshold l).Sublist l := by
  cases a with
  | none => exact List.Sublist.refl l
  | oldest => exact List.drop_sublist _ l
  | newest => exact List.take_sublist _ l

theorem keep_append_shed_perm (l : List α) : (a.keep threshold l ++ a.shed threshold l).Perm l := by
  cases a with
  | none => simp [keep, shed]
  | oldest =>
    refine List.perm_append_comm.trans ?_
    simp [keep, shed, List.take_append_drop]
  | newest => simp [keep, shed, List.take_append_drop]

theorem keep_map (f : α → β) (l : List α) : a.keep threshold (l.map f) = (a.keep threshold l).map f := by
  cases a <;> simp [keep, List.map_drop, List.map_take]

variable {a}

theorem length_keep_le (h : a ≠ none) (l : List α) : (a.keep threshold l).length ≤ threshold := by
  cases a with
  | none => exact absurd rfl h
  | oldest =>
    rw [keep, List.length_drop]
    omega
  | newest =>
    rw [keep, List.length_take]
    exact Nat.min_le_left _ _

theorem keep_of_length_le {threshold : Nat} {l : List α} (h : l.length ≤ threshold) : a.keep threshold l = l := by
  cases a with
  | none => rfl
  | oldest => rw [keep, Nat.sub_eq_zero_of_le h, List.drop_zero]
  | newest => exact List.take_of_length_le h

end DiscardAction

namespace Backlog

theorem toList_eq (q : Backlog) : q.toList = q.front ++ q.back.reverse := by
  unfold toList
  split
  · rename_i h; simp [h]
  · rfl

theorem length_toList (q : Backlog) : q.toList.length = q.size := by
  rw [toList_eq, q.size_eq]; simp

theorem isEmpty_iff (q : Backlog) : q.isEmpty = true ↔ q.toList = [] := by
  unfold isEmpty
  rw [beq_iff_eq, ← length_toList, List.length_eq_zero_iff]

theorem isEmpty_eq_false_iff (q : Backlog) : q.isEmpty = false ↔ q.toList ≠ [] := by
  rw [Ne, ← isEmpty_iff, Bool.not_eq_true]

@[simp] theorem toList_empty (n : Nat) (a : DiscardAction) : (empty n a).toList = [] := rfl

@[simp] theorem toList_withMessages (q : Backlog) (ms : List Message) : (q.withMessages ms).toList = ms := rfl

@[simp] theorem toList_requeue (q : Backlog) (ms : List Message) : (q.requeue ms).toList = ms ++ q.toList := by
  simp [toList_eq, requeue]

@[simp] theorem toList_push (q : Backlog) (m : Message) : (q.push m).toList = q.toList ++ [m] := by
  simp [toList_eq, push]

/-! ## Taking -/

structure SameSettings (q q' : Backlog) : Prop where
  threshold : q'.threshold = q.threshold
  action : q'.action = q.action
  interrupted : q'.interrupted = q.interrupted

theorem SameSettings.refl (q : Backlog) : SameSettings q q := ⟨rfl, rfl, rfl⟩

theorem SameSettings.trans {q₁ q₂ q₃ : Backlog} (h : SameSettings q₁ q₂) (h' : SameSettings q₂ q₃) :
    SameSettings q₁ q₃ :=
  ⟨h'.threshold.trans h.threshold, h'.action.trans h.action, h'.interrupted.trans h.interrupted⟩

theorem pop?_eq_some {q q' : Backlog} {m : Message} (h : q.pop? = some (m, q')) :
    q.toList = m :: q'.toList ∧ SameSettings q q' := by
  unfold pop? at h
  split at h
  · rename_i x rest hf
    cases h
    exact ⟨by simp [toList_eq, hf], ⟨rfl, rfl, rfl⟩⟩
  · rename_i hf
    split at h
    · cases h
    · rename_i x rest hb
      cases h
      exact ⟨by simp [toList_eq, hf, hb], ⟨rfl, rfl, rfl⟩⟩

theorem pop?_eq_none {q : Backlog} (h : q.pop? = .none) : q.toList = [] := by
  unfold pop? at h
  split at h
  · cases h
  · rename_i hf
    split at h
    · rename_i hb; simp [toList_eq, hf, hb]
    · cases h

/-! ## The policy -/

theorem dropOldest_spec (n : Nat) (q : Backlog) :
    (q.dropOldest n).toList = q.toList.drop n ∧ SameSettings q (q.dropOldest n) := by
  induction n generalizing q with
  | zero => exact ⟨rfl, .refl q⟩
  | succ n ih =>
    unfold dropOldest
    cases hp : q.pop? with
    | none => simp [pop?_eq_none hp, SameSettings.refl]
    | some p =>
      obtain ⟨m, q'⟩ := p
      obtain ⟨hl, hs⟩ := pop?_eq_some hp
      obtain ⟨ihl, ihs⟩ := ih q'
      exact ⟨by rw [ihl, hl, List.drop_succ_cons], hs.trans ihs⟩

theorem dropNewest_spec (n : Nat) (q : Backlog) :
    (q.dropNewest n).toList = q.toList.take (q.size - n) ∧ SameSettings q (q.dropNewest n) := by
  induction n generalizing q with
  | zero => simp [dropNewest, SameSettings.refl, List.take_of_length_le, length_toList]
  | succ n ih =>
    unfold dropNewest
    split
    · rename_i m rest hb
      obtain ⟨ihl, ihs⟩ := ih { q with
        back := rest
        size := q.size - 1
        size_eq := by have := q.size_eq; simp [hb] at this; omega }
      have hq : q.toList = (q.front ++ rest.reverse) ++ [m] := by simp [toList_eq, hb]
      have hlen := congrArg List.length hq
      rw [length_toList, List.length_append, List.length_singleton] at hlen
      refine ⟨?_, ⟨ihs.threshold, ihs.action, ihs.interrupted⟩⟩
      -- the message at the very back lies beyond the part that stays
      rw [ihl, hq, List.take_append_of_le_length (by omega), toList_eq]
      change List.take (q.size - 1 - n) _ = _
      rw [Nat.sub_sub, Nat.add_comm]
    · rename_i hb
      exact ⟨by simp [toList_eq q, hb], ⟨rfl, rfl, rfl⟩⟩

theorem discard_spec (q : Backlog) :
    q.discard.toList = q.action.keep q.threshold q.toList ∧ SameSettings q q.discard := by
  unfold discard
  cases q.action with
  | none => exact ⟨rfl, .refl q⟩
  | oldest =>
    obtain ⟨hl, hs⟩ := dropOldest_spec (q.size - q.threshold) q
    exact ⟨by rw [hl, ← length_toList]; rfl, hs⟩
  | newest =>
    obtain ⟨hl, hs⟩ := dropNewest_spec (q.size - q.threshold) q
    refine ⟨?_, hs⟩
    rw [hl]
    have hlen := length_toList q
    by_cases hle : q.size ≤ q.threshold
    · rw [show q.size - (q.size - q.threshold) = q.size by omega]
      simp only [DiscardAction.keep]
      rw [List.take_of_length_le (by omega), List.take_of_length_le (by omega)]
    · rw [show q.size - (q.size - q.threshold) = q.threshold by omega]
      rfl

@[simp] theorem toList_enqueue (q : Backlog) (m : Message) :
    (q.enqueue m).toList = q.action.keep q.threshold (q.toList ++ [m]) := by
  unfold enqueue
  rw [(discard_spec (q.push m)).1, toList_push]
  rfl

theorem enqueue_sameSettings (q : Backlog) (m : Message) : SameSettings q (q.enqueue m) :=
  have h := (discard_spec (q.push m)).2
  ⟨h.threshold, h.action, h.interrupted⟩

end Backlog

end LogRelay
