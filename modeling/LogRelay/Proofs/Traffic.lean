import LogRelay.Backlog.Timed
import LogRelay.Proofs.Contents

/-!
# Messages that come and go

Whatever is done to a backlog, it holds what a plain list holds that grows at its end, is cut down to the
threshold when it has grown beyond it, and has messages put before it and taken from its front. When
messages only come and go, what is left of those that came depends on the action alone: the last of them
under `oldest`, those that found room and have not left under `newest`, all that have not left under `none`.
-/

namespace LogRelay.Backlog

/-! ## A backlog as a plain list -/

structure Plain where
  messages : List Message
  threshold : Nat
  action : DiscardAction

namespace Plain

def cut (p : Plain) : Plain :=
  if p.messages.length ≤ p.threshold then p
  else match p.action with
    | .none => p
    | .oldest => { p with messages := p.messages.drop (p.messages.length - p.threshold) }
    | .newest => { p with messages := p.messages.take p.threshold }

def apply (p : Plain) : Change → Plain
  | .enqueue m => { p with messages := p.messages ++ [m] }.cut
  | .requeue ms => { p with messages := ms ++ p.messages }
  | .take => { p with messages := p.messages.tail }
  | .interrupt => p
  | .setThreshold n => { p with threshold := n }
  | .setAction a => { p with action := a }

theorem cut_eq (p : Plain) : p.cut = { p with messages := p.action.keep p.threshold p.messages } := by
  unfold cut
  split
  · rename_i h
    rw [DiscardAction.keep_of_length_le h]
  · split <;> rename_i ha <;> simp only [DiscardAction.keep, ha]
    rw [← ha]

end Plain

def plain (q : Backlog) : Plain := ⟨q.toList, q.threshold, q.action⟩

variable {q : Backlog} {changes : List Change}

theorem take_spec (q : Backlog) :
    q.take.1 = q.toList.head? ∧ q.take.2.toList = q.toList.tail ∧ SameSettings q q.take.2 := by
  unfold take
  cases hp : q.pop? with
  | none => simp [pop?_eq_none hp, SameSettings.refl]
  | some p =>
    obtain ⟨hl, hs⟩ := pop?_eq_some hp
    simp [hl, hs]

theorem plain_apply (q : Backlog) (c : Change) : (c.apply q).plain = q.plain.apply c := by
  cases c with
  | enqueue m =>
    have hs := enqueue_sameSettings q m
    simp [Change.apply, Plain.apply, plain, Plain.cut_eq, hs.threshold, hs.action]
  | take =>
    obtain ⟨-, hl, hs⟩ := take_spec q
    simp [Change.apply, Plain.apply, plain, hl, hs.threshold, hs.action]
  | requeue ms =>
    have hl := toList_requeue q ms
    simp only [Change.apply, Plain.apply, plain, hl]
    rfl
  | interrupt | setThreshold n | setAction a => rfl

def after (q : Backlog) (changes : List Change) : Backlog := changes.foldl Change.apply q

theorem plain_after (q : Backlog) (changes : List Change) :
    (q.after changes).plain = changes.foldl Plain.apply q.plain := by
  induction changes generalizing q with
  | nil => rfl
  | cons c cs ih =>
    rw [List.foldl_cons, ← plain_apply]
    exact ih (c.apply q)

/-! ## Traffic -/

namespace Change

def isTraffic : Change → Bool
  | enqueue _ | take => true
  | _ => false

def coming : Change → List Message
  | enqueue m => [m]
  | _ => []

def leaving (q : Backlog) : Change → List Message
  | take => q.take.1.toList
  | _ => []

end Change

def came (changes : List Change) : List Message := changes.flatMap Change.coming

def left : Backlog → List Change → List Message
  | _, [] => []
  | q, c :: cs => c.leaving q ++ (c.apply q).left cs

/-- The messages that come while there is room, which is judged by how many are queued. -/
def welcomed (room : Nat → Bool) : Backlog → List Change → List Message
  | _, [] => []
  | q, c :: cs => (if room q.toList.length then c.coming else []) ++ (c.apply q).welcomed room cs

theorem welcomed_always (q : Backlog) (changes : List Change) :
    q.welcomed (fun _ => true) changes = came changes := by
  induction changes generalizing q with
  | nil => rfl
  | cons c cs ih =>
    unfold welcomed
    rw [ih]
    rfl

/-- The settings that a backlog has, and what they promise as long as nobody changes them. -/
structure Under (a : DiscardAction) (n : Nat) (q : Backlog) : Prop where
  action : q.action = a
  threshold : q.threshold = n
  length : a ≠ .none → q.toList.length ≤ n

section
variable {a : DiscardAction} {n : Nat}

theorem under_empty (n : Nat) (a : DiscardAction) : (empty n a).Under a n := ⟨rfl, rfl, fun _ => Nat.zero_le n⟩

theorem Under.apply {c : Change} (h : q.Under a n) (hc : c.isTraffic = true) : (c.apply q).Under a n := by
  cases c with
  | enqueue m =>
    have hs := enqueue_sameSettings q m
    refine ⟨hs.action.trans h.action, hs.threshold.trans h.threshold, fun ha => ?_⟩
    show (q.enqueue m).toList.length ≤ n
    rw [toList_enqueue, h.action, h.threshold]
    exact DiscardAction.length_keep_le n ha _
  | take =>
    obtain ⟨-, hl, hs⟩ := take_spec q
    refine ⟨hs.action.trans h.action, hs.threshold.trans h.threshold, fun ha => ?_⟩
    show q.take.2.toList.length ≤ n
    rw [hl, List.length_tail]
    exact Nat.le_trans (Nat.sub_le _ _) (h.length ha)
  | _ => cases hc

theorem Under.toList_enqueue_none (h : q.Under .none n) (m : Message) : (q.enqueue m).toList = q.toList ++ [m] := by
  rw [toList_enqueue, h.action]
  rfl

theorem Under.toList_enqueue_newest (h : q.Under .newest n) (m : Message) :
    (q.enqueue m).toList = if q.toList.length < n then q.toList ++ [m] else q.toList := by
  have hle := h.length (by simp)
  rw [toList_enqueue, h.action, h.threshold]
  split
  · exact DiscardAction.keep_of_length_le (by simp; omega)
  · have hn : n = q.toList.length := by omega
    rw [hn]
    exact List.take_left

variable (hc : ∀ c ∈ changes, c.isTraffic = true)
include hc

theorem Under.after (h : q.Under a n) : (q.after changes).Under a n := by
  induction changes generalizing q with
  | nil => exact h
  | cons c cs ih => exact ih (fun d hd => hc d (List.mem_cons_of_mem c hd)) (h.apply (hc c (by simp)))

/-- Where a message that comes is let in at the back if there is room and else left out, those that were
let in leave in their order, with none left out between them. -/
theorem Under.left_append_toList {room : Nat → Bool}
    (hroom : ∀ (q : Backlog) (m : Message), q.Under a n →
      (q.enqueue m).toList = if room q.toList.length then q.toList ++ [m] else q.toList)
    (h : q.Under a n) : q.left changes ++ (q.after changes).toList = q.toList ++ q.welcomed room changes := by
  induction changes generalizing q with
  | nil => exact (List.append_nil _).symm
  | cons c cs ih =>
    have hc₁ : c.isTraffic = true := hc c (by simp)
    have hrest := ih (fun d hd => hc d (List.mem_cons_of_mem c hd)) (h.apply hc₁)
    show (c.leaving q ++ (c.apply q).left cs) ++ ((c.apply q).after cs).toList = _
    rw [List.append_assoc, hrest, welcomed, ← List.append_assoc, ← List.append_assoc]
    congr 1
    cases c with
    | enqueue m =>
      show (q.enqueue m).toList = _
      rw [hroom q m h]
      split <;> simp [Change.coming]
    | take =>
      obtain ⟨hm, hl, -⟩ := take_spec q
      show q.take.1.toList ++ q.take.2.toList = q.toList ++ if _ then [] else []
      rw [hm, hl, ite_self, List.append_nil]
      cases q.toList <;> rfl
    | _ => cases hc₁

/-- Only the front is ever dropped, so what is left is the end of all that came. -/
theorem Under.suffix_came {past : List Message} (h : q.Under .oldest n) (hs : q.toList <:+ past) :
    (q.after changes).toList <:+ past ++ came changes := by
  induction changes generalizing q past with
  | nil =>
    rw [came, List.flatMap_nil, List.append_nil]
    exact hs
  | cons c cs ih =>
    have hc₁ : c.isTraffic = true := hc c (by simp)
    have hnow : (c.apply q).toList <:+ past ++ c.coming := by
      cases c with
      | enqueue m =>
        show (q.enqueue m).toList <:+ past ++ [m]
        obtain ⟨gone, rfl⟩ := hs
        rw [toList_enqueue, h.action, List.append_assoc]
        exact (List.drop_suffix _ _).trans (List.suffix_append _ _)
      | take =>
        show q.take.2.toList <:+ past ++ []
        rw [(take_spec q).2.1, List.append_nil]
        exact (List.tail_suffix _).trans hs
      | _ => cases hc₁
    have hrest := ih (fun d hd => hc d (List.mem_cons_of_mem c hd)) (h.apply hc₁) hnow
    rwa [List.append_assoc] at hrest

end

/-- After any changes to an empty backlog its contents, its settings and the message to leave next are
those of a plain list. Where messages only come and go, under `oldest` it holds an unbroken end of all that
came, of the threshold's length at most; under `newest` a message is let in if and only if fewer than the
threshold are queued when it comes, and those let in leave in order and without a gap; and under `none`
none is missing. -/
theorem holds_as_listed (threshold : Nat) (action : DiscardAction) (changes : List Change) :
    let start := empty threshold action
    let q := start.after changes
    let p := changes.foldl Plain.apply ⟨[], threshold, action⟩
    q.plain = p ∧ q.take.1 = p.messages.head? ∧
    ((∀ c ∈ changes, c.isTraffic = true) →
      match action with
      | .oldest => q.toList <:+ came changes ∧ q.toList.length ≤ threshold
      | .newest =>
          (∀ m, (q.enqueue m).toList = if q.toList.length < threshold then q.toList ++ [m] else q.toList) ∧
          start.left changes ++ q.toList = start.welcomed (· < threshold) changes
      | .none => start.left changes ++ q.toList = came changes) := by
  intro start q p
  have hplain : q.plain = p := plain_after start changes
  refine ⟨hplain, ?_, fun hc => ?_⟩
  · rw [(take_spec q).1, ← hplain]
    rfl
  · have h : start.Under action threshold := under_empty threshold action
    cases action with
    | oldest =>
      have hs : start.toList <:+ [] := List.suffix_rfl
      exact ⟨h.suffix_came hc hs, (h.after hc).length (by simp)⟩
    | newest =>
      refine ⟨(h.after hc).toList_enqueue_newest, h.left_append_toList hc fun q m hq => ?_⟩
      rw [hq.toList_enqueue_newest]
      simp
    | none =>
      rw [← welcomed_always start changes]
      exact h.left_append_toList hc fun q m hq => hq.toList_enqueue_none m

def rush : List Change :=
  ["a", "b", "c"].flatMap fun text => [.enqueue ⟨⟨0⟩, text⟩, .enqueue ⟨⟨0⟩, text ++ "'"⟩, .take]

theorem holds_as_listed_rush :
    (∀ c ∈ rush, c.isTraffic = true) ∧
    ((empty 2 .newest).left rush ++ ((empty 2 .newest).after rush).toList =
      (empty 2 .newest).welcomed (· < 2) rush ∧
      ((empty 2 .newest).welcomed (· < 2) rush).map (·.text) = ["a", "a'", "b", "c"] ∧
      ((empty 2 .newest).after rush).toList.map (·.text) = ["c"]) ∧
    (((empty 2 .oldest).after rush).toList <:+ came rush ∧
      ((empty 2 .oldest).after rush).toList.map (·.text) = ["c'"]) := by
  have hc : ∀ c ∈ rush, c.isTraffic = true := by decide
  obtain ⟨-, hleft⟩ := (holds_as_listed 2 .newest rush).2.2 hc
  exact ⟨hc, ⟨hleft, rfl, rfl⟩, ((holds_as_listed 2 .oldest rush).2.2 hc).1, rfl⟩

end LogRelay.Backlog
