import LogRelay.Proofs.Acts
import Mathlib.Algebra.Group.Int.Defs
import Mathlib.Data.List.Pairwise

/-!
# Rotation at boundaries

As long as the clock stands still during an append, a rotation begins a period at the very reading
that asked for it. So the period that an appender is in is the one of its last append, and the
sequence number tells the hours or days apart in which messages were logged.
-/

namespace LogRelay

variable {A : Api} {σ : Type} {env : Environment A σ}

namespace World

structure Since (w w' : World A σ) : Prop where
  now : w.now ≤ w'.now
  epoch : w'.epoch = w.epoch

theorem Since.refl (w : World A σ) : Since w w := ⟨Nat.le_refl _, rfl⟩

theorem Since.wall {w w' : World A σ} (h : Since w w') (hn : w'.now ≤ w.now) : w'.wall = w.wall := by
  unfold World.wall
  rw [h.epoch, Nat.le_antisymm hn h.now]

theorem lasting_since (env : Environment A σ) (w₀ : World A σ) :
    Appender.Lasting env True (fun _ => True) (Since w₀) :=
  Appender.lasting_of_adjust (fun h _ hn he => ⟨Nat.le_trans h.now hn, he.trans h.epoch⟩)
    (fun _ _ _ h => ⟨h.now, h.epoch⟩) fun h _ => ⟨h.now, h.epoch⟩

end World

namespace Rotation

theorem period_eq_ediv {length : Int} (hl : 0 < length) (t : Int) : period length t = t / length :=
  Int.fdiv_eq_ediv_of_nonneg t (Int.le_of_lt hl)

theorem period_mono {length s t : Int} (hl : 0 < length) (h : s ≤ t) : period length s ≤ period length t := by
  rw [period_eq_ediv hl, period_eq_ediv hl]
  exact Int.ediv_le_ediv hl h

def SameSpan (length s t : Int) : Prop :=
  ∃ k, k * length ≤ s ∧ s < (k + 1) * length ∧ k * length ≤ t ∧ t < (k + 1) * length

theorem period_eq_iff_mem {length t k : Int} (hl : 0 < length) :
    period length t = k ↔ k * length ≤ t ∧ t < (k + 1) * length := by
  rw [period_eq_ediv hl, ← Int.le_ediv_iff_mul_le hl, ← Int.ediv_lt_iff_lt_mul hl]
  omega

theorem period_eq_iff {length s t : Int} (hl : 0 < length) :
    period length s = period length t ↔ SameSpan length s t := by
  constructor
  · intro h
    obtain ⟨hs, hs'⟩ := (period_eq_iff_mem hl).mp h
    obtain ⟨ht, ht'⟩ := (period_eq_iff_mem (t := t) hl).mp rfl
    exact ⟨_, hs, hs', ht, ht'⟩
  · rintro ⟨k, hs, hs', ht, ht'⟩
    rw [(period_eq_iff_mem hl).mpr ⟨hs, hs'⟩, (period_eq_iff_mem hl).mpr ⟨ht, ht'⟩]

end Rotation

namespace Appender

open Rotation (period SameSpan)

theorem sequence_of_clear {a : Appender} {w v : World A σ} (h : a.obstacle? v = none) :
    (a.advanced env w).sequence.toNat = a.sequence.toNat + 1 := by
  obtain ⟨-, hroom⟩ := Option.or_eq_none_iff.mp h
  have hlt : a.sequence.toNat + 1 < UInt64.size := by
    by_contra hge
    rw [if_neg hge] at hroom
    cases hroom
  unfold advanced
  rw [UInt64.toNat_add]
  exact Nat.mod_eq_of_lt hlt

def Turned (r : Rotation) (n : UInt64) (t : Int) (a : Appender) : Prop :=
  r.isDue t = true ∧ a.sequence.toNat = n.toNat + 1 ∧ a.rotation.since = t ∨
  (a.broken = none → r.isDue t = false) ∧ a.sequence = n ∧ a.rotation.since = r.since

variable (env) in
theorem log_turns {a : Appender} {w : World A σ} (m : Message) (ho : a.closed = false)
    (hstill : (a.appendMessage env m w).2.now = w.now) :
    (a.appendMessage env m w).1.rotation.mode = a.rotation.mode ∧
    (a.appendMessage env m w).1.rotation.interval = a.rotation.interval ∧
    Turned a.rotation a.sequence w.wall.millis (a.appendMessage env m w).1 := by
  have hkept : (a.appendMessage env m w).1.sequence = (a.mended.prepare env w).1.sequence ∧
      (a.appendMessage env m w).1.broken = (a.mended.prepare env w).1.broken ∧
      (a.appendMessage env m w).1.rotation.mode = (a.mended.prepare env w).1.rotation.mode ∧
      (a.appendMessage env m w).1.rotation.interval = (a.mended.prepare env w).1.rotation.interval ∧
      (a.appendMessage env m w).1.rotation.since = (a.mended.prepare env w).1.rotation.since := by
    rw [appendMessage_eq m ho]
    split <;> exact ⟨rfl, rfl, rfl, rfl, rfl⟩
  obtain ⟨hseq, hbroken, hmode, hinterval, hsince⟩ := hkept
  unfold Turned
  rw [hseq, hbroken, hmode, hinterval, hsince]
  obtain ⟨hdue, hs⟩ | ⟨p, hdue, heq⟩ | ⟨hdue, hclear, hs⟩ := prepare_same env a.mended w
  · rw [hs.rotation, hs.sequence]
    exact ⟨rfl, rfl, .inr ⟨fun _ => hdue, rfl, rfl⟩⟩
  · rw [heq]
    exact ⟨rfl, rfl, .inr ⟨nofun, rfl, rfl⟩⟩
  · -- the writer that is left may take its time, but only if the whole append does
    have hleft : World.Since w (a.mended.leave env w) := (World.lasting_since env w).leave a.mended (.refl w)
    have hrest : World.Since (a.mended.leave env w) (a.appendMessage env m w).2 := by
      refine (World.lasting_since env _).log_of_prepared m ho ?_
      refine (World.lasting_since env _).prepare_of_turned (fun _ => trivial) ?_
      rw [turned_of_due hdue]
      exact (World.lasting_since env _).switch_of_leave (fun _ => trivial) (.refl _)
    have hwall := hleft.wall (hstill ▸ hrest.now)
    rw [hs.rotation, hs.sequence]
    refine ⟨rfl, rfl, .inl ⟨hdue, sequence_of_clear hclear, ?_⟩⟩
    change (a.mended.leave env w).wall.millis = w.wall.millis
    rw [hwall]

variable (env) in
theorem act_stays {a : Appender} {x : Act} {w : World A σ} (hr : x ≠ .rotate)
    (hm : a.closed = true ∨ x.message? w.wall = none) :
    (a.act env x w).1.sequence = a.sequence ∧ (a.act env x w).1.rotation = a.rotation := by
  have hclosed : ∀ m, x.message? w.wall = some m → a.act env x w = (a, w) := by
    intro m hx
    rcases hm with hm | hm
    · rw [act_of_message hx]
      unfold appendMessage
      rw [if_pos hm]
    · rw [hx] at hm
      cases hm
  cases x with
  | append text => rw [hclosed _ rfl]; exact ⟨rfl, rfl⟩
  | appendMessage m => rw [hclosed _ rfl]; exact ⟨rfl, rfl⟩
  | rotate => exact absurd rfl hr
  | close =>
    change (a.close env w).1.sequence = a.sequence ∧ (a.close env w).1.rotation = a.rotation
    unfold close
    split
    · exact ⟨rfl, rfl⟩
    · split
      · exact ⟨rfl, rfl⟩
      · dsimp only
        split <;> exact ⟨rfl, rfl⟩
  | setBatchDelay _ | setThreshold _ | setAction _ => exact ⟨rfl, rfl⟩

theorem mem_scenes {turns : List (Turn A σ)} {a : Appender} {w : World A σ} {x : Scene A σ}
    (hx : x ∈ scenes env turns a w) :
    (∃ y ∈ turns, x.act = y.act) ∧ x.before.act env x.act x.world = (x.after, x.outcome) := by
  induction turns generalizing a w with
  | nil => cases hx
  | cons y rest ih =>
    cases hx with
    | head => exact ⟨⟨y, List.mem_cons_self, rfl⟩, rfl⟩
    | tail _ hx =>
      obtain ⟨⟨z, hz, hact⟩, h⟩ := ih hx
      exact ⟨⟨z, List.mem_cons_of_mem y hz, hact⟩, h⟩

/-- Nobody rotates by hand, and the clock stands still during every append. -/
structure Steady (T : List (Scene A σ)) : Prop where
  rotate : ∀ x ∈ T, x.act ≠ .rotate
  still : ∀ x ∈ T, x.appends → x.outcome.now = x.world.now

/-- A message is appended, and no panic breaks that off. -/
def Scene.logs (x : Scene A σ) : Bool := x.appends && x.after.broken.isNone

structure Scene.Turns (x : Scene A σ) : Prop where
  mode : x.after.rotation.mode = x.before.rotation.mode
  interval : x.after.rotation.interval = x.before.rotation.interval
  rotates : x.rotates = true → x.appends = true ∧ x.before.rotation.isDue x.reading = true ∧
    x.after.sequence.toNat = x.before.sequence.toNat + 1 ∧ x.after.rotation.since = x.reading
  stays : x.rotates = false → x.after.rotation.since = x.before.rotation.since ∧
    (x.logs = true → x.before.rotation.isDue x.reading = false)

theorem Scene.appends_of_logs {x : Scene A σ} (h : x.logs = true) : x.appends = true :=
  (Bool.and_eq_true_iff.mp h).1

theorem Scene.rotates_eq_false {x : Scene A σ} (h : x.after.sequence = x.before.sequence) : x.rotates = false := by
  unfold rotates
  rw [h, bne_self_eq_false]

theorem Scene.rotates_of_succ {x : Scene A σ} (h : x.after.sequence.toNat = x.before.sequence.toNat + 1) :
    x.rotates = true := by
  unfold rotates
  rw [bne_iff_ne]
  intro heq
  rw [heq] at h
  omega

theorem Scene.turns {x : Scene A σ} (hx : x.before.act env x.act x.world = (x.after, x.outcome))
    (hr : x.act ≠ .rotate) (hstill : x.appends → x.outcome.now = x.world.now) : x.Turns := by
  by_cases ha : x.appends = true
  · obtain ⟨m, hm⟩ := Option.isSome_iff_exists.mp ha
    unfold message? at hm
    by_cases ho : x.before.closed = true
    · rw [if_pos ho] at hm
      cases hm
    · rw [if_neg ho] at hm
      rw [act_of_message hm] at hx
      have hlog := log_turns env (a := x.before) (w := x.world) m (Bool.eq_false_iff.mpr ho)
      rw [hx] at hlog
      obtain ⟨hmode, hinterval, ⟨hdue, hseq, hsince⟩ | ⟨hdue, hseq, hsince⟩⟩ := hlog (hstill ha)
      · have hrot := rotates_of_succ hseq
        exact ⟨hmode, hinterval, fun _ => ⟨ha, hdue, hseq, hsince⟩, fun h => by simp [hrot] at h⟩
      · have hrot := rotates_eq_false hseq
        refine ⟨hmode, hinterval, fun h => by simp [hrot] at h, fun _ => ⟨hsince, fun hl => ?_⟩⟩
        unfold logs at hl
        rw [ha, Bool.true_and] at hl
        exact hdue (Option.isNone_iff_eq_none.mp hl)
  · have hnone : x.before.closed = true ∨ x.act.message? x.world.wall = none := by
      by_cases ho : x.before.closed = true
      · exact .inl ho
      · unfold appends message? at ha
        rw [if_neg ho] at ha
        exact .inr (by simpa using ha)
    obtain ⟨hseq, hperiod⟩ := act_stays env hr hnone
    rw [hx] at hseq hperiod
    have hrot := rotates_eq_false hseq
    refine ⟨congrArg Rotation.mode hperiod, congrArg Rotation.interval hperiod,
      fun h => by simp [hrot] at h, fun _ => ⟨congrArg Rotation.since hperiod, fun hl => ?_⟩⟩
    unfold logs at hl
    rw [Bool.and_eq_true] at hl
    exact absurd hl.1 ha

theorem Steady.turns {turns : List (Turn A σ)} {a : Appender} {w : World A σ} (hs : Steady (scenes env turns a w))
    {x : Scene A σ} (hx : x ∈ scenes env turns a w) : x.Turns :=
  Scene.turns (mem_scenes hx).2 (hs.rotate x hx) (hs.still x hx)

theorem Steady.tail {x : Scene A σ} {T : List (Scene A σ)} (hs : Steady (x :: T)) : Steady T :=
  ⟨fun y hy => hs.rotate y (List.mem_cons_of_mem x hy), fun y hy => hs.still y (List.mem_cons_of_mem x hy)⟩

structure Scene.Ahead (length : Int) (s : Nat) (p : Int) (x : Scene A σ) : Prop where
  sequence : s ≤ x.after.sequence.toNat
  period : p ≤ period length x.reading
  same : x.after.sequence.toNat = s ↔ Rotation.period length x.reading = p

theorem Scene.Ahead.trans {length : Int} {x y : Scene A σ} {s : Nat} {p : Int} (hx : x.Ahead length s p)
    (hy : y.Ahead length x.after.sequence.toNat (Rotation.period length x.reading)) : y.Ahead length s p := by
  obtain ⟨hseq, hperiod, hsame⟩ := hx
  obtain ⟨hseq', hperiod', hsame'⟩ := hy
  exact ⟨by omega, by omega, by omega⟩

section
variable {length : Int} {x : Scene A σ} (h : x.Turns)
  (hdue : ∀ t, x.before.rotation.isDue t = (period length x.before.rotation.since != period length t))
include h hdue

theorem Scene.Turns.period_since (hl : x.logs) : period length x.after.rotation.since = period length x.reading := by
  cases hr : x.rotates with
  | true =>
    obtain ⟨-, -, -, hsince⟩ := h.rotates hr
    rw [hsince]
  | false =>
    obtain ⟨hsince, hnot⟩ := h.stays hr
    have hd := hnot hl
    rw [hdue, bne_eq_false_iff_eq] at hd
    rw [hsince, hd]

theorem Scene.Turns.ahead (hlr : x.logs ∨ x.rotates)
    (hle : period length x.before.rotation.since ≤ period length x.reading) :
    x.Ahead length x.before.sequence.toNat (period length x.before.rotation.since) := by
  cases hr : x.rotates with
  | true =>
    obtain ⟨-, hd, hseq, -⟩ := h.rotates hr
    rw [hdue, bne_iff_ne] at hd
    exact ⟨by omega, hle, by omega⟩
  | false =>
    obtain ⟨-, hnot⟩ := h.stays hr
    have hl : x.logs = true := by
      rcases hlr with hl | hr'
      · exact hl
      · rw [hr] at hr'
        cases hr'
    have hd := hnot hl
    rw [hdue, bne_eq_false_iff_eq] at hd
    rw [← bne_eq_false_iff_eq.mp hr]
    exact ⟨Nat.le_refl _, hle, by simp [hd]⟩

end

section
variable {length : Int} {mode : RotationMode}
  (hdue : ∀ r : Rotation, r.mode = mode → ∀ t, r.isDue t = (period length r.since != period length t))
include hdue

theorem scenes_ahead (hl : 0 < length) {turns : List (Turn A σ)} {a : Appender} {w : World A σ}
    (hmode : a.rotation.mode = mode) (hs : Steady (scenes env turns a w))
    (hle : ∀ x ∈ (scenes env turns a w).filter Scene.appends,
      period length a.rotation.since ≤ period length x.reading)
    (hmono : ((scenes env turns a w).filter Scene.appends).Pairwise (·.reading ≤ ·.reading)) :
    ∀ x ∈ scenes env turns a w, x.logs → x.Ahead length a.sequence.toNat (period length a.rotation.since) := by
  induction turns generalizing a w with
  | nil => simp [scenes]
  | cons y rest ih =>
    have hturns : (y.scene env a w).Turns := hs.turns List.mem_cons_self
    have ih := @ih (y.scene env a w).after (y.scene env a w).outcome (hturns.mode.trans hmode) hs.tail
    rw [scenes] at hle hmono ⊢
    intro x hx hlogs
    rcases List.mem_cons.mp hx with rfl | hx
    · have ha := Scene.appends_of_logs hlogs
      exact hturns.ahead (hdue _ hmode) (.inl hlogs) (hle _ (List.mem_filter.mpr ⟨hx, ha⟩))
    · cases hr : (y.scene env a w).rotates with
      | true =>
        obtain ⟨ha, -, -, hsince⟩ := hturns.rotates hr
        rw [List.filter_cons_of_pos ha] at hle hmono
        obtain ⟨hfirst, hrest⟩ := List.pairwise_cons.mp hmono
        have hahead := hturns.ahead (hdue _ hmode) (.inr hr) (hle _ List.mem_cons_self)
        rw [hsince] at ih
        exact hahead.trans (ih (fun z hz => Rotation.period_mono hl (hfirst z hz)) hrest x hx hlogs)
      | false =>
        obtain ⟨hsince, -⟩ := hturns.stays hr
        rw [hsince, bne_eq_false_iff_eq.mp hr] at ih
        refine ih (fun z hz => hle z ?_) (hmono.sublist ?_) x hx hlogs
        · exact (List.Sublist.filter _ (List.sublist_cons_self _ _)).subset hz
        · exact List.Sublist.filter _ (List.sublist_cons_self _ _)

theorem scenes_pairwise_ahead (hl : 0 < length) {turns : List (Turn A σ)} {a : Appender} {w : World A σ}
    (hmode : a.rotation.mode = mode) (hs : Steady (scenes env turns a w))
    (hmono : ((scenes env turns a w).filter Scene.appends).Pairwise (·.reading ≤ ·.reading)) :
    ((scenes env turns a w).filter Scene.logs).Pairwise
      fun x y => y.Ahead length x.after.sequence.toNat (period length x.reading) := by
  induction turns generalizing a w with
  | nil => exact .nil
  | cons y rest ih =>
    have hturns : (y.scene env a w).Turns := hs.turns List.mem_cons_self
    have hmode' := hturns.mode.trans hmode
    rw [scenes] at hmono ⊢
    have hmono' := hmono.sublist (List.Sublist.filter _ (List.sublist_cons_self _ _))
    by_cases hlogs : (y.scene env a w).logs = true
    · rw [List.filter_cons_of_pos hlogs]
      rw [List.filter_cons_of_pos (Scene.appends_of_logs hlogs)] at hmono
      obtain ⟨hfirst, -⟩ := List.pairwise_cons.mp hmono
      refine List.pairwise_cons.mpr ⟨fun x hx => ?_, ih hmode' hs.tail hmono'⟩
      obtain ⟨hx, hxl⟩ := List.mem_filter.mp hx
      rw [← hturns.period_since (hdue _ hmode) hlogs]
      refine scenes_ahead hdue hl hmode' hs.tail (fun z hz => ?_) hmono' x hx hxl
      rw [hturns.period_since (hdue _ hmode) hlogs]
      exact Rotation.period_mono hl (hfirst z hz)
    · rw [List.filter_cons_of_neg hlogs]
      exact ih hmode' hs.tail hmono'

/-- The sequence number tells the spans apart in which messages are logged, and grows by one at most
with each of them. -/
def Splits (length : Int) (T : List (Scene A σ)) : Prop :=
  (∀ x ∈ T, ∀ y ∈ T, x.logs → y.logs →
    (x.after.sequence = y.after.sequence ↔ SameSpan length x.reading y.reading)) ∧
  ∀ x ∈ T, x.after.sequence = x.before.sequence ∨ x.after.sequence.toNat = x.before.sequence.toNat + 1

theorem scenes_split (hl : 0 < length) {turns : List (Turn A σ)} {a : Appender} {w : World A σ}
    (hmode : a.rotation.mode = mode) (hs : Steady (scenes env turns a w))
    (hmono : ((scenes env turns a w).filter Scene.appends).Pairwise (·.reading ≤ ·.reading)) :
    Splits length (scenes env turns a w) := by
  constructor
  · let R : Scene A σ → Scene A σ → Prop := fun x y =>
      x.after.sequence = y.after.sequence ↔ period length x.reading = period length y.reading
    have hpair : ((scenes env turns a w).filter Scene.logs).Pairwise R := by
      refine (scenes_pairwise_ahead hdue hl hmode hs hmono).imp fun {x y} h => ?_
      change x.after.sequence = y.after.sequence ↔ period length x.reading = period length y.reading
      rw [eq_comm, ← UInt64.toNat_inj, h.same, eq_comm]
    have hsymm : Std.Symm R := ⟨fun x y h => ⟨fun e => (h.mp e.symm).symm, fun e => (h.mpr e.symm).symm⟩⟩
    intro x hx y hy hxl hyl
    rw [← Rotation.period_eq_iff hl]
    exact hpair.forall_of_forall (fun z _ => ⟨fun _ => rfl, fun _ => rfl⟩)
      (List.mem_filter.mpr ⟨hx, hxl⟩) (List.mem_filter.mpr ⟨hy, hyl⟩)
  · intro x hx
    cases hr : x.rotates with
    | true =>
      obtain ⟨-, -, hseq, -⟩ := (hs.turns hx).rotates hr
      exact .inr hseq
    | false => exact .inl (bne_eq_false_iff_eq.mp hr)

end

/-! ## Rotation after an interval -/

def lastTurn (start : Int) (T : List (Scene A σ)) : Int :=
  T.foldl (fun t x => if x.rotates then x.reading else t) start

/-- A message is logged `n` milliseconds after the last rotation at most; if it would be later, there is
a rotation before it, and there is none otherwise. -/
def Spaced (n : Nat) (start : Int) (T : List (Scene A σ)) : Prop :=
  (∀ pre x post, T = pre ++ x :: post → x.logs →
    (x.rotates ↔ (n : Int) < x.reading - lastTurn start pre) ∧
      x.reading - lastTurn start (pre ++ [x]) ≤ n) ∧
  ∀ pre x mid y post, T = pre ++ x :: (mid ++ y :: post) → x.rotates → y.rotates →
    (∀ z ∈ mid, z.rotates = false) → (n : Int) < y.reading - x.reading

theorem lastTurn_append (start : Int) (T : List (Scene A σ)) (x : Scene A σ) :
    lastTurn start (T ++ [x]) = if x.rotates then x.reading else lastTurn start T := by
  rw [lastTurn, List.foldl_append]
  rfl

theorem lastTurn_of_none {T : List (Scene A σ)} (h : ∀ x ∈ T, x.rotates = false) (start : Int) :
    lastTurn start T = start := by
  induction T with
  | nil => rfl
  | cons x T ih =>
    have hx := h x List.mem_cons_self
    rw [lastTurn, List.foldl_cons, hx]
    exact ih fun y hy => h y (List.mem_cons_of_mem x hy)

/-- The rotation of an appender tells when it has last rotated. -/
theorem before_eq_lastTurn {turns : List (Turn A σ)} {a : Appender} {w : World A σ} {pre post : List (Scene A σ)}
    {x : Scene A σ} (hs : Steady (scenes env turns a w)) (hx : scenes env turns a w = pre ++ x :: post) :
    x.before.rotation.mode = a.rotation.mode ∧ x.before.rotation.interval = a.rotation.interval ∧
      x.before.rotation.since = lastTurn a.rotation.since pre := by
  induction turns generalizing a w pre with
  | nil => cases pre <;> cases hx
  | cons y rest ih =>
    cases pre with
    | nil =>
      cases hx
      exact ⟨rfl, rfl, rfl⟩
    | cons z pre =>
      have hturns : (y.scene env a w).Turns := hs.turns List.mem_cons_self
      rw [scenes, List.cons_append, List.cons.injEq] at hx
      obtain ⟨rfl, hx⟩ := hx
      obtain ⟨hmode, hinterval, hsince⟩ := ih hs.tail hx
      refine ⟨hmode.trans hturns.mode, hinterval.trans hturns.interval, ?_⟩
      rw [hsince, lastTurn, lastTurn, List.foldl_cons]
      congr 1
      cases hr : (y.scene env a w).rotates with
      | true => exact (hturns.rotates hr).2.2.2
      | false => exact (hturns.stays hr).1

theorem scenes_spaced {n : Nat} (hn : 0 < n) {turns : List (Turn A σ)} {a : Appender} {w : World A σ}
    (hmode : a.rotation.mode = .interval) (hinterval : a.rotation.interval = n)
    (hs : Steady (scenes env turns a w)) : Spaced n a.rotation.since (scenes env turns a w) := by
  have hdue : ∀ pre x post, scenes env turns a w = pre ++ x :: post →
      (x.rotates → (n : Int) < x.reading - lastTurn a.rotation.since pre) ∧
      (x.logs → (x.rotates ↔ (n : Int) < x.reading - lastTurn a.rotation.since pre)) := by
    intro pre x post hx
    obtain ⟨hm, hi, hsince⟩ := before_eq_lastTurn hs hx
    have hturns := hs.turns (x := x) (by rw [hx]; simp)
    have hiff : x.before.rotation.isDue x.reading = true ↔ (n : Int) < x.reading - lastTurn a.rotation.since pre := by
      rw [Rotation.isDue, hm, hmode, hi, hinterval, hsince]
      simp [hn]
    rw [← hiff]
    have hdue : x.rotates = true → x.before.rotation.isDue x.reading = true := fun hr => (hturns.rotates hr).2.1
    refine ⟨hdue, fun hl => ⟨hdue, fun hd => ?_⟩⟩
    by_contra hr
    have hnot := (hturns.stays (Bool.eq_false_iff.mpr hr)).2 hl
    rw [hd] at hnot
    cases hnot
  constructor
  · intro pre x post hx hl
    have hd := (hdue pre x post hx).2 hl
    refine ⟨hd, ?_⟩
    rw [lastTurn_append]
    split
    · omega
    · rename_i hr
      rw [hd] at hr
      omega
  · intro pre x mid y post hx hrx hry hmid
    have hy := (hdue (pre ++ x :: mid) y post (by rw [hx]; simp)).1 hry
    have hlast : lastTurn a.rotation.since (pre ++ x :: mid) = x.reading := by
      rw [lastTurn, List.foldl_append, List.foldl_cons, if_pos hrx]
      exact lastTurn_of_none hmid _
    rw [hlast] at hy
    exact hy

/-- In the modes of hours and days the sequence number changes from one message to the next if and only
if a boundary lies between them, and by one; with an interval, rotations are further apart than that. What
becomes of the writers does not matter, but for a panic that breaks an append off: its message is not logged. -/
theorem rotates_at_boundaries {c : CloudWatchSettings} {s : Settings} (hc : s.target = .cloudWatch c)
    {header footer : Option String} {w₀ w : World A σ} {a : Appender}
    (hb : build env s header footer w₀ = (.ok (.ok a), w)) {turns : List (Turn A σ)}
    (hs : Steady (scenes env turns a w))
    (hmono : ((scenes env turns a w).filter Scene.appends).Pairwise (·.reading ≤ ·.reading)) :
    (c.rotation = .hourly → Splits Rotation.millisPerHour (scenes env turns a w)) ∧
    (c.rotation = .daily → Splits Rotation.millisPerDay (scenes env turns a w)) ∧
    (c.rotation = .interval → 0 < c.rotationInterval →
      Spaced c.rotationInterval w₀.wall.millis (scenes env turns a w)) := by
  have hrotation : a.rotation = Rotation.begin c.rotation c.rotationInterval w₀.wall.millis := by
    rw [build_eq] at hb
    split at hb
    · cases hb
      simp only [fresh, hc, Target.rotation]
    · cases hb
    · cases hb
  refine ⟨fun hm => ?_, fun hm => ?_, fun hm hn => ?_⟩
  · have hmode : a.rotation.mode = .hourly := by rw [hrotation]; exact hm
    refine scenes_split (fun r hr t => ?_) (by decide) hmode hs hmono
    rw [Rotation.isDue, hr]
  · have hmode : a.rotation.mode = .daily := by rw [hrotation]; exact hm
    refine scenes_split (fun r hr t => ?_) (by decide) hmode hs hmono
    rw [Rotation.isDue, hr]
  · have hspaced := @scenes_spaced A σ env c.rotationInterval hn turns a w
    rw [hrotation] at hspaced
    exact hspaced hm rfl hs

def fickle : Environment ⟨Empty, fun _ => Unit⟩ (List Bool) where
  ask _ r := nomatch r
  draw o := (0, o)
  connect _ _ o :=
    if o.headD true then (.ok
      { effectiveSize := fun m => .ok m.size, withinLimits := fun _ _ => .ok true
        name := fun _ => "fickle", maxMessageSize := .ok 100
        makeAvailable := .done (.ok ()), send := fun _ => .done (.ok []), shutdown := .done () }, o.tail)
    else (.error { message := "try again" }, o.tail)
  spawn o := (.ok (), o)

def midnight : List (Turn ⟨Empty, fun _ => Unit⟩ (List Bool)) :=
  [-1, 0, 1, 86400000 * 3].map fun t => { meanwhile := World.setWall (.ofMillis t), act := .append "tick" }

theorem rotates_at_boundaries_midnight :
    ∃ s a w, s.target = .cloudWatch { logGroup := "app", rotation := .daily } ∧
      build fickle s none none
        { epoch := .ofMillis (-2), host := { startup := ⟨0⟩, process := 1 }, outside := [true, false] } =
          (.ok (.ok a), w) ∧
      Steady (scenes fickle midnight a w) ∧
      ((scenes fickle midnight a w).filter Scene.appends).Pairwise (·.reading ≤ ·.reading) ∧
      (scenes fickle midnight a w).map (fun x => (x.reading, x.after.sequence)) =
        [(-1, 0), (0, 1), (1, 1), (259200000, 2)] ∧
      Splits Rotation.millisPerDay (scenes fickle midnight a w) := by
  let s : Settings := { target := .cloudWatch { logGroup := "app", rotation := .daily } }
  let r := build fickle s none none
    { epoch := .ofMillis (-2), host := { startup := ⟨0⟩, process := 1 }, outside := [true, false] }
  have hb : r = (.ok (.ok { fresh s none none (-2) with current := some 0 }), r.2) := rfl
  have hs : Steady (scenes fickle midnight { fresh s none none (-2) with current := some 0 } r.2) := by
    constructor
    · simp [midnight, scenes, Turn.scene]
    · decide +kernel
  have hmono : ((scenes fickle midnight { fresh s none none (-2) with current := some 0 } r.2).filter
      Scene.appends).Pairwise (·.reading ≤ ·.reading) := by decide +kernel
  exact ⟨s, _, _, rfl, hb, hs, hmono, by decide +kernel,
    (rotates_at_boundaries rfl hb hs hmono).2.1 rfl⟩

end Appender

end LogRelay
