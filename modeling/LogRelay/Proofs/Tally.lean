import LogRelay.Proofs.Plans

/-!
# Tallies of accepted messages

A tally lists what was accepted in the course of some calls, by position in the batch. The answer to
a batch accounts for it when what it returns is, in order, all that was not accepted, and when a
failure means that nothing was.
-/

namespace LogRelay

section
variable {A B : Api}

/-- `positions` were accepted in these calls, if `accepts` says what each call accepts. -/
def Tally (accepts : Call A → List Nat → Prop) : List (Call A) → List Nat → Prop
  | [], positions => positions = []
  | c :: log, positions => ∃ here later, positions = here ++ later ∧ accepts c here ∧ Tally accepts log later

/-- The answer to a batch of `n` messages is right about what was accepted. -/
def Accounts (accepts : Call A → List Nat → Prop) (n : Nat) (log : List (Call A)) :
    Except Failure (List Nat) → Prop
  | .ok positions => positions.Pairwise (· < ·) ∧
      ∃ accepted, Tally accepts log accepted ∧ (accepted ++ positions).Perm (List.range n)
  | .error _ => Tally accepts log []

variable {accepts : Call A → List Nat → Prop} {accepts' : Call B → List Nat → Prop}

theorem Tally.append {l₁ l₂ : List (Call A)} {ps qs : List Nat} (h₁ : Tally accepts l₁ ps)
    (h₂ : Tally accepts l₂ qs) : Tally accepts (l₁ ++ l₂) (ps ++ qs) := by
  induction l₁ generalizing ps with
  | nil =>
    rw [show ps = [] from h₁]
    exact h₂
  | cons c l₁ ih =>
    obtain ⟨here, later, rfl, hc, hl⟩ := h₁
    exact ⟨here, later ++ qs, List.append_assoc _ _ _, hc, ih hl⟩

theorem tally_singleton {c : Call A} {ps : List Nat} (h : accepts c ps) : Tally accepts [c] ps :=
  ⟨ps, [], (List.append_nil _).symm, h, rfl⟩

theorem tally_nil {log : List (Call A)} (h : ∀ c ∈ log, accepts c []) : Tally accepts log [] := by
  induction log with
  | nil => rfl
  | cons c log ih =>
    exact ⟨[], [], rfl, h c (by simp), ih fun d hd => h d (List.mem_cons_of_mem c hd)⟩

theorem tally_flatten {logs : List (List (Call A))} (h : ∀ l ∈ logs, Tally accepts l []) :
    Tally accepts logs.flatten [] := by
  induction logs with
  | nil => rfl
  | cons l logs ih =>
    have hl := h l (by simp)
    exact hl.append (ih fun l' hl' => h l' (List.mem_cons_of_mem l hl'))

section
variable {γ : Type} {f : γ → Call A} {g : γ → Call B} (hfg : ∀ x ps, accepts (f x) ps → accepts' (g x) ps)
include hfg

theorem Tally.map {l : List γ} {ps : List Nat} (h : Tally accepts (l.map f) ps) :
    Tally accepts' (l.map g) ps := by
  induction l generalizing ps with
  | nil => exact h
  | cons x l ih =>
    obtain ⟨here, later, rfl, hc, hl⟩ := h
    exact ⟨here, later, rfl, hfg x here hc, ih hl⟩

theorem Accounts.map {n : Nat} {l : List γ} {answer : Except Failure (List Nat)}
    (h : Accounts accepts n (l.map f) answer) : Accounts accepts' n (l.map g) answer := by
  cases answer with
  | ok positions =>
    obtain ⟨ho, accepted, ht, hp⟩ := h
    exact ⟨ho, accepted, ht.map hfg, hp⟩
  | error e => exact Tally.map hfg h

end

theorem Accounts.prepend {n : Nat} {l₁ l₂ : List (Call A)} {answer : Except Failure (List Nat)}
    (h₁ : Tally accepts l₁ []) (h₂ : Accounts accepts n l₂ answer) : Accounts accepts n (l₁ ++ l₂) answer := by
  cases answer with
  | ok positions =>
    obtain ⟨ho, accepted, ht, hp⟩ := h₂
    exact ⟨ho, accepted, h₁.append ht, hp⟩
  | error e => exact Tally.append h₁ h₂

theorem accounts_all {n : Nat} {log : List (Call A)} (h : Tally accepts log (List.range n)) :
    Accounts accepts n log (.ok []) :=
  ⟨.nil, List.range n, h, by rw [List.append_nil]⟩

theorem accounts_none {n : Nat} {log : List (Call A)} (h : Tally accepts log []) :
    Accounts accepts n log (.ok (List.range n)) :=
  ⟨List.pairwise_lt_range, [], h, .refl _⟩

def onReady {α ε : Type} (positions : List Nat) : Patience.Try ε α → List Nat
  | .ok (some _) => positions
  | _ => []

/-- If every try accepts what its outcome says, and one that asks for another accepts nothing, then so
do all of them together. -/
theorem tally_invoke {α ε : Type} {q : Patience} {op : Plan A (Patience.Try ε α)} {log : List (Call A)}
    {r : Patience.Try ε α} {f : Patience.Try ε α → List Nat} (hn : f (.ok none) = [])
    (hop : ∀ l r, op.Ends l r → Tally accepts l (f r)) (h : (q.invoke op).Ends log r) :
    Tally accepts log (f r) := by
  obtain ⟨before, last, rfl, hb, hl⟩ := Plan.ends_invoke h
  have hbefore : Tally accepts before.flatten [] := by
    refine tally_flatten fun l hm => ?_
    have ht := hop l _ (hb l hm)
    rwa [hn] at ht
  have hlast : Tally accepts last (f r) := by
    rcases hl with hl | ⟨rfl, rfl⟩
    · exact hop last r hl
    · exact hn
  exact hbefore.append hlast

end

end LogRelay
