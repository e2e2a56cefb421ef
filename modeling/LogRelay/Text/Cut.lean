import LogRelay.Text.Slice

/-!
# Cutting text to a number of bytes

Sizes are those of the UTF-8 encoding. A text is cut between characters only, so the cut may fall
up to three bytes short of the limit.
-/

namespace LogRelay.Text

/-- The text can be cut at the place. -/
def isBoundary (n : Nat) (cs : List Char) : Bool := (splitAt? n cs).isSome

/-- The nearest boundary, looked for backwards from a place. From the place 0 the search cannot go on. -/
def boundary? (cs : List Char) : Nat → Option Nat
  | 0 => if isBoundary 0 cs then some 0 else none
  | n + 1 => if isBoundary (n + 1) cs then some (n + 1) else boundary? cs n

/-- The text itself where it fits, and otherwise what comes before the nearest boundary. -/
def cut? (limit : Nat) (s : String) : Option String :=
  if s.utf8ByteSize ≤ limit then some s
  else (boundary? s.toList limit).bind fun n => (upTo? n s.toList).map String.ofList

theorem isBoundary_iff {n : Nat} {cs : List Char} : isBoundary n cs = true ↔ ∃ p, p <+: cs ∧ n = byteCount p := by
  rw [isBoundary, Option.isSome_iff_exists]
  constructor
  · rintro ⟨⟨p, q⟩, h⟩
    obtain ⟨rfl, hn⟩ := splitAt?_eq_some_iff.mp h
    exact ⟨p, List.prefix_append p q, hn⟩
  · rintro ⟨p, ⟨q, rfl⟩, hn⟩
    exact ⟨(p, q), splitAt?_eq_some_iff.mpr ⟨rfl, hn⟩⟩

/-- The search ends before it would leave the text, at the last boundary that is not past the place. -/
theorem boundary?_spec (cs : List Char) (n : Nat) :
    ∃ p, p <+: cs ∧ boundary? cs n = some (byteCount p) ∧ byteCount p ≤ n ∧
      ∀ q, q <+: cs → byteCount q ≤ n → byteCount q ≤ byteCount p := by
  induction n with
  | zero =>
    have hzero : isBoundary 0 cs = true := isBoundary_iff.mpr ⟨[], List.nil_prefix, rfl⟩
    exact ⟨[], List.nil_prefix, by simp [boundary?, hzero], Nat.le_refl 0, fun q _ hq => hq⟩
  | succ n ih =>
    unfold boundary?
    by_cases h : isBoundary (n + 1) cs = true
    · obtain ⟨p, hp, hn⟩ := isBoundary_iff.mp h
      rw [if_pos h, hn]
      exact ⟨p, hp, rfl, Nat.le_refl _, fun q _ hq => hq⟩
    · obtain ⟨p, hp, heq, hle, hlast⟩ := ih
      rw [if_neg h]
      refine ⟨p, hp, heq, Nat.le_succ_of_le hle, fun q hq hqn => hlast q hq ?_⟩
      have hne : byteCount q ≠ n + 1 := fun hqn => h (isBoundary_iff.mpr ⟨q, hq, hqn.symm⟩)
      omega

theorem cut?_isSome (limit : Nat) (s : String) : (cut? limit s).isSome := by
  unfold cut?
  split
  · rfl
  · obtain ⟨p, ⟨q, hq⟩, heq, -⟩ := boundary?_spec s.toList limit
    rw [heq, Option.bind_some, ← hq, upTo?_append]
    rfl

/-- The longest leading part of `s` of at most `limit` bytes. -/
def cut (limit : Nat) (s : String) : String := (cut? limit s).get (cut?_isSome limit s)

end LogRelay.Text
