/-!
# Slices of a text

A place in a text is the number of bytes that come before it in UTF-8. A text can be cut only at a place between
two characters; cutting it anywhere else gives nothing.
-/

namespace LogRelay.Text

/-- The size of the characters in UTF-8. -/
def byteCount : List Char → Nat
  | [] => 0
  | c :: cs => c.utf8Size + byteCount cs

@[simp] theorem byteCount_nil : byteCount [] = 0 := rfl

@[simp] theorem byteCount_cons (c : Char) (cs : List Char) : byteCount (c :: cs) = c.utf8Size + byteCount cs := rfl

theorem byteCount_append (cs ds : List Char) : byteCount (cs ++ ds) = byteCount cs + byteCount ds := by
  induction cs with
  | nil => simp
  | cons c cs ih => rw [List.cons_append, byteCount_cons, byteCount_cons, ih, Nat.add_assoc]

/-- What comes before a place and what comes after it. -/
def splitAt? : Nat → List Char → Option (List Char × List Char)
  | 0, cs => some ([], cs)
  | _ + 1, [] => none
  | n + 1, c :: cs =>
    if c.utf8Size ≤ n + 1 then (splitAt? (n + 1 - c.utf8Size) cs).map fun (before, after) => (c :: before, after)
    else none

def upTo? (n : Nat) (cs : List Char) : Option (List Char) := (splitAt? n cs).map Prod.fst

def from? (n : Nat) (cs : List Char) : Option (List Char) := (splitAt? n cs).map Prod.snd

def between? (m n : Nat) (cs : List Char) : Option (List Char) := if m ≤ n then upTo? n cs >>= from? m else none

/-- The place of the first `c`. -/
def find? (c : Char) : List Char → Option Nat
  | [] => none
  | d :: cs => if d = c then some 0 else (find? c cs).map (d.utf8Size + ·)

/-- The place of the last `c`. -/
def rfind? (c : Char) : List Char → Option Nat
  | [] => none
  | d :: cs =>
    match rfind? c cs with
    | some n => some (d.utf8Size + n)
    | none => if d = c then some 0 else none

variable {c : Char} {n : Nat} {cs before after : List Char}

/-- A text is cut where some of its characters end. -/
theorem splitAt?_eq_some_iff : splitAt? n cs = some (before, after) ↔ cs = before ++ after ∧ n = byteCount before := by
  induction cs generalizing n before with
  | nil =>
    cases n with
    | zero => cases before <;> simp [splitAt?, eq_comm]
    | succ n =>
      simp only [splitAt?, reduceCtorEq, false_iff, not_and, eq_comm (a := []), List.append_eq_nil_iff]
      rintro ⟨rfl, -⟩
      simp
  | cons c cs ih =>
    have hpos := c.utf8Size_pos
    cases n with
    | zero =>
      cases before with
      | nil => simp [splitAt?, eq_comm]
      | cons d before =>
        have hd := d.utf8Size_pos
        simp [splitAt?]
        omega
    | succ n =>
      unfold splitAt?
      split
      · rename_i hle
        simp only [Option.map_eq_some_iff, Prod.exists, Prod.mk.injEq]
        constructor
        · rintro ⟨b, a, hs, rfl, rfl⟩
          obtain ⟨rfl, hn⟩ := ih.mp hs
          rw [byteCount_cons, ← hn]
          exact ⟨rfl, by omega⟩
        · rintro ⟨hcs, hn⟩
          cases before with
          | nil => simp at hn
          | cons d before =>
            obtain ⟨rfl, rfl⟩ := List.cons_eq_cons.mp hcs
            rw [byteCount_cons] at hn
            exact ⟨before, after, ih.mpr ⟨rfl, by omega⟩, rfl, rfl⟩
      · rename_i hle
        simp only [reduceCtorEq, false_iff, not_and]
        intro hcs hn
        cases before with
        | nil => simp at hn
        | cons d before =>
          obtain ⟨rfl, rfl⟩ := List.cons_eq_cons.mp hcs
          rw [byteCount_cons] at hn
          omega

@[simp] theorem upTo?_append : upTo? (byteCount before) (before ++ after) = some before := by
  rw [upTo?, splitAt?_eq_some_iff.mpr ⟨rfl, rfl⟩, Option.map_some]

@[simp] theorem from?_append : from? (byteCount before) (before ++ after) = some after := by
  rw [from?, splitAt?_eq_some_iff.mpr ⟨rfl, rfl⟩, Option.map_some]

theorem find?_of_not_mem (h : c ∉ cs) : find? c cs = none := by
  induction cs with
  | nil => rfl
  | cons d cs ih =>
    rw [List.mem_cons, not_or] at h
    rw [find?, if_neg (Ne.symm h.1), ih h.2, Option.map_none]

theorem find?_append (h : c ∉ before) : find? c (before ++ c :: after) = some (byteCount before) := by
  induction before with
  | nil => simp [find?]
  | cons d before ih =>
    rw [List.mem_cons, not_or] at h
    rw [List.cons_append, find?, if_neg (Ne.symm h.1), ih h.2, Option.map_some, byteCount_cons]

theorem rfind?_of_not_mem (h : c ∉ cs) : rfind? c cs = none := by
  induction cs with
  | nil => rfl
  | cons d cs ih =>
    rw [List.mem_cons, not_or] at h
    simp only [rfind?, ih h.2, if_neg (Ne.symm h.1)]

theorem exists_last (h : c ∈ cs) : ∃ before after, cs = before ++ c :: after ∧ c ∉ after := by
  obtain ⟨after, before, hcs, hc⟩ := List.eq_append_cons_of_mem (List.mem_reverse.mpr h)
  refine ⟨before.reverse, after.reverse, ?_, by simpa using hc⟩
  rw [← List.reverse_reverse cs, hcs]
  simp

theorem rfind?_append (h : c ∉ after) : rfind? c (before ++ c :: after) = some (byteCount before) := by
  induction before with
  | nil => simp [rfind?, rfind?_of_not_mem h]
  | cons d before ih => simp only [List.cons_append, rfind?, ih, byteCount_cons]

end LogRelay.Text
