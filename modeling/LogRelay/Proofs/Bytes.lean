import LogRelay.Message
import LogRelay.Text.Digits

/-!
# The bytes of a text

A text is cut to the longest leading part that has no more bytes than it may have, and of several cuts only the one at
the smallest limit shows. A word written in eight hexadecimal digits has eight bytes, whatever the word.
-/

namespace LogRelay

namespace Text

theorem bytes_ofList_cons (c : Char) (cs : List Char) :
    (String.ofList (c :: cs)).utf8ByteSize = c.utf8Size + (String.ofList cs).utf8ByteSize := by
  rw [String.ofList_cons, String.utf8ByteSize_append, String.utf8ByteSize_singleton]

theorem bytes_ofList (cs : List Char) : (String.ofList cs).utf8ByteSize = byteCount cs := by
  induction cs with
  | nil => simp
  | cons c cs ih => rw [bytes_ofList_cons, ih, byteCount_cons]

theorem byteCount_toList (s : String) : byteCount s.toList = s.utf8ByteSize := by
  rw [← bytes_ofList, String.ofList_toList]

theorem byteCount_le_of_leads {p cs : List Char} (h : p <+: cs) : byteCount p ≤ byteCount cs := by
  obtain ⟨more, rfl⟩ := h
  rw [byteCount_append]
  omega

theorem prefix_of_byteCount_le {p q cs : List Char} (hp : p <+: cs) (hq : q <+: cs)
    (hle : byteCount q ≤ byteCount p) : q <+: p := by
  rcases List.prefix_or_prefix_of_prefix hq hp with h | ⟨more, rfl⟩
  · exact h
  · -- what comes after `p` has no bytes, so there is nothing
    cases more with
    | nil => simp
    | cons c more =>
      have hpos := c.utf8Size_pos
      rw [byteCount_append, byteCount_cons] at hle
      omega

/-- The longest leading part of a text that has at most `limit` bytes. -/
structure IsCut (limit : Nat) (text part : List Char) : Prop where
  leads : part <+: text
  fits : byteCount part ≤ limit
  longest : ∀ q, q <+: text → byteCount q ≤ limit → q <+: part

theorem exists_cut (limit : Nat) (cs : List Char) :
    ∃ p, IsCut limit cs p ∧ boundary? cs limit = some (byteCount p) := by
  obtain ⟨p, hp, hplace, hle, hlast⟩ := boundary?_spec cs limit
  refine ⟨p, ⟨hp, hle, ?_⟩, hplace⟩
  intro q hq hqn
  exact prefix_of_byteCount_le hp hq (hlast q hq hqn)

theorem isCut_cut (limit : Nat) (s : String) : IsCut limit s.toList (cut limit s).toList := by
  by_cases hfit : s.utf8ByteSize ≤ limit
  · have hcut : cut limit s = s := by simp [cut, cut?, hfit]
    rw [hcut]
    exact ⟨List.prefix_rfl, by rwa [byteCount_toList], fun q hq _ => hq⟩
  · obtain ⟨p, hp, hplace⟩ := exists_cut limit s.toList
    have hup : upTo? (byteCount p) s.toList = some p := by
      obtain ⟨more, hmore⟩ := hp.leads
      rw [← hmore, upTo?_append]
    have hcut : (cut limit s).toList = p := by simp [cut, cut?, hfit, hplace, hup]
    rw [hcut]
    exact hp

section
variable {limit : Nat} {text part part' : List Char}

theorem IsCut.near (h : IsCut limit text part) (hover : limit < byteCount text) : limit < byteCount part + 4 := by
  obtain ⟨more, rfl⟩ := h.leads
  cases more with
  | nil =>
    have hfits := h.fits
    rw [List.append_nil] at hover
    omega
  | cons c more =>
    refine Nat.lt_of_not_le fun hshort => ?_
    have hfour := c.utf8Size_le_four
    have hfits : byteCount (part ++ [c]) ≤ limit := by
      rw [byteCount_append, byteCount_cons, byteCount_nil]
      omega
    have hlength := (h.longest (part ++ [c]) ⟨more, by simp⟩ hfits).length_le
    rw [List.length_append, List.length_singleton] at hlength
    omega

theorem IsCut.prefix_of_le {limit' : Nat} (h : IsCut limit text part) (h' : IsCut limit' text part')
    (hle : limit ≤ limit') : part <+: part' := by
  apply h'.longest part h.leads
  exact Nat.le_trans h.fits hle

theorem IsCut.unique (h : IsCut limit text part) (h' : IsCut limit text part') : part = part' := by
  apply List.IsPrefix.eq_of_length_le (h.prefix_of_le h' (Nat.le_refl limit))
  exact (h'.prefix_of_le h (Nat.le_refl limit)).length_le

/-- A cut of a cut is the cut at the smaller of the two limits. -/
theorem IsCut.again {limit' : Nat} (h : IsCut limit text part) (h' : IsCut limit' part part') :
    IsCut (min limit limit') text part' := by
  refine ⟨h'.leads.trans h.leads, Nat.le_min.mpr ⟨?_, h'.fits⟩, ?_⟩
  · exact Nat.le_trans (byteCount_le_of_leads h'.leads) h.fits
  · intro q hq hqn
    obtain ⟨hlimit, hlimit'⟩ := Nat.le_min.mp hqn
    apply h'.longest q _ hlimit'
    exact h.longest q hq hlimit

end

theorem cut?_eq_cut (limit : Nat) (s : String) : cut? limit s = some (cut limit s) :=
  (Option.some_get (cut?_isSome limit s)).symm

/-- The search stops inside the text, at the place where the text is cut. -/
theorem boundary?_eq_cut (limit : Nat) (s : String) :
    boundary? s.toList limit = some (cut limit s).utf8ByteSize := by
  obtain ⟨p, hp, hplace⟩ := exists_cut limit s.toList
  rw [hplace, hp.unique (isCut_cut limit s), byteCount_toList]

theorem cut_cut (a b : Nat) (s : String) : cut b (cut a s) = cut (min a b) s := by
  apply String.toList_inj.mp
  apply IsCut.unique _ (isCut_cut (min a b) s)
  exact (isCut_cut a s).again (isCut_cut b (cut a s))

theorem bytes_cut_le (limit : Nat) (s : String) : (cut limit s).utf8ByteSize ≤ limit := by
  rw [← byteCount_toList]
  exact (isCut_cut limit s).fits

theorem bytes_of_small {cs : List Char} (h : ∀ c ∈ cs, c.utf8Size = 1) :
    (String.ofList cs).utf8ByteSize = cs.length := by
  induction cs with
  | nil => simp
  | cons c cs ih =>
    have hc : c.utf8Size = 1 := h c (by simp)
    have hcs := ih fun d hd => h d (List.mem_cons_of_mem c hd)
    rw [bytes_ofList_cons, hc, hcs, List.length_cons, Nat.add_comm]

theorem utf8Size_digitChar {d : Nat} (h : d < 16) : d.digitChar.utf8Size = 1 := by
  have hall : ∀ d < 16, d.digitChar.utf8Size = 1 := by decide
  exact hall d h

theorem utf8Size_of_mem_toDigits {n : Nat} {c : Char} (h : c ∈ Nat.toDigits 16 n) : c.utf8Size = 1 := by
  induction n using Nat.strongRecOn with
  | ind n ih =>
    rw [Nat.toDigits_eq_if (by omega)] at h
    split at h
    · rename_i hn
      rw [List.mem_singleton] at h
      rw [h]
      exact utf8Size_digitChar hn
    · rw [List.mem_append, List.mem_singleton] at h
      rcases h with h | h
      · exact ih (n / 16) (by omega) h
      · rw [h]
        exact utf8Size_digitChar (Nat.mod_lt n (by omega))

theorem bytes_hex {width n : Nat} (hn : (Nat.toDigits 16 n).length ≤ width) :
    (hex width n).utf8ByteSize = width := by
  unfold hex
  rw [bytes_of_small]
  · rw [List.length_append, List.length_replicate]
    omega
  · intro c hc
    rw [List.mem_append] at hc
    rcases hc with hc | hc
    · rw [List.eq_of_mem_replicate hc]
      rfl
    · exact utf8Size_of_mem_toDigits hc

end Text

namespace Message

theorem size_truncate_le (limit : Nat) (m : Message) : (m.truncate limit).size ≤ limit :=
  Text.bytes_cut_le limit m.text

theorem truncate_truncate (a b : Nat) (m : Message) : (m.truncate a).truncate b = m.truncate (min a b) := by
  unfold truncate
  rw [Text.cut_cut]

/-- Of many limits, one after the other, only the smallest counts. -/
theorem foldl_truncate (n : Nat) (ns : List Nat) (m : Message) :
    ns.foldl (fun m n => m.truncate n) (m.truncate n) = m.truncate (ns.foldl min n) := by
  induction ns generalizing n with
  | nil => rfl
  | cons k ns ih => rw [List.foldl_cons, List.foldl_cons, truncate_truncate, ih]

/-- Truncating a message leaves the longest part of whole characters that fits, and the search for its end stays in
the text. So the smallest of several limits decides, in whatever order they come, and a larger limit leaves no less. -/
theorem truncated_to_longest (m : Message) :
    (∀ n, Text.cut? n m.text = some (m.truncate n).text ∧ (m.truncate n).time = m.time ∧
      Text.IsCut n m.text.toList (m.truncate n).text.toList ∧
      Text.boundary? m.text.toList n = some (m.truncate n).size) ∧
    (∀ a b, (m.truncate a).truncate b = m.truncate (min a b)) ∧
    (∀ (n : Nat) (ns : List Nat), ns.foldl (fun m n => m.truncate n) (m.truncate n) = m.truncate (ns.foldl min n)) ∧
    (∀ n, (m.truncate n).truncate n = m.truncate n) ∧
    ∀ a b, a ≤ b → (m.truncate a).text.toList <+: (m.truncate b).text.toList := by
  refine ⟨?_, ?_, ?_, ?_, ?_⟩
  · intro n
    exact ⟨Text.cut?_eq_cut n m.text, rfl, Text.isCut_cut n m.text, Text.boundary?_eq_cut n m.text⟩
  · intro a b
    exact truncate_truncate a b m
  · intro n ns
    exact foldl_truncate n ns m
  · intro n
    rw [truncate_truncate, Nat.min_self]
  · intro a b hab
    exact (Text.isCut_cut a m.text).prefix_of_le (Text.isCut_cut b m.text) hab

/-- Both limits fall into the character of three bytes. -/
example : ((⟨⟨0⟩, "aé€"⟩ : Message).truncate 5).truncate 4 = ⟨⟨0⟩, "aé"⟩ := by decide +kernel

end Message

end LogRelay
