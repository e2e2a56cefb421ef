import LogRelay.Template

/-!
# The pieces of a template

A template falls apart, in one way only, into characters and tokens: whatever stands between braces and has no brace
in it is a token, and every other character stands for itself. To expand a template is to put the values of the known
tokens in their places, however the rounds of the search for tokens go.
-/

namespace LogRelay

namespace Template

inductive Piece
  | char (c : Char)
  | token (name : List Char)

namespace Piece

def source : Piece → List Char
  | char c => [c]
  | token name => '{' :: (name ++ ['}'])

def text (value : List Char → Option (List Char)) : Piece → List Char
  | char c => [c]
  | token name => (value name).getD (token name).source

theorem source_ne_nil (p : Piece) : p.source ≠ [] := by
  cases p <;> simp [source]

theorem flatMap_source_eq_nil_iff {ps : List Piece} : ps.flatMap source = [] ↔ ps = [] := by
  cases ps with
  | nil => simp
  | cons p ps => simp [source_ne_nil]

theorem flatMap_text_char (value : List Char → Option (List Char)) (cs : List Char) :
    (cs.map char).flatMap (text value) = cs := by
  rw [List.flatMap_map]
  exact List.flatMap_singleton' cs

end Piece

/-- The text consists of these pieces, and every token in it is one of them. -/
structure FallsInto (text : List Char) (pieces : List Piece) : Prop where
  source : pieces.flatMap Piece.source = text
  names : ∀ name, .token name ∈ pieces → IsName name
  tokens : ∀ before name after, text = before ++ '{' :: (name ++ '}' :: after) → IsName name →
    ∃ p q, pieces = p ++ .token name :: q ∧ p.flatMap Piece.source = before

section
variable {name before after left cs : List Char} {c : Char} {pieces : List Piece}

/-- A brace in a text that begins with a name and a closing brace is that brace or comes after it. -/
theorem eq_or_exists_of_name (hname : IsName name) (hc : c = '{' ∨ c = '}')
    (h : name ++ '}' :: after = before ++ c :: left) :
    before = name ∧ c = '}' ∨ ∃ more, before = name ++ '}' :: more ∧ after = more ++ c :: left := by
  rcases List.append_eq_append_iff.mp h with ⟨more, rfl, hmore⟩ | ⟨more, rfl, hmore⟩
  · cases more with
    | nil => exact .inl ⟨List.append_nil name, (List.cons_eq_cons.mp hmore).1.symm⟩
    | cons d more =>
      obtain ⟨rfl, rfl⟩ := List.cons_eq_cons.mp hmore
      exact .inr ⟨more, rfl, rfl⟩
  · cases more with
    | nil => exact .inl ⟨(List.append_nil before).symm, (List.cons_eq_cons.mp hmore).1⟩
    | cons d more =>
      obtain ⟨rfl, -⟩ := List.cons_eq_cons.mp hmore
      rcases hc with rfl | rfl
      · exact absurd (by simp) hname.1
      · exact absurd (by simp) hname.2

theorem FallsInto.nil : FallsInto [] [] := ⟨rfl, nofun, by simp⟩

theorem FallsInto.char (h : FallsInto cs pieces) (hc : c = '{' → ∀ name after, IsName name → cs ≠ name ++ '}' :: after) :
    FallsInto (c :: cs) (.char c :: pieces) := by
  refine ⟨by simp [Piece.source, h.source], fun name hm => ?_, fun before name after htext hname => ?_⟩
  · rw [List.mem_cons] at hm
    rcases hm with hm | hm
    · cases hm
    · exact h.names name hm
  · cases before with
    | nil =>
      obtain ⟨rfl, rfl⟩ := List.cons_eq_cons.mp htext
      exact absurd rfl (hc rfl name after hname)
    | cons d before =>
      obtain ⟨rfl, rfl⟩ := List.cons_eq_cons.mp htext
      obtain ⟨p, q, rfl, hp⟩ := h.tokens before name after rfl hname
      exact ⟨.char c :: p, q, rfl, by simp [Piece.source, hp]⟩

theorem FallsInto.token (h : FallsInto after pieces) (hname : IsName name) :
    FallsInto ('{' :: (name ++ '}' :: after)) (.token name :: pieces) := by
  refine ⟨by simp [Piece.source, h.source], fun other hm => ?_, fun before other rest htext hother => ?_⟩
  · rw [List.mem_cons] at hm
    rcases hm with hm | hm
    · cases hm
      exact hname
    · exact h.names other hm
  -- the other token begins where this one does, or else after the brace that closes this one
  · cases before with
    | nil =>
      obtain ⟨-, hrest⟩ := List.cons_eq_cons.mp htext
      rcases eq_or_exists_of_name hname (.inr rfl) hrest with ⟨rfl, -⟩ | ⟨more, rfl, -⟩
      · exact ⟨[], pieces, rfl, rfl⟩
      · exact absurd (by simp) hother.2
    | cons d before =>
      obtain ⟨rfl, hrest⟩ := List.cons_eq_cons.mp htext
      rcases eq_or_exists_of_name hname (.inl rfl) hrest with ⟨-, hc⟩ | ⟨more, rfl, rfl⟩
      · cases hc
      · obtain ⟨p, q, rfl, hp⟩ := h.tokens more other rest rfl hother
        exact ⟨.token name :: p, q, rfl, by simp [Piece.source, hp]⟩

/-- Where no brace opens, no token begins. -/
theorem FallsInto.append_plain (h : FallsInto left pieces) (hcs : '{' ∉ cs) :
    FallsInto (cs ++ left) (cs.map .char ++ pieces) := by
  induction cs with
  | nil => exact h
  | cons c cs ih =>
    rw [List.mem_cons, not_or] at hcs
    exact (ih hcs.2).char fun hc => absurd hc.symm hcs.1

/-- Where no brace closes before another one opens, no token begins. -/
theorem FallsInto.append_open (h : FallsInto left pieces) (hcs : '}' ∉ cs)
    (hleft : left = [] ∨ ∃ rest, left = '{' :: rest) : FallsInto (cs ++ left) (cs.map .char ++ pieces) := by
  induction cs with
  | nil => exact h
  | cons c cs ih =>
    rw [List.mem_cons, not_or] at hcs
    refine (ih hcs.2).char fun _ name after hname heq => hcs.2 ?_
    rcases hleft with rfl | ⟨rest, rfl⟩
    · rw [List.append_nil] at heq
      simp [heq]
    · rcases eq_or_exists_of_name hname (.inl rfl) heq.symm with ⟨-, hc⟩ | ⟨more, rfl, -⟩
      · cases hc
      · simp

theorem FallsInto.tail {piece : Piece} (h : FallsInto cs (piece :: pieces)) :
    ∃ rest, cs = piece.source ++ rest ∧ FallsInto rest pieces := by
  refine ⟨pieces.flatMap Piece.source, by rw [← h.source, List.flatMap_cons], rfl, fun name hm => ?_, ?_⟩
  · exact h.names name (List.mem_cons_of_mem _ hm)
  · intro before name after htext hname
    obtain ⟨p, q, hpieces, hp⟩ := h.tokens (piece.source ++ before) name after
      (by rw [← h.source, List.flatMap_cons, htext, List.append_assoc]) hname
    cases p with
    | nil => exact absurd (List.append_eq_nil_iff.mp hp.symm).1 piece.source_ne_nil
    | cons first p =>
      obtain ⟨rfl, rfl⟩ := List.cons_eq_cons.mp hpieces
      exact ⟨p, q, rfl, List.append_cancel_left (by rw [← List.flatMap_cons, hp])⟩

theorem FallsInto.head_eq_token {piece : Piece} (h : FallsInto ('{' :: (name ++ '}' :: after)) (piece :: pieces))
    (hname : IsName name) : piece = .token name := by
  obtain ⟨p, q, hpieces, hp⟩ := h.tokens [] name after rfl hname
  rw [Piece.flatMap_source_eq_nil_iff.mp hp] at hpieces
  exact (List.cons_eq_cons.mp hpieces).1

theorem FallsInto.unique {others : List Piece} (h : FallsInto cs pieces) (ho : FallsInto cs others) :
    others = pieces := by
  -- piece by piece; a token cannot stand against a character, as each token of the text is a piece on both sides
  induction pieces generalizing cs others with
  | nil =>
    rw [← h.source] at ho
    exact Piece.flatMap_source_eq_nil_iff.mp ho.source
  | cons piece pieces ih =>
    cases others with
    | nil => exact absurd (Piece.flatMap_source_eq_nil_iff.mp (h.source.trans ho.source.symm)) (by simp)
    | cons other others =>
      obtain ⟨rest, rfl, hrest⟩ := h.tail
      obtain ⟨rest', hsame, hrest'⟩ := ho.tail
      have heq : other = piece := by
        cases piece with
        | token name =>
          have hname := h.names name List.mem_cons_self
          exact FallsInto.head_eq_token (by simpa [Piece.source] using ho) hname
        | char c =>
          cases other with
          | token name =>
            have hname := ho.names name List.mem_cons_self
            rw [hsame] at h
            exact (FallsInto.head_eq_token (by simpa [Piece.source] using h) hname).symm
          | char d =>
            obtain ⟨rfl, -⟩ := List.cons_eq_cons.mp hsame
            rfl
      subst heq
      rw [List.append_cancel_left hsame] at hrest
      rw [ih hrest hrest']

/-- The rounds arrive at the values of the pieces. -/
theorem exists_pieces (value : List Char → Option (List Char)) (cs : List Char) :
    ∃ pieces, FallsInto cs pieces ∧ substitute? value cs = some (pieces.flatMap (Piece.text value)) := by
  fun_induction substitute? value cs with
  | case1 cs h =>
    obtain ⟨written, left, h', -⟩ := round?_spec value cs
    rw [h] at h'
    cases h'
  | case2 cs written h =>
    refine ⟨written.map .char, ?_, by rw [Piece.flatMap_text_char]⟩
    cases round_of_round? h with
    | plain hplain => simpa using FallsInto.nil.append_plain hplain
    | @dangling before rest hb hr =>
      have hrest := FallsInto.nil.append_open (show '}' ∉ '{' :: rest by simp [hr]) (.inl rfl)
      simpa using hrest.append_plain hb
  | case3 cs written left h ih =>
    obtain ⟨pieces, hpieces, hleft⟩ := ih
    rw [hleft, Option.map_some]
    cases round_of_round? h with
    | @inner before outer token after hb ho ht =>
      refine ⟨(before ++ '{' :: outer).map .char ++ pieces, ?_, by rw [List.flatMap_append, Piece.flatMap_text_char]⟩
      have houter := hpieces.append_open (show '}' ∉ '{' :: outer by simp [ho]) (.inr ⟨_, rfl⟩)
      simpa using houter.append_plain hb
    | @token before token after hb ht =>
      refine ⟨before.map .char ++ .token token :: pieces, (hpieces.token ht).append_plain hb, ?_⟩
      rw [List.flatMap_append, Piece.flatMap_text_char, List.flatMap_cons, List.append_assoc]
      rfl

end

def IsKnown (v : Vocabulary) (name : String) : Prop :=
  name ∈ ["date", "timestamp", "hourlyTimestamp", "startupTimestamp", "pid", "sequence"] ∨
    ∃ key, name = "env:" ++ key ∧ (v.environment.value? key).isSome

theorem isSome_value?_iff {v : Vocabulary} {name : String} : (v.value? name).isSome ↔ IsKnown v name := by
  unfold IsKnown Vocabulary.value?
  by_cases hmem : name ∈ ["date", "timestamp", "hourlyTimestamp", "startupTimestamp", "pid", "sequence"]
  · simp only [List.mem_cons, List.not_mem_nil, or_false] at hmem
    rcases hmem with rfl | rfl | rfl | rfl | rfl | rfl <;> simp
  · rw [or_iff_right hmem]
    simp only [List.mem_cons, List.not_mem_nil, or_false, not_or] at hmem
    obtain ⟨h₁, h₂, h₃, h₄, h₅, h₆⟩ := hmem
    rw [if_neg h₁, if_neg h₂, if_neg h₃, if_neg h₄, if_neg h₅, if_neg h₆]
    have henv : ∀ key, name = "env:" ++ key ↔ name.toList = 'e' :: 'n' :: 'v' :: ':' :: key.toList := fun key => by
      rw [← String.toList_inj, String.toList_append]
      rfl
    simp only [henv]
    split
    · rename_i key hkey
      constructor
      · intro h
        exact ⟨String.ofList key, by rw [hkey, String.toList_ofList], h⟩
      · rintro ⟨key', hkey', h⟩
        obtain rfl : key = key'.toList := by simpa [hkey] using hkey'
        rwa [String.ofList_toList]
    · rename_i hno
      exact ⟨nofun, fun ⟨key, hkey, _⟩ => absurd hkey (hno key.toList)⟩

/-- A template falls into its pieces, and in that way only. Expanding it never cuts a character and leaves every
piece as it is, but for the tokens that are known, each of which gives way to its value. -/
theorem expanded_by_pieces (v : Vocabulary) (template : String) :
    (∃ pieces, (∀ others, FallsInto template.toList others ↔ others = pieces) ∧
      substitute? v.spell? template.toList = some (pieces.flatMap (Piece.text v.spell?)) ∧
      (expand v template).toList = pieces.flatMap (Piece.text v.spell?)) ∧
    ∀ name, (v.spell? name.toList).isSome ↔ IsKnown v name := by
  refine ⟨?_, fun name => ?_⟩
  · obtain ⟨pieces, hpieces, hvalue⟩ := exists_pieces v.spell? template.toList
    refine ⟨pieces, fun others => ⟨hpieces.unique, ?_⟩, hvalue, ?_⟩
    · rintro rfl
      exact hpieces
    · simp [expand, hvalue]
  · rw [← isSome_value?_iff, Vocabulary.spell?, Option.isSome_map, String.ofList_toList]

-- the outer brace, the unknown token and the dangling brace stay, and so does the token in a value
example : substitute? (fun name => if name = ['n'] then some "<\x7bn\x7d>".toList else none)
    "é\x7b\x7bn\x7d-\x7bx\x7d\x7bé".toList = some "é\x7b<\x7bn\x7d>-\x7bx\x7d\x7bé".toList := by decide +kernel

end Template

end LogRelay
