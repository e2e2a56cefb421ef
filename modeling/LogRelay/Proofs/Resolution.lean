import Mathlib.Data.List.Infix
import LogRelay.Proofs.Pieces
import LogRelay.Settings

/-!
# Names that have been resolved

Where no variable of the environment comes in, expanding a template leaves nothing in it to be expanded. A token of the
result is a token of the template that was unknown, or else it has the value of a known one in its name; but values
are numbers, and no known token has a digit in its name.
-/

namespace LogRelay

namespace Text

def IsNumeric (s : String) : Prop := s.toList ≠ [] ∧ ∀ c ∈ s.toList, c.isDigit = true ∨ c = '-'

theorem IsNumeric.append {s t : String} (hs : IsNumeric s) (ht : IsNumeric t) : IsNumeric (s ++ t) := by
  unfold IsNumeric at *
  rw [String.toList_append]
  refine ⟨by simp [hs.1], fun c hc => ?_⟩
  rcases List.mem_append.mp hc with hc | hc
  · exact hs.2 c hc
  · exact ht.2 c hc

theorem isNumeric_zeroPadded (width n : Nat) : IsNumeric (zeroPadded width n) := by
  unfold IsNumeric zeroPadded
  rw [String.toList_ofList]
  refine ⟨by simp [Nat.toDigits_ne_nil], fun c hc => ?_⟩
  rcases List.mem_append.mp hc with hc | hc
  · rw [List.eq_of_mem_replicate hc]
    decide
  · exact .inl (Nat.isDigit_of_mem_toDigits (by decide) (by decide) hc)

theorem isNumeric_toString (n : Nat) : IsNumeric (toString n) := by
  have h : toString n = zeroPadded 0 n := by simp [zeroPadded, Nat.repr, toString]
  rw [h]
  exact isNumeric_zeroPadded 0 n

theorem isNumeric_sign : IsNumeric "-" := ⟨by simp, by simp⟩

end Text

namespace Civil

open Text

theorem isNumeric_stampYear (c : Civil) : IsNumeric c.stampYear := by
  unfold stampYear
  split
  · exact isNumeric_sign.append (isNumeric_zeroPadded 3 _)
  · exact isNumeric_zeroPadded 4 _

theorem isNumeric_dateStamp (c : Civil) : IsNumeric c.dateStamp :=
  (c.isNumeric_stampYear.append (isNumeric_zeroPadded 2 _)).append (isNumeric_zeroPadded 2 _)

theorem isNumeric_secondStamp (c : Civil) : IsNumeric c.secondStamp :=
  ((c.isNumeric_dateStamp.append (isNumeric_zeroPadded 2 _)).append (isNumeric_zeroPadded 2 _)).append
    (isNumeric_zeroPadded 2 _)

theorem isNumeric_hourStamp (c : Civil) : IsNumeric c.hourStamp :=
  (c.isNumeric_dateStamp.append (isNumeric_zeroPadded 2 _)).append ⟨by simp, by simp⟩

end Civil

namespace Template

section
variable {value : List Char → Option (List Char)} {pieces : List Piece} {name after cs : List Char}

def HasValue (value : List Char → Option (List Char)) (pieces : List Piece) (name : List Char) : Prop :=
  ∃ token text, .token token ∈ pieces ∧ value token = some text ∧ text <:+: name

theorem HasValue.mono {others : List Piece} (h : HasValue value pieces name) (hsub : pieces ⊆ others) :
    HasValue value others name := by
  obtain ⟨token, text, hmem, hvalue, hin⟩ := h
  exact ⟨token, text, hsub hmem, hvalue, hin⟩

theorem HasValue.cons {c : Char} (h : HasValue value pieces name) : HasValue value pieces (c :: name) := by
  obtain ⟨token, text, hmem, hvalue, hin⟩ := h
  exact ⟨token, text, hmem, hvalue, hin.trans (List.suffix_cons c name).isInfix⟩

/-- A name that ends the way a token does after the values are in their places was there before, or has a value in it. -/
theorem name_before_or_hasValue (hname : IsName name)
    (hvalues : ∀ token text, .token token ∈ pieces → value token = some text → IsName text)
    (h : pieces.flatMap (Piece.text value) = name ++ '}' :: after) :
    (∃ rest, pieces.flatMap Piece.source = name ++ '}' :: rest) ∨ HasValue value pieces name := by
  induction pieces generalizing name with
  | nil => simp at h
  | cons piece pieces ih =>
    rw [List.flatMap_cons] at h ⊢
    have hvalues' : ∀ token text, .token token ∈ pieces → value token = some text → IsName text :=
      fun token text hm => hvalues token text (List.mem_cons_of_mem _ hm)
    cases piece with
    | char c =>
      cases name with
      | nil =>
        obtain ⟨rfl, -⟩ := List.cons_eq_cons.mp h
        exact .inl ⟨_, rfl⟩
      | cons d name =>
        obtain ⟨rfl, htail⟩ := List.cons_eq_cons.mp h
        have hname' : IsName name := ⟨fun hm => hname.1 (List.mem_cons_of_mem _ hm),
          fun hm => hname.2 (List.mem_cons_of_mem _ hm)⟩
        rcases ih hname' hvalues' htail with ⟨rest, hrest⟩ | hin
        · exact .inl ⟨rest, by rw [hrest]; rfl⟩
        · exact .inr (hin.cons.mono (List.subset_cons_self _ _))
    | token token =>
      cases hvalue : value token with
      | none =>
        -- an unknown token opens with a brace, and there is none in a name
        cases name with
        | nil => simp [Piece.text, Piece.source, hvalue] at h
        | cons d name =>
          simp only [Piece.text, hvalue, Option.getD_none, Piece.source, List.cons_append] at h
          obtain ⟨rfl, -⟩ := List.cons_eq_cons.mp h
          exact absurd List.mem_cons_self hname.1
      | some text =>
        -- the closing brace is not one of the value's
        have htext := hvalues token text List.mem_cons_self hvalue
        simp only [Piece.text, hvalue, Option.getD_some] at h
        refine .inr ⟨token, text, List.mem_cons_self, hvalue, ?_⟩
        rcases List.append_eq_append_iff.mp h with ⟨more, rfl, -⟩ | ⟨more, rfl, hmore⟩
        · exact (List.prefix_append text more).isInfix
        · cases more with
          | nil => simp
          | cons d more =>
            obtain ⟨rfl, -⟩ := List.cons_eq_cons.mp hmore
            exact absurd (by simp) htext.2

/-- No token comes about by expanding, unless there is a value in its name. -/
theorem unknown_or_hasValue {before : List Char} (hfalls : FallsInto cs pieces)
    (hvalues : ∀ token text, .token token ∈ pieces → value token = some text → IsName text) (hname : IsName name)
    (h : pieces.flatMap (Piece.text value) = before ++ '{' :: (name ++ '}' :: after)) :
    value name = none ∨ HasValue value pieces name := by
  induction pieces generalizing cs before with
  | nil => simp at h
  | cons piece pieces ih =>
    obtain ⟨rest, rfl, hrest⟩ := hfalls.tail
    have hvalues' : ∀ token text, .token token ∈ pieces → value token = some text → IsName text :=
      fun token text hm => hvalues token text (List.mem_cons_of_mem _ hm)
    have later : ∀ {before}, pieces.flatMap (Piece.text value) = before ++ '{' :: (name ++ '}' :: after) →
        value name = none ∨ HasValue value (piece :: pieces) name := fun h =>
      (ih hrest hvalues' h).imp_right fun hin => hin.mono (List.subset_cons_self _ _)
    rw [List.flatMap_cons] at h
    cases piece with
    | char c =>
      cases before with
      | cons d before =>
        obtain ⟨-, htail⟩ := List.cons_eq_cons.mp h
        exact later htail
      | nil =>
        obtain ⟨rfl, htail⟩ := List.cons_eq_cons.mp h
        rcases name_before_or_hasValue hname hvalues' htail with ⟨more, hmore⟩ | hin
        · -- then this was a token all along
          rw [hrest.source] at hmore
          subst hmore
          cases hfalls.head_eq_token hname
        · exact .inr (hin.mono (List.subset_cons_self _ _))
    | token token =>
      cases hvalue : value token with
      | none =>
        have htoken := hfalls.names token List.mem_cons_self
        simp only [Piece.text, hvalue, Option.getD_none, Piece.source, List.cons_append, List.append_assoc] at h
        cases before with
        | nil =>
          obtain ⟨-, h⟩ := List.cons_eq_cons.mp h
          rcases eq_or_exists_of_name htoken (.inr rfl) h with ⟨rfl, -⟩ | ⟨more, rfl, -⟩
          · exact .inl hvalue
          · exact absurd (by simp) hname.2
        | cons d before =>
          obtain ⟨-, h⟩ := List.cons_eq_cons.mp h
          rcases eq_or_exists_of_name htoken (.inl rfl) h with ⟨-, hc⟩ | ⟨more, rfl, htail⟩
          · cases hc
          · exact later htail
      | some text =>
        have htext := hvalues token text List.mem_cons_self hvalue
        simp only [Piece.text, hvalue, Option.getD_some] at h
        rcases List.append_eq_append_iff.mp h with ⟨more, rfl, htail⟩ | ⟨more, rfl, hmore⟩
        · exact later htail
        · cases more with
          | nil =>
            rw [List.nil_append] at hmore
            exact @later [] hmore.symm
          | cons d more =>
            obtain ⟨rfl, -⟩ := List.cons_eq_cons.mp hmore
            exact absurd (by simp) htext.1

theorem flatMap_text_of_unknown (h : ∀ name, .token name ∈ pieces → value name = none) :
    pieces.flatMap (Piece.text value) = pieces.flatMap Piece.source := by
  induction pieces with
  | nil => rfl
  | cons piece pieces ih =>
    rw [List.flatMap_cons, List.flatMap_cons, ih fun name hm => h name (List.mem_cons_of_mem _ hm)]
    cases piece with
    | char c => rfl
    | token name => rw [Piece.text, h name List.mem_cons_self, Option.getD_none]

theorem substitute?_of_unknown
    (h : ∀ before name after, cs = before ++ '{' :: (name ++ '}' :: after) → IsName name → value name = none) :
    substitute? value cs = some cs := by
  obtain ⟨pieces, hfalls, hsub⟩ := exists_pieces value cs
  rw [hsub, flatMap_text_of_unknown, hfalls.source]
  intro name hm
  obtain ⟨p, q, rfl⟩ := List.append_of_mem hm
  refine h (p.flatMap Piece.source) name (q.flatMap Piece.source) ?_ (hfalls.names name hm)
  rw [← hfalls.source]
  simp [Piece.source]

end

/-- No variable of the environment that the text names is set. -/
def Unset (vs : Variables) (text : String) : Prop :=
  ∀ key : String, IsName key.toList → ("\x7benv:" ++ key ++ "\x7d").toList <:+: text.toList → vs.value? key = none

theorem Unset.value?_eq_none {vs : Variables} {text key : String} {before after : List Char} (h : Unset vs text)
    (hname : IsName ("env:" ++ key).toList)
    (htext : text.toList = before ++ '{' :: (("env:" ++ key).toList ++ '}' :: after)) : vs.value? key = none := by
  rw [String.toList_append] at hname htext
  apply h key
  · unfold IsName at *
    simp only [List.mem_append, not_or] at hname
    exact ⟨hname.1.2, hname.2.2⟩
  · refine ⟨before, after, ?_⟩
    rw [htext]
    simp

end Template

namespace Vocabulary

open Template Text

theorem isNumeric_or_env {v : Vocabulary} {name text : String} (h : v.value? name = some text) :
    IsNumeric text ∨ ∃ key, name = "env:" ++ key ∧ v.environment.value? key = some text := by
  unfold value? at h
  split_ifs at h
  · cases h
    exact .inl v.now.civil.isNumeric_dateStamp
  · cases h
    exact .inl v.now.civil.isNumeric_secondStamp
  · cases h
    exact .inl v.now.civil.isNumeric_hourStamp
  · cases h
    exact .inl v.startup.civil.isNumeric_secondStamp
  · cases h
    exact .inl (isNumeric_toString _)
  · cases h
    exact .inl (isNumeric_toString _)
  · split at h
    · rename_i key hkey
      refine .inr ⟨String.ofList key, ?_, h⟩
      rw [← String.toList_inj, hkey]
      simp
    · cases h

theorem not_numeric_of_builtin {name : String}
    (h : name ∈ ["date", "timestamp", "hourlyTimestamp", "startupTimestamp", "pid", "sequence"]) :
    ∀ c ∈ name.toList, ¬(c.isDigit = true ∨ c = '-') := by
  simp only [List.mem_cons, List.not_mem_nil, or_false] at h
  rcases h with rfl | rfl | rfl | rfl | rfl | rfl <;> simp

end Vocabulary

namespace Template

open Text

variable {v later : Vocabulary} {t : String}

/-- No token of the result is known, neither now nor later. -/
theorem unknown_of_expand (ht : Unset v.environment t) (hr : Unset later.environment (expand v t))
    {before name after : List Char} (h : (expand v t).toList = before ++ '{' :: (name ++ '}' :: after))
    (hname : IsName name) : later.spell? name = none := by
  obtain ⟨⟨pieces, hpieces, -, hexpand⟩, -⟩ := expanded_by_pieces v t
  have hfalls := (hpieces pieces).mpr rfl
  have hvalues : ∀ token text, .token token ∈ pieces → v.spell? token = some text →
      IsNumeric (String.ofList text) := by
    intro token text hm hvalue
    obtain ⟨s, hs, rfl⟩ := Option.map_eq_some_iff.mp hvalue
    rw [String.ofList_toList]
    rcases Vocabulary.isNumeric_or_env hs with hnum | ⟨key, hkey, hset⟩
    · exact hnum
    · -- a variable that is set is not named in the template
      obtain rfl : token = ("env:" ++ key).toList := by rw [← hkey, String.toList_ofList]
      obtain ⟨p, q, rfl⟩ := List.append_of_mem hm
      have hsource := hfalls.source
      rw [List.flatMap_append, List.flatMap_cons] at hsource
      have hplace : t.toList = p.flatMap Piece.source ++ '{' :: (("env:" ++ key).toList ++ '}' ::
          q.flatMap Piece.source) := by
        rw [← hsource]
        simp [Piece.source]
      rw [ht.value?_eq_none (hfalls.names _ hm) hplace] at hset
      cases hset
  rw [← Option.not_isSome_iff_eq_none, Vocabulary.spell?, Option.isSome_map, isSome_value?_iff]
  rintro (hbuiltin | ⟨key, hkey, hset⟩)
  · have hletters := Vocabulary.not_numeric_of_builtin hbuiltin
    rw [String.toList_ofList] at hletters
    have hbraces : ∀ token text, .token token ∈ pieces → v.spell? token = some text → IsName text := by
      intro token text hm hvalue
      have hnum := (hvalues token text hm hvalue).2
      rw [String.toList_ofList] at hnum
      exact ⟨fun hc => by simpa using hnum _ hc, fun hc => by simpa using hnum _ hc⟩
    rw [hexpand] at h
    rcases unknown_or_hasValue hfalls hbraces hname h with hnone | ⟨token, text, hm, hvalue, hin⟩
    · have hknown : (v.value? (String.ofList name)).isSome := isSome_value?_iff.mpr (.inl hbuiltin)
      rw [Vocabulary.spell?, Option.map_eq_none_iff] at hnone
      simp [hnone] at hknown
    · obtain ⟨hne, hnum⟩ := hvalues token text hm hvalue
      rw [String.toList_ofList] at hne hnum
      obtain ⟨c, hc⟩ := List.exists_mem_of_ne_nil text hne
      exact hletters c (hin.subset hc) (hnum c hc)
  · obtain rfl : name = ("env:" ++ key).toList := by rw [← hkey, String.toList_ofList]
    rw [hr.value?_eq_none hname h] at hset
    cases hset

theorem expand_expand (ht : Unset v.environment t) (hr : Unset later.environment (expand v t)) :
    expand later (expand v t) = expand v t := by
  have h := substitute?_of_unknown fun before name after htext hname => unknown_of_expand ht hr htext hname
  rw [← String.toList_inj, expand]
  simp [h]

end Template

open Template

def Target.templates : Target → List String
  | cloudWatch s => [s.logGroup, s.logStream]
  | kinesis s => s.stream :: if s.hasRandomKey then [] else [s.partitionKey]
  | sns s => s.topicName.toList ++ s.topicArn.toList ++ s.subject.toList

section
variable {v later : Vocabulary}

theorem Template.map_expand_expand {name : Option String} (ht : ∀ t ∈ name.toList, Unset v.environment t)
    (hr : ∀ t ∈ (name.map (expand v)).toList, Unset later.environment t) :
    (name.map (expand v)).map (expand later) = name.map (expand v) := by
  cases name with
  | none => simp only [Option.map_none]
  | some t => simp only [Option.map_some, expand_expand (ht t (by simp)) (hr (expand v t) (by simp))]

theorem Target.resolve_resolve {d : Target} (ht : ∀ t ∈ d.templates, Unset v.environment t)
    (hr : ∀ t ∈ (d.resolve v).templates, Unset later.environment t) : (d.resolve v).resolve later = d.resolve v := by
  cases d with
  | cloudWatch s =>
    simp only [templates, resolve, List.mem_cons, List.not_mem_nil, or_false, forall_eq_or_imp, forall_eq] at *
    rw [expand_expand ht.1 hr.1, expand_expand ht.2 hr.2]
  | kinesis s =>
    have hstream := expand_expand (ht s.stream List.mem_cons_self) (hr _ List.mem_cons_self)
    by_cases hrandom : s.hasRandomKey = true
    · have hagain : ({ s with stream := expand v s.stream } : KinesisSettings).hasRandomKey = true := hrandom
      simp [resolve, hrandom, hagain, hstream]
    · have hresolve : (kinesis s).resolve v =
          kinesis { s with stream := expand v s.stream, partitionKey := expand v s.partitionKey } := by
        simp [resolve, hrandom]
      rw [hresolve] at hr ⊢
      -- the key may have turned into the request for random keys, which is no template any more
      by_cases hagain : ({ s with
          stream := expand v s.stream, partitionKey := expand v s.partitionKey } : KinesisSettings).hasRandomKey = true
      · simp [resolve, hagain, hstream]
      · have hkey := expand_expand (ht s.partitionKey (by simp [templates, hrandom]))
          (hr _ (by simp [templates, hagain]))
        simp [resolve, hagain, hstream, hkey]
  | sns s =>
    simp only [templates, resolve, List.mem_append] at *
    rw [map_expand_expand (fun t h => ht t (.inl (.inl h))) fun t h => hr t (.inl (.inl h)),
      map_expand_expand (fun t h => ht t (.inl (.inr h))) fun t h => hr t (.inl (.inr h)),
      map_expand_expand (fun t h => ht t (.inr h)) fun t h => hr t (.inr h)]

end

/-- A template is expanded once and for all where none of the variables is set that the template or its result name,
and so settings that have been resolved stay as they are, then and at any later time. -/
theorem resolved_once (v later : Vocabulary) :
    (∀ t, Unset v.environment t → Unset later.environment (expand v t) →
      expand later (expand v t) = expand v t) ∧
    ∀ s : Settings, (∀ t ∈ s.target.templates, Unset v.environment t) →
      (∀ t ∈ (s.resolve v).target.templates, Unset later.environment t) →
      (s.resolve v).resolve later = s.resolve v := by
  refine ⟨fun t ht hr => expand_expand ht hr, fun s ht hr => ?_⟩
  unfold Settings.resolve at *
  rw [Target.resolve_resolve ht hr]

-- a variable that is set may bring in a token
example : expand ⟨⟨0⟩, ⟨0⟩, 7, 0, ⟨["A=\x7bpid\x7d"]⟩⟩ "\x7benv:A\x7d" = "\x7bpid\x7d" := by decide +kernel

def Vocabulary.evening : Vocabulary := ⟨⟨1723309972000000000⟩, ⟨0⟩, 7, 42, ⟨["A=b"]⟩⟩

theorem Vocabulary.evening_unset {text : String} (h : ¬"\x7benv:A\x7d".toList <:+: text.toList) :
    Unset evening.environment text := by
  intro key hname hin
  have hkey : key.toList ≠ ['A'] := by
    intro hkey
    obtain rfl : key = "A" := by rw [← String.toList_inj, hkey]; rfl
    exact h hin
  have hprefix : List.isPrefixOf? (key.toList ++ ['=']) ['A', '=', 'b'] = none := by
    rcases hcs : key.toList with _ | ⟨c, _ | ⟨d, _ | ⟨e, cs⟩⟩⟩ <;> simp_all [List.isPrefixOf?]
  simp [evening, Variables.value?, hprefix]

def tangle : String :=
  "\x7b\x7bdate\x7d\x7d\x7bda\x7bsequence\x7dte\x7d\x7benv:N\x7d\x7benv:\x7bpid\x7d\x7d\x7b"

def Settings.tangled : Settings := { target := .sns { topicName := some tangle } }

theorem resolved_once_tangled :
    expand .evening tangle = "\x7b20240810\x7d\x7bda42te\x7d\x7benv:N\x7d\x7benv:7\x7d\x7b" ∧
      expand .evening (expand .evening tangle) = expand .evening tangle ∧
      (Settings.tangled.resolve .evening).resolve .evening = Settings.tangled.resolve .evening := by
  have ht : Unset Vocabulary.evening.environment tangle := Vocabulary.evening_unset (by decide)
  have hr : Unset Vocabulary.evening.environment (expand .evening tangle) :=
    Vocabulary.evening_unset (by decide +kernel)
  obtain ⟨htemplates, hsettings⟩ := resolved_once .evening .evening
  refine ⟨by decide +kernel, htemplates tangle ht hr, hsettings .tangled ?_ ?_⟩
  · intro t h
    rwa [List.mem_singleton.mp h]
  · intro t h
    rwa [List.mem_singleton.mp h]

end LogRelay
