import LogRelay.Text.Slice
import LogRelay.Time.Timestamp

/-!
# Templates

A template is a text with tokens in braces. A known token is replaced by its value; everything
else stays, an unknown token with its braces. A token holds no brace: of nested braces the
innermost pair makes the token. Values are not looked at again.
-/

namespace LogRelay

/-- The variables of a process, each an entry `name=value`. -/
structure Variables where
  entries : List String := []

/-- What follows the name and an equals sign in the entry that begins with them, even if the name of
that entry ends earlier. No variable has an empty name. -/
def Variables.value? (vs : Variables) (name : String) : Option String :=
  if name.isEmpty then none
  else vs.entries.findSome? fun entry =>
    (List.isPrefixOf? (name.toList ++ ['=']) entry.toList).map String.ofList

/-- What the tokens stand for at one moment. -/
structure Vocabulary where
  now : Timestamp
  startup : Timestamp
  process : Nat
  sequence : UInt64
  environment : Variables

namespace Vocabulary

/-- The value of the token `name`, if it is known. -/
def value? (v : Vocabulary) (name : String) : Option String :=
  if name = "date" then some v.now.civil.dateStamp
  else if name = "timestamp" then some v.now.civil.secondStamp
  else if name = "hourlyTimestamp" then some v.now.civil.hourStamp
  else if name = "startupTimestamp" then some v.startup.civil.secondStamp
  else if name = "pid" then some (toString v.process)
  else if name = "sequence" then some (toString v.sequence.toNat)
  else match name.toList with
    | 'e' :: 'n' :: 'v' :: ':' :: key => v.environment.value? (String.ofList key)
    | _ => none

/-- The same, character by character. -/
def spell? (v : Vocabulary) (name : List Char) : Option (List Char) :=
  (v.value? (String.ofList name)).map String.toList

end Vocabulary

namespace Template

/-- What is written for the text from an opening brace to the closing brace at `stop`, and what follows it. A brace
that opens in between begins the token, and then only what is before that is written. -/
def replace? (value : List Char → Option (List Char)) (candidate : List Char) (stop : Nat) :
    Option (List Char × List Char) := do
  let token ← Text.between? 1 stop candidate
  match Text.rfind? '{' token with
  | some inner => return (← Text.upTo? (inner + 1) candidate, ← Text.from? (inner + 1) candidate)
  | none =>
    let text ← match value token with
      | some text => some text
      | none => Text.upTo? (stop + 1) candidate
    return (text, ← Text.from? (stop + 1) candidate)

/-- One round of the search for a token: what is written, and what is left to be searched if anything is. The text
is cut at places that were found in it, and where that is not possible there is no result. -/
def round? (value : List Char → Option (List Char)) (rest : List Char) : Option (List Char × Option (List Char)) :=
  match Text.find? '{' rest with
  | none => some (rest, none)
  | some start => do
    let before ← Text.upTo? start rest
    let candidate ← Text.from? start rest
    match Text.find? '}' candidate with
    | none => return (before ++ candidate, none)
    | some stop =>
      let (text, left) ← replace? value candidate stop
      return (before ++ text, some left)

/-- A token is named by a text without braces. -/
def IsName (text : List Char) : Prop := '{' ∉ text ∧ '}' ∉ text

section
variable {value : List Char → Option (List Char)} {before outer token after rest : List Char}

theorem between?_braces :
    Text.between? 1 (Text.byteCount ('{' :: token)) ('{' :: token ++ '}' :: after) = some token := by
  have hle : 1 ≤ Text.byteCount ('{' :: token) := Nat.le_add_right 1 _
  -- the place 1 is the one after the opening brace
  have hfrom : Text.from? (Text.byteCount ['{']) (['{'] ++ token) = some token := Text.from?_append
  rw [Text.between?, if_pos hle, Text.upTo?_append]
  exact hfrom

theorem replace?_inner (ht : IsName token) :
    replace? value ('{' :: (outer ++ '{' :: token) ++ '}' :: after) (Text.byteCount ('{' :: (outer ++ '{' :: token))) =
      some ('{' :: outer, '{' :: (token ++ '}' :: after)) := by
  have hplace : Text.byteCount outer + 1 = Text.byteCount ('{' :: outer) := Nat.add_comm _ _
  have hsplit : '{' :: (outer ++ '{' :: token) ++ '}' :: after = '{' :: outer ++ '{' :: (token ++ '}' :: after) := by
    simp
  rw [replace?, between?_braces, Option.bind_eq_bind, Option.bind_some, Text.rfind?_append ht.1]
  simp only [hplace, hsplit, Text.upTo?_append, Text.from?_append, Option.bind_some]
  rfl

theorem replace?_token (ht : IsName token) :
    replace? value ('{' :: token ++ '}' :: after) (Text.byteCount ('{' :: token)) =
      some ((value token).getD ('{' :: (token ++ ['}'])), after) := by
  have hplace : Text.byteCount ('{' :: token) + 1 = Text.byteCount ('{' :: (token ++ ['}'])) := by
    rw [← List.cons_append, Text.byteCount_append]
    rfl
  have hsplit : '{' :: token ++ '}' :: after = '{' :: (token ++ ['}']) ++ after := by simp
  rw [replace?, between?_braces, Option.bind_eq_bind, Option.bind_some, Text.rfind?_of_not_mem ht.1]
  simp only [hplace, hsplit, Text.upTo?_append, Text.from?_append, Option.bind_some]
  cases value token <;> rfl

theorem round?_plain (h : '{' ∉ rest) : round? value rest = some (rest, none) := by
  rw [round?, Text.find?_of_not_mem h]

theorem round?_dangling (hb : '{' ∉ before) (hr : '}' ∉ rest) :
    round? value (before ++ '{' :: rest) = some (before ++ '{' :: rest, none) := by
  have hclose : Text.find? '}' ('{' :: rest) = none := Text.find?_of_not_mem (by simp [hr])
  simp [round?, Text.find?_append hb, hclose]

theorem round?_closed {text left : List Char} (hb : '{' ∉ before) (ht : '}' ∉ token)
    (h : replace? value ('{' :: token ++ '}' :: after) (Text.byteCount ('{' :: token)) = some (text, left)) :
    round? value (before ++ '{' :: (token ++ '}' :: after)) = some (before ++ text, some left) := by
  have hclose : Text.find? '}' ('{' :: token ++ '}' :: after) = some (Text.byteCount ('{' :: token)) :=
    Text.find?_append (by simp [ht])
  rw [List.cons_append] at hclose h
  simp only [round?, Text.find?_append hb, Text.upTo?_append, Text.from?_append, Option.bind_eq_bind, Option.bind_some,
    hclose, h]
  rfl

end

/-- What comes of a round, for every text. -/
inductive Round (value : List Char → Option (List Char)) : List Char → List Char → Option (List Char) → Prop
  | plain {text : List Char} (h : '{' ∉ text) : Round value text text none
  | dangling {before rest : List Char} (hb : '{' ∉ before) (hr : '}' ∉ rest) :
      Round value (before ++ '{' :: rest) (before ++ '{' :: rest) none
  | inner {before outer token after : List Char} (hb : '{' ∉ before) (ho : '}' ∉ outer)
      (ht : IsName token) : Round value (before ++ '{' :: (outer ++ '{' :: token ++ '}' :: after))
        (before ++ '{' :: outer) (some ('{' :: (token ++ '}' :: after)))
  | token {before token after : List Char} (hb : '{' ∉ before) (ht : IsName token) :
      Round value (before ++ '{' :: (token ++ '}' :: after))
        (before ++ (value token).getD ('{' :: (token ++ ['}']))) (some after)

/-- No round cuts a character. -/
theorem round?_spec (value : List Char → Option (List Char)) (text : List Char) :
    ∃ written left, round? value text = some (written, left) ∧ Round value text written left := by
  by_cases hopen : '{' ∈ text
  · obtain ⟨before, rest, rfl, hb⟩ := List.eq_append_cons_of_mem hopen
    by_cases hclose : '}' ∈ rest
    · obtain ⟨token, after, rfl, ht⟩ := List.eq_append_cons_of_mem hclose
      by_cases hinner : '{' ∈ token
      · obtain ⟨outer, token, rfl, hi⟩ := Text.exists_last hinner
        rw [List.mem_append, List.mem_cons, not_or, not_or] at ht
        have hname : IsName token := ⟨hi, ht.2.2⟩
        exact ⟨_, _, round?_closed hb (by simp [ht]) (replace?_inner hname), .inner hb ht.1 hname⟩
      · exact ⟨_, _, round?_closed hb ht (replace?_token ⟨hinner, ht⟩), .token hb ⟨hinner, ht⟩⟩
    · exact ⟨_, _, round?_dangling hb hclose, .dangling hb hclose⟩
  · exact ⟨_, _, round?_plain hopen, .plain hopen⟩

theorem round_of_round? {value : List Char → Option (List Char)} {text written : List Char} {left : Option (List Char)}
    (h : round? value text = some (written, left)) : Round value text written left := by
  obtain ⟨written', left', h', hround⟩ := round?_spec value text
  rw [h] at h'
  cases h'
  exact hround

theorem Round.shortens {value : List Char → Option (List Char)} {text written left : List Char}
    (h : Round value text written (some left)) : left.length < text.length := by
  cases h with
  | inner hb ho ht => simp; omega
  | token hb ht => simp; omega

/-- Replaces every known token, round by round. -/
def substitute? (value : List Char → Option (List Char)) (text : List Char) : Option (List Char) :=
  match _ : round? value text with
  | none => none
  | some (written, none) => some written
  | some (written, some left) => (substitute? value left).map (written ++ ·)
termination_by text.length
decreasing_by exact (round_of_round? (by assumption)).shortens

theorem substitute?_isSome (value : List Char → Option (List Char)) (text : List Char) :
    (substitute? value text).isSome := by
  fun_induction substitute? value text with
  | case1 text h =>
    obtain ⟨written, left, h', -⟩ := round?_spec value text
    rw [h] at h'
    cases h'
  | case2 text written h => rfl
  | case3 text written left h ih => rw [Option.isSome_map, ih]

/-- Replaces every known token of the template. -/
def expand (v : Vocabulary) (template : String) : String :=
  String.ofList ((substitute? v.spell? template.toList).get (substitute?_isSome _ _))

end Template

end LogRelay
