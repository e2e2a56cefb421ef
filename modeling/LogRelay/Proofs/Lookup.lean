import LogRelay.Delivery.Sns
import LogRelay.Proofs.Histories
import Mathlib.Data.List.TakeWhile

/-!
# Topics on the pages of a list

Topics are listed in pages, each with the token of the next one. However many pages there are, the topic that is
taken is the first on them that was asked for, no page after it is asked for, and a topic is created only after all
pages have been looked through. From then on its ARN is known and everything is published there.
-/

namespace LogRelay

namespace Sns

def Request.IsListing : Request → Prop
  | .listTopics _ => True
  | _ => False

namespace Topic

def EndsIn (arn name : String) : Prop := ':' ∉ name.toList ∧ (arn = name ∨ ∃ before, arn = before ++ ":" ++ name)

theorem takeWhile_reverse_eq_iff {l k : List Char} : (l.reverse.takeWhile (· != ':')).reverse = k ↔
    ':' ∉ k ∧ (l = k ∨ ∃ before, l = before ++ ':' :: k) := by
  constructor
  · rintro rfl
    refine ⟨fun h => ?_, ?_⟩
    · have hne := List.mem_takeWhile_imp (List.mem_reverse.mp h)
      simp at hne
    · have hl : l = (l.reverse.dropWhile (· != ':')).reverse ++ (l.reverse.takeWhile (· != ':')).reverse := by
        rw [← List.reverse_append, List.takeWhile_append_dropWhile, List.reverse_reverse]
      rcases hd : l.reverse.dropWhile (· != ':') with _ | ⟨c, rest⟩
      · rw [hd] at hl
        exact .inl hl
      · have hc : c = ':' := by simpa [hd] using List.head_dropWhile_not (· != ':') (l := l.reverse) (by simp [hd])
        subst hc
        rw [hd] at hl
        exact .inr ⟨rest.reverse, by simpa using hl⟩
  · rintro ⟨hk, h⟩
    have hall : ∀ c ∈ k.reverse, (c != ':') = true := by
      intro c hc
      rw [bne_iff_ne]
      rintro rfl
      exact hk (List.mem_reverse.mp hc)
    rcases h with rfl | ⟨before, rfl⟩
    · rw [List.takeWhile_eq_self_iff.mpr hall, List.reverse_reverse]
    · rw [List.reverse_append, List.reverse_cons, List.append_assoc, List.takeWhile_append_of_pos hall]
      simp

theorem nameOfArn_eq_iff {arn name : String} : nameOfArn arn = name ↔ EndsIn arn name := by
  unfold nameOfArn EndsIn
  rw [← String.toList_inj, String.toList_ofList, takeWhile_reverse_eq_iff]
  refine and_congr_right fun _ => or_congr String.toList_inj ⟨?_, ?_⟩
  · rintro ⟨before, h⟩
    exact ⟨String.ofList before, String.toList_inj.mp (by simpa using h)⟩
  · rintro ⟨before, rfl⟩
    exact ⟨before.toList, by simp⟩

variable (t : Topic)

def IsValid : Prop :=
  (t.settings.topicName = none → t.settings.topicArn ≠ none) ∧
  (∀ name, t.settings.topicArn = none → t.settings.topicName = some name → Names.isTopic name = true) ∧
  ∀ subject, t.settings.subject = some subject → Names.isSubject subject = true

def Matches (arn : String) : Prop :=
  t.settings.topicArn = some arn ∨
    t.settings.topicArn = none ∧ ∃ name, t.settings.topicName = some name ∧ EndsIn arn name

theorem isMatch_iff {arn : String} : t.isMatch arn = true ↔ t.Matches arn := by
  unfold isMatch Matches
  rcases t.settings.topicArn with _ | wanted
  · rcases t.settings.topicName with _ | name
    · simp
    · simp [nameOfArn_eq_iff]
  · simp only [beq_iff_eq, Option.some.injEq, reduceCtorEq, false_and, or_false]
    exact eq_comm

theorem problem?_eq_none (h : t.IsValid) : t.problem? = none := by
  obtain ⟨hone, hname, hsubject⟩ := h
  have hs : problem?.subjectProblem? t = none := by
    unfold problem?.subjectProblem?
    split
    · rename_i subject hs
      rw [if_pos (hsubject subject hs)]
    · rfl
  unfold problem?
  split
  · rename_i hn ha
    exact absurd ha (hone hn)
  · rename_i name hn ha
    rw [if_pos (hname name ha hn), hs]
  · exact hs

def MayCreate (name : String) : Prop :=
  t.settings.autoCreate = true ∧ t.settings.topicArn = none ∧ t.settings.topicName = some name

theorem nameToCreate?_eq_some_iff {name : String} : t.nameToCreate? = some name ↔ t.MayCreate name := by
  unfold nameToCreate? MayCreate
  split
  · simp_all
  · simp_all

def Lacks (page : Page) : Prop := ∀ arn ∈ page.arns, ¬ t.Matches arn

/-- `arn` is the first on the page that is the one. -/
def FirstOn (page : Page) (arn : String) : Prop :=
  ∃ before after, page.arns = before ++ arn :: after ∧ t.Matches arn ∧ ∀ a ∈ before, ¬ t.Matches a

theorem find?_eq_none_iff {page : Page} : page.arns.find? t.isMatch = none ↔ t.Lacks page := by
  simp [Lacks, List.find?_eq_none, ← t.isMatch_iff]

theorem find?_eq_some_iff {page : Page} {arn : String} :
    page.arns.find? t.isMatch = some arn ↔ t.FirstOn page arn := by
  rw [List.find?_eq_some_iff_append]
  constructor
  · rintro ⟨h, before, after, hl, hb⟩
    exact ⟨before, after, hl, t.isMatch_iff.mp h, fun a ha => by simpa [← t.isMatch_iff] using hb a ha⟩
  · rintro ⟨before, after, hl, h, hb⟩
    exact ⟨t.isMatch_iff.mpr h, before, after, hl, fun a ha => by simpa [← t.isMatch_iff] using hb a ha⟩

def search : List Page → List Page × Option String
  | [] => ([], none)
  | page :: rest =>
    match page.arns.find? t.isMatch with
    | some arn => ([page], some arn)
    | none => (page :: (search rest).1, (search rest).2)

theorem search_of_lacks {chain : List Page} (h : ∀ page ∈ chain, t.Lacks page) : t.search chain = (chain, none) := by
  induction chain with
  | nil => rfl
  | cons page rest ih =>
    have hpage := t.find?_eq_none_iff.mpr (h page List.mem_cons_self)
    rw [search, hpage, ih fun p hp => h p (List.mem_cons_of_mem _ hp)]

theorem search_of_firstOn {before after : List Page} {page : Page} {arn : String}
    (hbefore : ∀ p ∈ before, t.Lacks p) (h : t.FirstOn page arn) :
    t.search (before ++ page :: after) = (before ++ [page], some arn) := by
  induction before with
  | nil =>
    rw [List.nil_append, search, t.find?_eq_some_iff.mpr h]
    rfl
  | cons p rest ih =>
    have hp := t.find?_eq_none_iff.mpr (hbefore p List.mem_cons_self)
    rw [List.cons_append, search, hp, ih fun q hq => hbefore q (List.mem_cons_of_mem _ hq)]
    rfl

theorem lacks_or_firstOn (chain : List Page) : (∀ page ∈ chain, t.Lacks page) ∨
    ∃ before page after arn, chain = before ++ page :: after ∧ (∀ p ∈ before, t.Lacks p) ∧ t.FirstOn page arn := by
  induction chain with
  | nil => exact .inl nofun
  | cons page rest ih =>
    cases h : page.arns.find? t.isMatch with
    | some arn => exact .inr ⟨[], page, rest, arn, rfl, nofun, t.find?_eq_some_iff.mp h⟩
    | none =>
      have hlacks := t.find?_eq_none_iff.mp h
      rcases ih with ih | ⟨before, p, after, arn, rfl, hb, hf⟩
      · exact .inl (List.forall_mem_cons.mpr ⟨hlacks, ih⟩)
      · exact .inr ⟨page :: before, p, after, arn, rfl, List.forall_mem_cons.mpr ⟨hlacks, hb⟩, hf⟩

theorem search_eq_none_iff {chain : List Page} : (t.search chain).2 = none ↔ ∀ page ∈ chain, t.Lacks page := by
  refine ⟨fun h => ?_, fun h => by rw [t.search_of_lacks h]⟩
  rcases t.lacks_or_firstOn chain with hlacks | ⟨before, page, after, arn, rfl, hbefore, hfirst⟩
  · exact hlacks
  · rw [t.search_of_firstOn hbefore hfirst] at h
    cases h

/-! ## Listing -/

structure Gets {W : Type} (g : Ground api W) (token : Option String) (page : Page) (v w : W) : Prop where
  fits : t.setup.Fits (g.now w)
  reaches : t.setup.Reaches g (r := .listTopics token) Patience.unlessTransient (g.now w + t.setup.timeout)
    (.ok page) v t.setup.initialDelay w

/-- The service shows these pages, the first for `token` and each other for the token on the one before. After
the last one the clock can still show when time would be up for creating a topic. -/
inductive Serves {W : Type} (g : Ground api W) : Option String → List Page → W → Prop
  | last {token : Option String} {page : Page} {v w : W} (h : t.Gets g token page v w) (hnext : page.next = none)
      (hfits : ∀ e, t.setup.Fits (g.now (g.note e v))) : Serves g token [page] w
  | more {token : Option String} {page : Page} {next : String} {pages : List Page} {v w : W}
      (h : t.Gets g token page v w) (hnext : page.next = some next) (rest : Serves g (some next) pages v) :
      Serves g token (page :: pages) w

def Lists : Option String → List Page → List (Call api) → Prop
  | _, [], log => log = []
  | token, page :: pages, log => ∃ l rest, log = l ++ rest ∧
      Tries (A := api) (r := .listTopics token) Patience.unlessTransient [] (.ok page) l ∧ Lists page.next pages rest

variable {t} {W : Type} {g : Ground api W} {F : W → Prop} {v w : W} {token : Option String} {page : Page}
  {chain : List Page} {limit : Nat} {log : List (Call api)}

theorem asks_find : Plan.Asks Request.IsListing (t.find limit token).run := by
  induction limit generalizing token with
  | zero => exact Plan.asks_pure _
  | succ limit ih =>
    have hpage : Plan.Asks (A := api) Request.IsListing (do
        return Patience.unlessTransient (← ask (.listTopics token))) := Plan.asks_reply (A := api) trivial
    refine Plan.asks_attempt_bind (Plan.asks_require _ _ hpage) fun page => ?_
    split
    · exact Plan.asks_pure _
    · exact ih
    · exact Plan.asks_pure _

def goOn (t : Topic) (limit : Nat) (page : Page) : Attempt api (Option String) :=
  match page.arns.find? t.isMatch, page.next with
  | some arn, _ => return some arn
  | none, some next => t.find limit (some next)
  | none, none => return none

theorem run_find_succ (limit : Nat) (log : List (Call api)) (h : t.Gets g token page v w) :
    ∃ l, Tries (A := api) (r := .listTopics token) Patience.unlessTransient [] (.ok page) l ∧
      (t.find (limit + 1) token).run.run g.recorded (w, log) =
        (t.goOn limit page).run.run g.recorded (v, log ++ l) := by
  have hop : (do return Patience.unlessTransient (← ask (.listTopics token))) = (do
      return Patience.unlessTransient (← Plan.request (A := api) (.listTopics token))) := rfl
  obtain ⟨_, hl, tries, htries, rfl⟩ := Plan.run_require_of_reaches hop h.fits h.reaches "failed to list topics" log
  refine ⟨_, ⟨tries, htries, rfl⟩, ?_⟩
  rw [find, Plan.run_attempt_bind, hl]
  rfl

/-- The pages are looked through as a list of them would be. -/
theorem run_find (hF : g.Keeps F) (h : t.Serves g token chain w) (hw : F w) (hlimit : chain.length ≤ limit)
    (log : List (Call api)) :
    ∃ v l, (t.find limit token).run.run g.recorded (w, log) = (.ok (.ok (t.search chain).2), v, log ++ l) ∧
      F v ∧ Lists token (t.search chain).1 l ∧
      ((t.search chain).2 = none → ∀ e, t.setup.Fits (g.now (g.note e v))) := by
  induction h generalizing limit log with
  | @last token page v w h hnext hfits =>
    cases limit with
    | zero => simp at hlimit
    | succ limit =>
      obtain ⟨l, hl, hrun⟩ := run_find_succ limit log h
      refine ⟨v, l, ?_, h.reaches.keeps hF hw, ?_, fun _ => hfits⟩
      · rw [hrun, goOn, search]
        cases page.arns.find? t.isMatch <;> simp only [hnext] <;> rfl
      · rw [search]
        cases page.arns.find? t.isMatch <;> exact ⟨l, [], by simp, hl, rfl⟩
  | @more token page next pages v w h hnext rest ih =>
    cases limit with
    | zero => simp at hlimit
    | succ limit =>
      obtain ⟨l, hl, hrun⟩ := run_find_succ limit log h
      rw [hrun, goOn, search]
      cases page.arns.find? t.isMatch with
      | some arn => exact ⟨v, l, rfl, h.reaches.keeps hF hw, ⟨l, [], by simp, hl, rfl⟩, nofun⟩
      | none =>
        -- the search goes on with the token of this page, with one page less to come
        obtain ⟨u, l', hrun', hu, hl', hfits⟩ := ih (h.reaches.keeps hF hw) (Nat.le_of_succ_le_succ hlimit) (log ++ l)
        simp only [hnext]
        rw [List.append_assoc] at hrun'
        exact ⟨u, l ++ l', hrun', hu, ⟨l, l', rfl, hl, by rw [hnext]; exact hl'⟩, hfits⟩

/-! ## Making the topic known -/

def choose (t : Topic) : Option String → Attempt api String
  | some arn => pure arn
  | none => t.create

def lookingUp (t : Topic) : Entry := .debug ("looking up topic: " ++ t.name none)

def conclude (t : Topic) (found : Option String) : Attempt api Unit := do
  Attempt.memorize (some (← t.choose found))

theorem resolve_eq : t.resolve limit = Attempt.log t.lookingUp >>= fun _ => t.find limit none >>= t.conclude := by
  unfold resolve
  refine congrArg _ (funext fun _ => congrArg _ (funext fun found => ?_))
  cases found <;> rfl

theorem makeAvailable_of_unknown {V : Type} {G : Ground api V} {u : V} (limit : Nat) (hvalid : t.IsValid)
    (h : G.consult u = none) :
    (t.makeAvailable limit).run G u = (t.find limit none >>= t.conclude).run.run G (G.note t.lookingUp u) ∧
      (t.makeAvailable limit).calls G u = (t.find limit none >>= t.conclude).run.calls G (G.note t.lookingUp u) := by
  unfold makeAvailable
  rw [Plan.run_memory_bind, Plan.calls_memory_bind, h, t.problem?_eq_none hvalid, resolve_eq]
  exact ⟨rfl, rfl⟩

theorem makeAvailable_of_known {arn : String} (h : g.consult w = some arn) :
    (t.makeAvailable limit).run g w = (.ok (.ok ()), w) ∧ (t.makeAvailable limit).calls g w = [] := by
  unfold makeAvailable
  rw [Plan.run_memory_bind, Plan.calls_memory_bind, h]
  exact ⟨rfl, rfl⟩

def CreationEnds (name : String) (g : Ground api W) : Except Panic (Except Failure Unit) → W → List (Call api) → Prop
  | .ok (.ok ()), v, calls => ∃ arn, calls.getLast? = some ⟨.createTopic name, .ok arn⟩ ∧ g.consult v = some arn
  | _, v, _ => g.consult v = none

def Creations (name : String) (calls : List (Call api)) : Prop := ∀ c ∈ calls, c.request = .createTopic name

theorem creations_of_asksAgain {name : String} {tries : List (Call api)}
    (h : ∀ c ∈ tries, AsksAgain (A := api) (r := .createTopic name) (Patience.unlessTransient (α := String)) c) :
    Creations name tries := by
  intro c hc
  obtain ⟨x, rfl, -⟩ := h c hc
  rfl

theorem create_eq {name : String} (h : t.MayCreate name) : t.create =
    Attempt.log (.debug ("creating topic: " ++ name)) >>= fun _ => t.setup.require "failed to create topic" do
      return Patience.unlessTransient (← ask (.createTopic name)) := by
  unfold create
  rw [t.nameToCreate?_eq_some_iff.mpr h]

theorem create_of_not_mayCreate (h : ∀ name, ¬ t.MayCreate name) : t.create = throw t.missing := by
  unfold create
  cases hn : t.nameToCreate? with
  | none => rfl
  | some name => exact absurd (t.nameToCreate?_eq_some_iff.mp hn) (h name)

/-- A topic is created only when none was found, and if it may be. -/
theorem creates_iff {found : Option String}
    (hfits : found = none → ∀ e, t.setup.Fits (g.now (g.note e w))) :
    (∃ v name, (v, .createTopic name) ∈ (t.conclude found).run.calls g w) ↔
      found = none ∧ ∃ name, t.MayCreate name := by
  constructor
  · rintro ⟨v, name, hc⟩
    cases found with
    | some arn => cases hc
    | none =>
      refine ⟨rfl, Classical.not_forall_not.mp fun hno => ?_⟩
      rw [conclude, choose, create_of_not_mayCreate hno] at hc
      cases hc
  · rintro ⟨rfl, name, hname⟩
    rw [conclude, Plan.calls_attempt_bind, choose, create_eq hname]
    exact ⟨_, name, List.mem_append_left _ (Plan.mem_calls_require (A := api) (w := g.note _ w)
      (r := .createTopic name) (f := Patience.unlessTransient) rfl (hfits rfl _) _)⟩

theorem run_create {name : String} (hg : g.Retentive) (hname : t.MayCreate name) (hw : g.consult w = none)
    (log : List (Call api)) :
    ∃ result v calls, (t.conclude none).run.run g.recorded (w, log) =
      (result, v, log ++ calls) ∧ Creations name calls ∧ CreationEnds name g result v calls := by
  have hF := hg.keeps none
  have hcreate : Plan.Abides g (fun u => g.consult u = none)
      (fun l r => r = .createTopic name ∧ ∃ tries, Creations name tries ∧ l = log ++ tries) t.create.run
      (fun r l => ∃ x : Except Fault String,
        Tries (A := api) (r := .createTopic name) Patience.unlessTransient log x l ∧
        r = t.setup.settle "failed to create topic" (Patience.unlessTransient x)) log := by
    rw [create_eq hname]
    exact Plan.abides_log_bind hF (Plan.abides_require (r := .createTopic name) hF rfl fun tries htries =>
      ⟨rfl, tries, creations_of_asksAgain htries, rfl⟩)
  rw [conclude, Plan.run_attempt_bind]
  cases hr : (t.choose none).run.run g.recorded (w, log) with
  | mk result u =>
    obtain ⟨v, l⟩ := u
    rcases result with q | r
    -- a panic leaves the tries before it on record
    · obtain ⟨hv, -, -, tries, htries, rfl⟩ := (hcreate w hw).breaks q _ hr
      exact ⟨.error q, v, tries, rfl, htries, hv⟩
    · obtain ⟨hv, x, ⟨tries, htries, rfl⟩, rfl⟩ := (hcreate w hw).ends r _ hr
      have hcalls : Creations name (tries ++ [⟨.createTopic name, x⟩]) := by
        intro c hc
        rw [List.mem_append, List.mem_singleton] at hc
        rcases hc with hc | rfl
        · exact creations_of_asksAgain htries c hc
        · rfl
      cases hx : t.setup.settle "failed to create topic" (Patience.unlessTransient x) with
      | error e => exact ⟨.ok (.error e), v, _, rfl, hcalls, hv⟩
      | ok arn =>
        obtain rfl := Patience.unlessTransient_eq_ready_iff.mp (Patience.settle_eq_ok.mp hx)
        exact ⟨.ok (.ok ()), g.remember (some arn) v, _, rfl, hcalls, arn, by simp, hg.consult_remember _ _⟩

theorem consult_of_ok (hg : g.Retentive) (hvalid : t.IsValid)
    (h : (t.makeAvailable limit).run g w = (.ok (.ok ()), v)) : ∃ arn, g.consult v = some arn := by
  cases hw : g.consult w with
  | some arn =>
    rw [(makeAvailable_of_known hw).1] at h
    cases h
    exact ⟨arn, hw⟩
  | none =>
    -- whatever the ARN comes from, it is memorized last
    have hfind : t.find limit none >>= t.conclude =
        t.find limit none >>= t.choose >>= fun arn => Attempt.memorize (some arn) := (bind_assoc _ _ _).symm
    rw [(makeAvailable_of_unknown limit hvalid hw).1, hfind, Plan.run_attempt_bind] at h
    split at h
    · rename_i arn u _
      cases h
      exact ⟨arn, hg.consult_remember _ u⟩
    · cases h
    · cases h

/-! ## Publishing -/

def Publishes (t : Topic) (arn : String) (batch : List Message) (r : Request) : Prop :=
  ∃ m ∈ batch, r = .publish arn t.settings.subject m.text

section
variable {arn : String} {batch : List Message} (hF : g.Keeps F)
include hF

theorem leads_publish {m : Message} (hm : m ∈ batch) (hw : F w) :
    Plan.Leads g (fun _ r => t.Publishes arn batch r) F (t.publish arn m) (fun _ v => F v) w := by
  unfold publish
  have honce : ∀ v, F v →
      Plan.Leads g (fun _ r => t.Publishes arn batch r) F (t.publishOnce arn m) (fun _ u => F u) v := by
    intro v hv
    have hcall := hF.call (.publish arn t.settings.subject m.text) v hv
    refine Plan.leads_reply (A := api) (r := .publish arn t.settings.subject m.text) ⟨m, hm, rfl⟩ (fun x u hu => ?_)
      fun q u hu => ?_
    · rwa [hu] at hcall
    · rwa [hu] at hcall
  refine Plan.leads_bind (Plan.leads_invoke (fun _ => hw) honce (fun _ => id) (fun d v hv => hF.elapse d v hv) hw)
    fun r v hv => ?_
  split <;> exact Plan.leads_pure hv

theorem leads_publishFrom {rest : List Message} (hrest : ∀ m ∈ rest, m ∈ batch) {count sent : Nat} (hw : F w) :
    Plan.Leads g (fun _ r => t.Publishes arn batch r) F (t.publishFrom arn count sent rest) (fun _ v => F v) w := by
  induction rest generalizing sent w with
  | nil => exact Plan.leads_pure hw
  | cons m rest ih =>
    unfold publishFrom
    refine Plan.leads_bind (leads_publish hF (hrest m List.mem_cons_self) hw) fun r v hv => ?_
    split
    · exact ih (fun m' hm' => hrest m' (List.mem_cons_of_mem _ hm')) hv
    · split
      · exact Plan.leads_pure hv
      · refine Plan.leads_bind (Plan.leads_log (Q := fun _ => F) (hF.note _ v hv)) fun _ u hu => ?_
        exact Plan.leads_pure hu

end

theorem leads_send {arn : String} (batch : List Message) (hF : g.Keeps fun u => g.consult u = some arn)
    (hw : g.consult w = some arn) :
    Plan.Leads g (fun _ r => t.Publishes arn batch r) (fun u => g.consult u = some arn) (t.send batch)
      (fun _ u => g.consult u = some arn) w := by
  unfold send
  refine Plan.leads_bind (Plan.leads_memory (Q := fun m v => m = some arn ∧ g.consult v = some arn) ⟨hw, hw⟩) ?_
  rintro _ v ⟨rfl, hv⟩
  exact leads_publishFrom hF (fun _ => id) hv

/-- What comes after `w`: the topic is seen to and sent to, and whatever else goes on leaves the memory alone. -/
inductive Later (t : Topic) (g : Ground api W) (w : W) : W → Prop
  | here : Later t g w w
  | meanwhile {u v : W} (h : Later t g w u) (hsame : g.consult v = g.consult u) : Later t g w v
  | made {u v : W} {limit : Nat} {result : Except Panic (Except Failure Unit)} (h : Later t g w u)
      (hrun : (t.makeAvailable limit).run g u = (result, v)) : Later t g w v
  | sent {u v : W} {batch : List Message} {result : Except Panic (Except Failure (List Nat))} (h : Later t g w u)
      (hrun : (t.send batch).run g u = (result, v)) : Later t g w v

theorem Later.consult_eq {arn : String} (hg : g.Retentive) (hw : g.consult w = some arn) (h : t.Later g w v) :
    g.consult v = some arn := by
  induction h with
  | here => exact hw
  | meanwhile h hsame ih => exact hsame.trans ih
  | made h hrun ih =>
    rw [(makeAvailable_of_known ih).1] at hrun
    cases hrun
    exact ih
  | @sent u v batch result h hrun ih =>
    have hafter := (leads_send (t := t) batch (hg.keeps (some arn)) ih).after fun _ _ hu => hu
    rwa [hrun] at hafter

/-! ## The whole -/

/-- Once the pages have been looked through, what is left is to conclude from what was found. -/
theorem exists_listing (hg : g.Retentive) (hvalid : t.IsValid) (hunknown : g.consult w = none)
    (hserves : t.Serves g none chain (g.note t.lookingUp w)) (hlimit : chain.length ≤ limit) :
    ∃ v listing, g.consult v = none ∧ Lists none (t.search chain).1 listing ∧
      (t.makeAvailable limit).run g.recorded (w, []) =
        (t.conclude (t.search chain).2).run.run g.recorded (v, listing) ∧
      ∃ before, (t.makeAvailable limit).calls g.recorded (w, []) =
          before ++ (t.conclude (t.search chain).2).run.calls g.recorded (v, listing) ∧
        (∀ c ∈ before, c.2.IsListing) ∧
        ((t.search chain).2 = none → ∀ e, t.setup.Fits (g.now (g.note e v))) := by
  have hF := hg.keeps none
  obtain ⟨v, l, hfind, hv, hl, hfits⟩ := run_find hF hserves (hF.note _ w hunknown) hlimit []
  obtain ⟨hrun, hcalls⟩ := makeAvailable_of_unknown (G := g.recorded) (u := (w, [])) limit hvalid
    hunknown
  have hnote : g.recorded.note t.lookingUp (w, []) = (g.note t.lookingUp w, []) := rfl
  rw [hnote, Plan.run_attempt_bind, hfind] at hrun
  rw [hnote, Plan.calls_attempt_bind, hfind] at hcalls
  exact ⟨v, l, hv, hl, hrun, _, hcalls, fun c hc => asks_find.of_calls c hc, hfits⟩

/-- A topic with valid settings that is not known yet is looked for on the pages that the service lists, however
many there are (with `limit` as large), and whatever faults pass meanwhile. The pages are asked for one after the
other, each by the token on the one before, up to the first that has the topic, and the first topic on it that
matches is taken. Only when no page has the topic is it created, and only if it may be; without that the attempt
fails and the topic stays unknown. Once one is taken or created, nothing is asked for to make it available again, and
all that is published goes there. -/
theorem looked_up_on_every_page (hg : g.Retentive) (hvalid : t.IsValid) (hunknown : g.consult w = none)
    (hserves : t.Serves g none chain (g.note t.lookingUp w)) (hlimit : chain.length ≤ limit) :
    (∀ before page after arn, chain = before ++ page :: after → (∀ p ∈ before, t.Lacks p) → t.FirstOn page arn →
      ∃ v log, (t.makeAvailable limit).run g.recorded (w, []) = (.ok (.ok ()), v, log) ∧ g.consult v = some arn ∧
        Lists none (before ++ [page]) log) ∧
    ((∀ page ∈ chain, t.Lacks page) → ∃ result v listing creating,
      (t.makeAvailable limit).run g.recorded (w, []) = (result, v, listing ++ creating) ∧ Lists none chain listing ∧
      ((∀ name, ¬ t.MayCreate name) → result = .ok (.error t.missing) ∧ creating = [] ∧ g.consult v = none) ∧
      ∀ name, t.MayCreate name → Creations name creating ∧ CreationEnds name g result v creating) ∧
    ((∃ v name, (v, .createTopic name) ∈ (t.makeAvailable limit).calls g.recorded (w, [])) ↔
      (∀ page ∈ chain, t.Lacks page) ∧ ∃ name, t.MayCreate name) ∧
    ∀ v log, (t.makeAvailable limit).run g.recorded (w, []) = (.ok (.ok ()), v, log) → ∃ arn, g.consult v = some arn ∧
      ∀ u, t.Later g v u →
        (∀ limit, (t.makeAvailable limit).run g u = (.ok (.ok ()), u) ∧ (t.makeAvailable limit).calls g u = []) ∧
        ∀ batch, ∀ c ∈ (t.send batch).calls g u, t.Publishes arn batch c.2 := by
  obtain ⟨v, l, hv, hl, hrun, before, hcalls, hlistings, hfits⟩ := exists_listing hg hvalid hunknown hserves hlimit
  refine ⟨?_, ?_, ?_, ?_⟩
  · rintro before page after arn rfl hbefore hfirst
    rw [t.search_of_firstOn hbefore hfirst] at hrun hl
    refine ⟨g.remember (some arn) v, l, hrun, hg.consult_remember _ v, hl⟩
  · intro hlacks
    rw [t.search_of_lacks hlacks] at hrun hl
    by_cases hmay : ∃ name, t.MayCreate name
    · obtain ⟨name, hname⟩ := hmay
      obtain ⟨result, u, creating, hcreate, hcalls, hends⟩ := run_create hg hname hv l
      refine ⟨result, u, l, creating, hrun.trans hcreate, hl, fun hno => absurd hname (hno name), ?_⟩
      rintro name' hname'
      cases hname.2.2.symm.trans hname'.2.2
      exact ⟨hcalls, hends⟩
    · rw [not_exists] at hmay
      refine ⟨.ok (.error t.missing), v, l, [], ?_, hl, fun _ => ⟨rfl, rfl, hv⟩, fun name hname => ?_⟩
      · rw [hrun, conclude, choose, create_of_not_mayCreate hmay, List.append_nil]
        rfl
      · exact absurd hname (hmay name)
  · rw [← t.search_eq_none_iff, ← creates_iff (g := g.recorded) (w := (v, l)) hfits, hcalls]
    refine ⟨fun ⟨u, name, hc⟩ => ⟨u, name, ?_⟩, fun ⟨u, name, hc⟩ => ⟨u, name, List.mem_append_right _ hc⟩⟩
    refine (List.mem_append.mp hc).resolve_left fun hbefore => ?_
    cases hlistings _ hbefore
  · intro v' log hok
    obtain ⟨arn, harn⟩ := consult_of_ok hg hvalid (Plan.run_of_recorded hok)
    refine ⟨arn, harn, fun u hu => ?_⟩
    have hu' := hu.consult_eq hg harn
    refine ⟨fun limit => makeAvailable_of_known hu', fun batch c hc => ?_⟩
    exact (leads_send batch (hg.keeps _) hu').asks c hc

def busy : Ground api (Nat × Option String) := .ticking answer
where
  answer : (r : Request) → Nat → r.Reply
    | .listTopics none, _ => .ok { arns := ["eu:alarms"], next := some "1" }
    | .listTopics (some "1"), n =>
      if n < 6 then .error { kind := .throttled, message := "slow down" } else .ok { next := some "2" }
    | .listTopics (some "2"), _ => .ok { arns := ["eu:alerts:old", "eu:alerts", "us:alerts"], next := some "3" }
    | .listTopics _, _ => .ok { arns := ["us:alerts"] }
    | .createTopic name, _ => .ok name
    | .publish _ _ _, _ => .ok ()
    | .close, _ => ()

def alerts : Topic where
  settings := { topicName := some "alerts", autoCreate := true }
  setup := { initialDelay := 2, timeout := 50, exponential := true }
  sending := { initialDelay := 2, timeout := 50, exponential := true }

def fourPages : List Page :=
  [{ arns := ["eu:alarms"], next := some "1" }, { next := some "2" },
    { arns := ["eu:alerts:old", "eu:alerts", "us:alerts"], next := some "3" }, { arns := ["us:alerts"] }]

theorem looked_up_on_every_page_busy : busy.Retentive ∧ alerts.IsValid ∧ alerts.Serves busy none fourPages (0, none) ∧
    ∃ v log, (alerts.makeAvailable 4).run busy.recorded ((0, none), []) = (.ok (.ok ()), v, log) ∧
      busy.consult v = some "eu:alerts" ∧ Lists none (fourPages.take 3) log := by
  have hg : busy.Retentive := Ground.ticking_retentive _
  have hvalid : alerts.IsValid := by
    refine ⟨nofun, ?_, nofun⟩
    rintro _ - ⟨⟩
    decide
  -- the second page is asked for at 1, at 4 and at 9
  have hsecond : alerts.Gets busy (some "1") { next := some "2" } (10, none) (1, none) :=
    ⟨by decide, .later rfl rfl (by decide) (by decide) (by decide)
      (.later rfl rfl (by decide) (by decide) (by decide) (.now rfl nofun))⟩
  have hserves : alerts.Serves busy none fourPages (0, none) :=
    .more ⟨by decide, .now rfl nofun⟩ rfl (.more hsecond rfl (.more ⟨by decide, .now rfl nofun⟩ rfl
      (.last (v := (12, none)) ⟨by decide, .now rfl nofun⟩ rfl fun _ => (by decide : alerts.setup.Fits 12))))
  refine ⟨hg, hvalid, hserves, ?_⟩
  have hlimit : fourPages.length ≤ 4 := by decide
  obtain ⟨hfound, -⟩ := looked_up_on_every_page hg hvalid (w := (0, none)) rfl hserves hlimit
  refine hfound (fourPages.take 2) _ [{ arns := ["us:alerts"] }] _ rfl ?_ ?_
  · intro page hpage
    rw [← find?_eq_none_iff]
    revert page
    decide
  · rw [← find?_eq_some_iff]
    decide

end Topic

end Sns

end LogRelay
