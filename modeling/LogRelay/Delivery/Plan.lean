import LogRelay.Journal
import LogRelay.Time.Instant

/-!
# Plans

What a destination does, as a tree of requests to a service with a branch for every reply. A plan
may also sleep, read the clock, draw random words, write to the journal, keep one text in mind from
one plan to the next, and be broken off by a panic of its own. The tree says nothing about what the
service does or how time passes: a `Ground` decides that when the plan is run on it.
-/

namespace LogRelay

/-- The requests of a service, each with its type of reply. -/
structure Api where
  Request : Type
  Reply : Request → Type

inductive Plan (A : Api) (α : Type) where
  | done (a : α)
  | call (r : A.Request) (next : A.Reply r → Plan A α)
  | sleep (d : Duration) (next : Plan A α)
  | clock (next : Instant → Plan A α)
  | draw (next : UInt32 → Plan A α)
  | note (e : Entry) (next : Plan A α)
  | consult (next : Option String → Plan A α)
  | remember (m : Option String) (next : Plan A α)
  | raise (p : Panic)

namespace Plan

variable {A B : Api} {α β : Type}

def bind : Plan A α → (α → Plan A β) → Plan A β
  | done a, f => f a
  | call r next, f => call r fun x => (next x).bind f
  | sleep d next, f => sleep d (next.bind f)
  | clock next, f => clock fun t => (next t).bind f
  | draw next, f => draw fun w => (next w).bind f
  | note e next, f => note e (next.bind f)
  | consult next, f => consult fun m => (next m).bind f
  | remember m next, f => remember m (next.bind f)
  | raise p, _ => raise p

instance : Monad (Plan A) where
  pure := done
  bind := bind

def request (r : A.Request) : Plan A (A.Reply r) := call r done

def now : Plan A Instant := clock done

def pause (d : Duration) : Plan A Unit := sleep d (done ())

def randomWord : Plan A UInt32 := draw done

def log (e : Entry) : Plan A Unit := note e (done ())

def memory : Plan A (Option String) := consult done

def memorize (m : Option String) : Plan A Unit := remember m (done ())

/-- The same plan against an API that contains this one. -/
def within (emb : A.Request → B.Request) (back : ∀ r, B.Reply (emb r) → A.Reply r) :
    Plan A α → Plan B α
  | done a => done a
  | call r next => call (emb r) fun x => (next (back r x)).within emb back
  | sleep d next => sleep d (next.within emb back)
  | clock next => clock fun t => (next t).within emb back
  | draw next => draw fun w => (next w).within emb back
  | note e next => note e (next.within emb back)
  | consult next => consult fun m => (next m).within emb back
  | remember m next => remember m (next.within emb back)
  | raise p => raise p

end Plan

/-- A plan that may end in a failure. -/
abbrev Attempt (A : Api) := ExceptT Failure (Plan A)

namespace Attempt

variable {A : Api}

def log (e : Entry) : Attempt A Unit := ExceptT.lift (Plan.log e)

def memorize (m : Option String) : Attempt A Unit := ExceptT.lift (Plan.memorize m)

end Attempt

/-- What plans run on: a state with a clock, a journal, a memory and a service. Time passes, and
with it whatever else goes on, only while a plan sleeps or a reply is awaited. -/
structure Ground (A : Api) (W : Type) where
  now : W → Instant
  elapse : Duration → W → W
  note : Entry → W → W
  consult : W → Option String
  remember : Option String → W → W
  draw : W → UInt32 × W
  call : (r : A.Request) → W → Except Panic (A.Reply r) × W

/-- Runs a plan. A panic, its own or one of the service, breaks it off; what was done before stays
done. -/
def Plan.run {A : Api} {W α : Type} (g : Ground A W) : Plan A α → W → Except Panic α × W
  | done a, w => (.ok a, w)
  | call r next, w =>
    match g.call r w with
    | (.ok x, w) => (next x).run g w
    | (.error p, w) => (.error p, w)
  | sleep d next, w => next.run g (g.elapse d w)
  | clock next, w => (next (g.now w)).run g w
  | draw next, w => let (x, w) := g.draw w; (next x).run g w
  | note e next, w => next.run g (g.note e w)
  | consult next, w => (next (g.consult w)).run g w
  | remember m next, w => next.run g (g.remember m w)
  | raise p, w => (.error p, w)

end LogRelay
