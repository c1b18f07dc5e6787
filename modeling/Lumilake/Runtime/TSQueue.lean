import Lumilake.Library.Runs

-- The queue between threads. Every step of a call is one operation on the underlying
-- queue, on the closed flag or on the set of waiters; calls of any number of threads
-- take their steps in any order.
namespace Lumilake.TSQueue

-- An item is kept with the number of the call that put it.
abbrev Item (α : Type u) := Nat × α

inductive Entry (α : Type u) where
  | item (item : Item α)
  | close_signal
  deriving DecidableEq

-- `get_nowait`, `get` and `get_all`; the last two may poll with a delay.
inductive Want where
  | nowait
  | get (delay : Bool)
  | get_all (delay : Bool)
  deriving DecidableEq

-- How the block that holds a waiter is left.
inductive After (α : Type u) where
  | again
  | found (item : Item α)
  | raise
  deriving DecidableEq

-- Where a call is, with what it holds.
inductive Call (α : Type u) where
  | look (want : Want)
  | empty_seen (want : Want)
  | sleeping (want : Want)
  | make_waiter (want : Want)
  | relook (want : Want) (waiter : Nat)
  | empty_again (want : Want) (waiter : Nat)
  | waiting (want : Want) (waiter : Nat)
  | unwrap (want : Want) (waiter : Option Nat)
  | leave (want : Want) (waiter : Nat) (after : After α)
  | more (items : List (Item α))
  | take (items : List (Item α))
  | unwrap_all (items : List (Item α))
  | returned (items : List (Item α))
  | raised (items : List (Item α))
  | put_check (obj : α)
  | put_place (obj : α)
  | put_refused
  | close_check
  | close_flag
  | close_place
  | wake (put : Option α)
  | notify (put : Option α) (waiters : List Nat)
  | finished (put : Option α)
  deriving DecidableEq

-- `placed` and `taken` record what went through the underlying queue.
structure Shared (α : Type u) where
  entries : List (Entry α) := []
  closed : Bool := false
  waiters : List Nat := []
  next_waiter : Nat := 0
  scheduled : List Nat := []
  woken : List Nat := []
  placed : List (Item α) := []
  taken : List (Item α) := []

structure System (α : Type u) where
  queue : Shared α := {}
  calls : List (Call α) := []

def Want.polls : Want → Bool
  | .nowait => false
  | .get delay => delay
  | .get_all delay => delay

def items {α : Type u} (entries : List (Entry α)) : List (Item α) := entries.filterMap fun entry =>
  match entry with
  | .item item => some item
  | .close_signal => none

section
variable {α : Type u}

def Shared.took (q : Shared α) (item : Item α) (rest : List (Entry α)) : Shared α :=
  { q with entries := rest, taken := q.taken ++ [item] }

def got (want : Want) (item : Item α) : Call α :=
  match want with
  | .get_all _ => .more [item]
  | _ => .returned [item]

def looked_empty (want : Want) : Call α :=
  match want with
  | .nowait => .raised []
  | want => .empty_seen want

-- The next step of a call; none for a call that is over or waits for its waiter. The
-- underlying queue has no bound, so a put never finds it full.
def advance (id : Nat) (q : Shared α) : Call α → Option (Shared α × Call α)
  | .look want =>
    match q.entries with
    | [] => some (q,looked_empty want)
    | .item item :: rest => some (q.took item rest,got want item)
    | .close_signal :: rest => some ({ q with entries := rest },.unwrap want none)
  | .empty_seen want => some (q,if q.closed then .raised [] else if want.polls then .sleeping want else .make_waiter want)
  | .sleeping want => some (q,.look want)
  | .make_waiter want =>
    some ({ q with waiters := q.next_waiter :: q.waiters, next_waiter := q.next_waiter + 1 },.relook want q.next_waiter)
  | .relook want w =>
    match q.entries with
    | [] => some (q,.empty_again want w)
    | .item item :: rest => some (q.took item rest,.leave want w (.found item))
    | .close_signal :: rest => some ({ q with entries := rest },.unwrap want (some w))
  | .empty_again want w => some (q,if q.closed then .leave want w .raise else .waiting want w)
  | .waiting want w => if w ∈ q.woken then some (q,.leave want w .again) else none
  | .unwrap want waiter => some ({ q with closed := true },
      match waiter with
      | some w => .leave want w .raise
      | none => .raised [])
  | .leave want w after => some ({ q with waiters := q.waiters.filter fun x => decide (x ≠ w) },
      match after with
      | .again => .look want
      | .found item => got want item
      | .raise => .raised [])
  | .more items => some (q,if q.entries = [] then .returned items else .take items)
  | .take items =>
    match q.entries with
    | [] => some (q,.raised items)
    | .item item :: rest => some (q.took item rest,.more (items ++ [item]))
    | .close_signal :: rest => some ({ q with entries := rest },.unwrap_all items)
  | .unwrap_all items => some ({ q with closed := true },.returned items)
  | .put_check obj => some (q,if q.closed then .put_refused else .put_place obj)
  | .put_place obj =>
    some ({ q with entries := q.entries ++ [.item (id,obj)], placed := q.placed ++ [(id,obj)] },.wake (some obj))
  | .close_check => some (q,if q.closed then .finished none else .close_flag)
  | .close_flag => some ({ q with closed := true },.close_place)
  | .close_place => some ({ q with entries := q.entries ++ [.close_signal] },.wake none)
  | .wake put => some ({ q with waiters := [] },.notify put q.waiters)
  | .notify put [] => some (q,.finished put)
  -- A loop that refuses the wake-up is closed and has no call to resume.
  | .notify put (w :: ws) => some ({ q with scheduled := w :: q.scheduled },.notify put ws)
  | .returned _ => none
  | .raised _ => none
  | .put_refused => none
  | .finished _ => none

inductive Start (α : Type u) where
  | get (want : Want)
  | put (obj : α)
  | close

def Start.call : Start α → Call α
  | .get want => .look want
  | .put obj => .put_check obj
  | .close => .close_check

-- A call begins, takes its next step or is cancelled where it waits, or a scheduled
-- wake-up runs.
inductive Event (α : Type u) where
  | call (start : Start α)
  | turn (id : Nat)
  | cancel (id : Nat)
  | fire (waiter : Nat)

def cancelled : Call α → Option (Call α)
  | .waiting want w => some (.leave want w .raise)
  | .sleeping _ => some (.raised [])
  | _ => none

def step (s : System α) : Event α → Option (System α)
  | .call start => some { s with calls := s.calls ++ [start.call] }
  | .turn id =>
    match s.calls[id]? with
    | some c => (advance id s.queue c).map fun after => ⟨after.1,s.calls.set id after.2⟩
    | none => none
  | .cancel id =>
    match s.calls[id]? with
    | some c => (cancelled c).map fun after => { s with calls := s.calls.set id after }
    | none => none
  | .fire w =>
    if w ∈ s.queue.scheduled then
      some { s with queue := { s.queue with scheduled := s.queue.scheduled.erase w, woken := w :: s.queue.woken } }
    else none

def run (events : List (Event α)) : Option (System α) := events.foldlM step {}

-- What a call holds that it took from the queue.
def Call.items : Call α → List (Item α)
  | .leave _ _ (.found item) => [item]
  | .more items => items
  | .take items => items
  | .unwrap_all items => items
  | .returned items => items
  | .raised items => items
  | _ => []

-- The waiter a call has in use.
def Call.waiter : Call α → Option Nat
  | .relook _ w => some w
  | .empty_again _ w => some w
  | .waiting _ w => some w
  | .unwrap _ waiter => waiter
  | .leave _ w _ => some w
  | _ => none

-- A put or close that has changed the queue and has wake-ups yet to schedule.
def Call.waking : Call α → Bool
  | .close_place => true
  | .wake _ => true
  | .notify _ _ => true
  | _ => false

-- No call is about to schedule a wake-up and none that was scheduled is left to run.
def at_rest (s : System α) : Prop := s.queue.scheduled = [] ∧ ∀ c ∈ s.calls, c.waking = false

structure Delivers (s : System α) : Prop where
  -- The item of a put that returned is in the queue or with one call, and once.
  once : ∀ id obj, s.calls[id]? = some (.finished (some obj)) →
    (id,obj) ∈ items s.queue.entries ++ s.calls.flatMap Call.items ∧
      ((items s.queue.entries ++ s.calls.flatMap Call.items).map Prod.fst).count id = 1
  -- A call that holds items returns them or has a next step.
  moving : ∀ id c, s.calls[id]? = some c → c.items ≠ [] → (∃ items, c = .returned items) ∨ (advance id s.queue c).isSome
  ordered : s.queue.placed = s.queue.taken ++ items s.queue.entries
  kept : ∀ items, .raised items ∈ s.calls → items = []
  awake : at_rest s → s.queue.entries ≠ [] ∨ s.queue.closed = true → ∀ want w, .waiting want w ∈ s.calls → w ∈ s.queue.woken

-- `get_all` takes the next item only while the queue has one, whatever others took since it looked.
def Fits (s : System α) (event : Event α) : Prop :=
  ∀ id items, event = .turn id → s.calls[id]? = some (.take items) → s.queue.entries ≠ []

end
end Lumilake.TSQueue
