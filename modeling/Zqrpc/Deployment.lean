import Zqrpc.StopOrders
import Zqrpc.NetworkRules
import Zqrpc.ChannelWire

/-! A server as it is built, with its frontend, its proxy and a queue in front of each worker,
and the channels of its clients. What the channels send arrives at the frontend; a
stop order goes the same way. -/
namespace Zqrpc

open Numeral Steps

/-- Messages with the place they have come to. -/
abbrev Placed := Option Nat × FramesT

structure Deployment where
  channels : Nat → Option ChannelEnd := fun _ => none
  pool : Pool
  /-- the replies that left the workers, some of them routed to a channel -/
  toClients : List Placed := []

inductive DeploymentInput (Msg : Type) where
  | opened (k : Nat) (identity : Bytes)
  | closed (k : Nat)
  | send (k : Nat) (c : Ptr) (fullName : Bytes) (request : Serialized)
      (outcome : Nat → SendOutcome)
  | recv (k : Nat) (c : Ptr) (timeout start : Int)
  | tick (k : Nat) (now : Int) (poll : PollResult) (taking : Taking)
  | pool (input : PoolInput Msg)
  | route (i k : Nat)
  | loseReply (i : Nat)

namespace Deployment

variable {Msg : Type} (pb : Protobuf Msg) (map : RpcMethodMapT)

/-- A server whose `Start` has made `n` threads, and no client yet. -/
def start (n : Nat) : Deployment := { pool := .start n }

def setChannel (d : Deployment) (k : Nat) (e : ChannelEnd) : Deployment :=
  { d with channels := Function.update d.channels k (some e) }

def live (d : Deployment) (k : Nat) : Option ChannelEnd := (d.channels k).filter (·.isOpen)

/-- What a channel can receive. -/
def incoming (d : Deployment) (k : Nat) : Taking → Option RecvResult
  | .empty => some .empty
  | .threw => some .threw
  | .packet i =>
    match d.toClients[i]? with
    | none => none
    | some (place, frames) => if place = some k then some (.message frames) else none

/-- A message that was read is gone. -/
def afterTick (d : Deployment) (taking : Taking) (events : List Event) : Deployment :=
  if events.any Event.isConsumed then
    match taking with
    | .packet i => { d with toClients := d.toClients.eraseIdx i }
    | _ => d
  else d

/-- The ROUTER frontend takes messages in, with the identity of their sender. -/
def arrive (identity : Bytes) (messages : List FramesT) (p : Pool) : Pool :=
  { p with frontend := p.frontend ++ messages.map fun frames => ⟨false, identity :: frames⟩ }

def step (d : Deployment) :
    DeploymentInput Msg → Option (Deployment × List (WorkerEvent Msg))
  | .opened k identity =>
    match d.channels k with
    | some _ => none
    | none => some (d.setChannel k { identity }, [])
  | .closed k =>
    match d.live k with
    | none => none
    | some e =>
      if e.session.call.isSome then none
      else some ({ d.setChannel k { e with isOpen := false } with
        toClients := d.toClients.filter fun m => m.1 ≠ some k }, [])
  | .send k c fullName request outcome =>
    match d.live k with
    | none => none
    | some e =>
      match e.session.step (.send c fullName request outcome) with
      | none => none
      | some (session, events) =>
        some ({ d.setChannel k { e with session } with
          pool := arrive e.identity (wires events) d.pool }, [])
  | .recv k c timeout start =>
    match d.live k with
    | none => none
    | some e =>
      match e.session.step (.recv c timeout start) with
      | none => none
      | some (session, _) => some (d.setChannel k { e with session }, [])
  | .tick k now poll taking =>
    match d.live k, d.incoming k taking with
    | some e, some recv =>
      match e.session.step (.tick ⟨now, poll, recv⟩) with
      | none => none
      | some (session, events) =>
        some ((d.setChannel k { e with session }).afterTick taking events, [])
    | _, _ => none
  -- every client is one of the channels
  | .pool (.arrive _ _) => none
  | .pool input =>
    (d.pool.step pb map input).map fun result =>
      ({ d with pool := result.1
                toClients := d.toClients ++ (messages result.2).map (none, ·) }, result.2)
  | .route i k =>
    match d.toClients[i]?, d.live k with
    | some (none, first :: frames), some e =>
      if e.identity = first then
        some ({ d with toClients := d.toClients.set i (some k, frames) }, [])
      else none
    | _, _ => none
  | .loseReply i => some ({ d with toClients := d.toClients.eraseIdx i }, [])

section Rules

variable {pb map} {d next : Deployment} {events : List (WorkerEvent Msg)} {k : Nat}

theorem live_some {e : ChannelEnd} (live : d.live k = some e) :
    d.channels k = some e ∧ e.isOpen = true :=
  Option.filter_eq_some_iff.mp live

@[simp] theorem setChannel_self (d : Deployment) (k : Nat) (e : ChannelEnd) :
    (d.setChannel k e).channels k = some e := Function.update_self ..

theorem setChannel_ne (d : Deployment) (e : ChannelEnd) {k' : Nat} (other : k' ≠ k) :
    (d.setChannel k e).channels k' = d.channels k' := Function.update_of_ne other ..

theorem step_opened {identity : Bytes}
    (fired : d.step pb map (.opened k identity) = some (next, events)) :
    d.channels k = none ∧ next = d.setChannel k { identity } ∧ events = [] := by
  simp only [step] at fired
  split at fired
  · cases fired
  · rename_i fresh
    obtain ⟨rfl, rfl⟩ := Prod.mk.inj (Option.some.inj fired)
    exact ⟨fresh, rfl, rfl⟩

theorem step_closed (fired : d.step pb map (.closed k) = some (next, events)) :
    ∃ e, d.live k = some e ∧ e.session.call.isSome = false ∧
      next = { d.setChannel k { e with isOpen := false } with
        toClients := d.toClients.filter fun m => m.1 ≠ some k } ∧ events = [] := by
  simp only [step] at fired
  split at fired
  · cases fired
  · rename_i e live
    split at fired
    · cases fired
    · rename_i free
      obtain ⟨rfl, rfl⟩ := Prod.mk.inj (Option.some.inj fired)
      exact ⟨e, live, Bool.eq_false_of_not_eq_true free, rfl, rfl⟩

theorem step_send {c : Ptr} {fullName : Bytes} {request : Serialized} {outcome : Nat → SendOutcome}
    (fired : d.step pb map (.send k c fullName request outcome) = some (next, events)) :
    ∃ e session emitted, d.live k = some e ∧
      e.session.step (.send c fullName request outcome) = some (session, emitted) ∧
      next = { d.setChannel k { e with session } with
        pool := arrive e.identity (wires emitted) d.pool } ∧ events = [] := by
  simp only [step] at fired
  split at fired
  · cases fired
  · rename_i e live
    split at fired
    · cases fired
    · rename_i session emitted stepped
      obtain ⟨rfl, rfl⟩ := Prod.mk.inj (Option.some.inj fired)
      exact ⟨e, session, emitted, live, stepped, rfl, rfl⟩

theorem step_recv {c : Ptr} {timeout start : Int}
    (fired : d.step pb map (.recv k c timeout start) = some (next, events)) :
    ∃ e session emitted, d.live k = some e ∧
      e.session.step (.recv c timeout start) = some (session, emitted) ∧
      next = d.setChannel k { e with session } ∧ events = [] := by
  simp only [step] at fired
  split at fired
  · cases fired
  · rename_i e live
    split at fired
    · cases fired
    · rename_i session emitted stepped
      obtain ⟨rfl, rfl⟩ := Prod.mk.inj (Option.some.inj fired)
      exact ⟨e, session, emitted, live, stepped, rfl, rfl⟩

theorem step_tick {now : Int} {poll : PollResult} {taking : Taking}
    (fired : d.step pb map (.tick k now poll taking) = some (next, events)) :
    ∃ e recv session emitted, d.live k = some e ∧ d.incoming k taking = some recv ∧
      e.session.step (.tick ⟨now, poll, recv⟩) = some (session, emitted) ∧
      next = (d.setChannel k { e with session }).afterTick taking emitted ∧ events = [] := by
  simp only [step] at fired
  split at fired
  · rename_i e recv live incoming
    split at fired
    · cases fired
    · rename_i session emitted stepped
      obtain ⟨rfl, rfl⟩ := Prod.mk.inj (Option.some.inj fired)
      exact ⟨e, recv, session, emitted, live, incoming, stepped, rfl, rfl⟩
  · cases fired

theorem step_pool {input : PoolInput Msg}
    (fired : d.step pb map (.pool input) = some (next, events)) :
    ∃ p, (∀ identity frames, input ≠ .arrive identity frames) ∧
      d.pool.step pb map input = some (p, events) ∧
      next = { d with pool := p
                      toClients := d.toClients ++ (messages events).map (none, ·) } := by
  have other : ∀ identity frames, input ≠ .arrive identity frames := by
    rintro identity frames rfl
    cases fired
  have mapped : (d.pool.step pb map input).map (fun result =>
      (({ d with pool := result.1
                 toClients := d.toClients ++ (messages result.2).map (none, ·) } : Deployment),
        result.2)) = some (next, events) := by
    rw [← fired]
    cases input <;> first | rfl | exact absurd rfl (other _ _)
  obtain ⟨⟨p, emitted⟩, stepped, same⟩ := Option.map_eq_some_iff.mp mapped
  obtain ⟨rfl, rfl⟩ := Prod.mk.inj same
  exact ⟨p, other, stepped, rfl⟩

theorem step_route {i : Nat} (fired : d.step pb map (.route i k) = some (next, events)) :
    ∃ frames e, d.toClients[i]? = some (none, e.identity :: frames) ∧ d.live k = some e ∧
      next = { d with toClients := d.toClients.set i (some k, frames) } ∧ events = [] := by
  simp only [step] at fired
  split at fired
  · rename_i first frames e there live
    split at fired
    · rename_i named
      obtain ⟨rfl, rfl⟩ := Prod.mk.inj (Option.some.inj fired)
      exact ⟨frames, e, named ▸ there, live, rfl, rfl⟩
    · cases fired
  · cases fired

end Rules

/-- The clients' messages of a list, at a place. -/
def requests (place : Option Nat) (ms : List Inbound) : Multiset Placed :=
  ((ms.filter fun m => !m.stopOrder).map fun m => (place, m.frames) : List Placed)

/-- The clients' messages in the queues of all workers but one. -/
def others (p : Pool) (j : Nat) : Multiset Placed :=
  ∑ i ∈ (Finset.range p.started).erase j, requests (some i) (p.workers i).queue

/-- The clients' messages that no worker has received yet. -/
def waiting (p : Pool) : Multiset Placed :=
  requests none p.frontend + ∑ i ∈ Finset.range p.started, requests (some i) (p.workers i).queue

section Waiting

variable {p : Pool} {place : Option Nat}

@[simp] theorem requests_nil : requests place [] = 0 := rfl

theorem requests_append (front back : List Inbound) :
    requests place (front ++ back) = requests place front + requests place back := by
  simp [requests]

theorem requests_cons (m : Inbound) (ms : List Inbound) :
    requests place (m :: ms) = requests place [m] + requests place ms :=
  requests_append [m] ms

theorem requests_order {m : Inbound} (order : m.stopOrder = true) : requests place [m] = 0 := by
  simp [requests, order]

theorem requests_client {m : Inbound} (client : m.stopOrder = false) :
    requests place [m] = {(place, m.frames)} := by
  simp [requests, client]

theorem requests_eraseIdx {ms : List Inbound} {i : Nat} {m : Inbound} (found : ms[i]? = some m) :
    requests place ms = requests place [m] + requests place (ms.eraseIdx i) := by
  obtain ⟨bound, rfl⟩ := List.getElem?_eq_some_iff.mp found
  have same := (((List.getElem_cons_eraseIdx_perm bound).symm.filter fun m => !m.stopOrder).map
    fun m => (place, m.frames))
  rw [← requests_cons]
  exact Multiset.coe_eq_coe.mpr same

theorem waiting_split {j : Nat} (inside : j < p.started) :
    waiting p = requests none p.frontend +
      (requests (some j) (p.workers j).queue + others p j) := by
  rw [waiting, others, Finset.add_sum_erase _ (fun i => requests (some i) (p.workers i).queue)
    (Finset.mem_range.mpr inside)]

theorem others_setWorker (p : Pool) (j : Nat) (w : PoolWorker) :
    others (p.setWorker j w) j = others p j := by
  refine Finset.sum_congr rfl fun i member => ?_
  rw [Pool.setWorker_ne p w (Finset.ne_of_mem_erase member)]

/-- Giving a worker another queue changes the messages of that queue. -/
theorem waiting_setWorker {j : Nat} {w : PoolWorker} (inside : j < p.started) :
    waiting (p.setWorker j w) = requests none p.frontend +
      (requests (some j) w.queue + others p j) := by
  rw [waiting_split (p := p.setWorker j w) inside, others_setWorker, Pool.setWorker_self]
  rfl

end Waiting

end Deployment

end Zqrpc
