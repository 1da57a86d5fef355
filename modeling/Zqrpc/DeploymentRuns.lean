import Zqrpc.Deployment
import Zqrpc.PoolTraffic

/-! A deployment does nothing that the network does not. Every step of it is matched by steps
of the network over the same channels: a stop order by none, a request by that request,
and a socket that is closed by the loss of what was in it. -/
namespace Zqrpc

open Numeral Steps

def Packet.placed (p : Packet) : Placed := (p.place, p.frames)

/-- What a channel is asked to do, which the two systems have in common. -/
inductive ChannelCall where
  | opened (k : Nat) (identity : Bytes)
  | closed (k : Nat)
  | send (k : Nat) (c : Ptr) (fullName : Bytes) (request : Serialized)
      (outcome : Nat → SendOutcome)
  | recv (k : Nat) (c : Ptr) (timeout start : Int)
  | tick (k : Nat) (now : Int) (poll : PollResult) (taking : Taking)

def NetworkInput.channelCall {Msg : Type} : NetworkInput Msg → Option ChannelCall
  | .opened k identity => some (.opened k identity)
  | .closed k => some (.closed k)
  | .send k c fullName request outcome => some (.send k c fullName request outcome)
  | .recv k c timeout start => some (.recv k c timeout start)
  | .tick k now poll taking => some (.tick k now poll taking)
  | _ => none

def DeploymentInput.channelCall {Msg : Type} : DeploymentInput Msg → Option ChannelCall
  | .opened k identity => some (.opened k identity)
  | .closed k => some (.closed k)
  | .send k c fullName request outcome => some (.send k c fullName request outcome)
  | .recv k c timeout start => some (.recv k c timeout start)
  | .tick k now poll taking => some (.tick k now poll taking)
  | _ => none

/-- An iteration of the network is one of the deployment. -/
def WorkOf {Msg : Type} (input : DeploymentInput Msg) : NetworkInput Msg → Prop
  | .work _ handler reply errorReply =>
    ∃ j, input = .pool (.work j false handler reply errorReply)
  | _ => True

namespace Deployment

variable {Msg : Type} {pb : Protobuf Msg} {map : RpcMethodMapT}

/-- The channels and the replies are the same, and so are the requests, in whatever order. A
worker that has left its loop has no counterpart. -/
structure Matches (d : Deployment) (net : Network Msg) : Prop where
  channels : net.channels = d.channels
  toClients : net.toClients.map Packet.placed = d.toClients
  toServer : (net.toServer.map Packet.placed : Multiset Placed) = waiting d.pool
  workers : ∀ j, (d.pool.workers j).worker.InLoop →
    (net.workers j).InLoop ∧ (net.workers j).pending = (d.pool.workers j).worker.pending
  orders : ∀ m, d.pool.Carries m → m.stopOrder = true → isStop m.frames = true
  inside : ∀ j ∈ d.pool.turns, j < d.pool.started
  idle : ∀ j, d.pool.started ≤ j → (d.pool.workers j).queue = []

/-- Steps of the network that match a step of the deployment to this state. -/
def Matched (pb : Protobuf Msg) (map : RpcMethodMapT) (net : Network Msg)
    (input : DeploymentInput Msg) (next : Deployment) : Prop :=
  ∃ inputs accepted net', Path (Fires (Network.step pb map)) net inputs accepted net' ∧
    Matches next net' ∧
    inputs.filterMap NetworkInput.channelCall = [input].filterMap DeploymentInput.channelCall ∧
    ∀ input' ∈ inputs, WorkOf input input'

section Rules

variable {d next : Deployment} {net net' : Network Msg} {events : List (WorkerEvent Msg)}
  {accepted : List Acceptance}

theorem Matched.still {input : DeploymentInput Msg} (silent : input.channelCall = none)
    (held : Matches next net) : Matched pb map net input next :=
  ⟨[], [], net, .nil, held, by simp [silent], by simp⟩

theorem Matched.one {input : DeploymentInput Msg} {input' : NetworkInput Msg}
    (fired : net.step pb map input' = some (net', accepted)) (held : Matches next net')
    (same : input'.channelCall = input.channelCall) (origin : WorkOf input input') :
    Matched pb map net input next := by
  refine ⟨[input'], accepted, net', .single fired, held, ?_, by simpa using origin⟩
  cases seen : input.channelCall with
  | none => simp [same, seen]
  | some call => simp [same, seen]

theorem Matches.live (held : Matches d net) (k : Nat) : net.live k = d.live k := by
  rw [Network.live, Deployment.live, held.channels]

/-- A step that writes one channel and leaves the server alone. -/
theorem Matches.setChannel (held : Matches d net) (k : Nat) (e : ChannelEnd) :
    Matches (d.setChannel k e) (net.setChannel k e) :=
  ⟨by rw [Network.setChannel, Deployment.setChannel, held.channels], held.toClients, held.toServer,
    held.workers, held.orders, held.inside, held.idle⟩

/-- Both systems lose or route the same replies. -/
theorem Matches.replies (held : Matches d net) {toClients : List Packet} {replies : List Placed}
    (same : toClients.map Packet.placed = replies) :
    Matches { d with toClients := replies } { net with toClients } :=
  ⟨held.channels, same, held.toServer, held.workers, held.orders, held.inside, held.idle⟩

theorem Matches.found (held : Matches d net) (i : Nat) :
    (net.toClients[i]?).map Packet.placed = d.toClients[i]? := by
  rw [← held.toClients, List.getElem?_map]

/-- A message of the deployment has a packet. -/
theorem take_packet {place : Option Nat} {frames : FramesT} {rest : Multiset Placed}
    (there : (net.toServer.map Packet.placed : Multiset Placed) = (place, frames) ::ₘ rest) :
    ∃ i r, net.toServer[i]? = some ⟨place, r, frames⟩ ∧
      ((net.toServer.eraseIdx i).map Packet.placed : Multiset Placed) = rest := by
  have member : (place, frames) ∈ net.toServer.map Packet.placed := by
    rw [← Multiset.mem_coe, there]
    exact Multiset.mem_cons_self _ _
  obtain ⟨p, packet, same⟩ := List.mem_map.mp member
  obtain ⟨i, bound, rfl⟩ := List.getElem_of_mem packet
  obtain ⟨rfl, rfl⟩ := Prod.mk.inj same
  refine ⟨i, net.toServer[i].request, List.getElem?_eq_getElem bound, ?_⟩
  have split := (List.getElem_cons_eraseIdx_perm bound).map Packet.placed
  rw [List.map_cons] at split
  have whole := Multiset.coe_eq_coe.mpr split
  rw [there, ← Multiset.cons_coe] at whole
  exact (Multiset.cons_inj_right _).mp whole

theorem matched_opened (held : Matches d net) {k : Nat} {identity : Bytes}
    (fired : d.step pb map (.opened k identity) = some (next, events)) :
    Matched pb map net (.opened k identity) next := by
  obtain ⟨fresh, rfl, -⟩ := step_opened fired
  have step' : net.step pb map (.opened k identity) =
      some (net.setChannel k { identity }, []) := by
    rw [Network.step, held.channels, fresh]
  exact .one step' (held.setChannel k _) rfl trivial

theorem matched_closed (held : Matches d net) {k : Nat}
    (fired : d.step pb map (.closed k) = some (next, events)) :
    Matched pb map net (.closed k) next := by
  obtain ⟨e, live, free, rfl, -⟩ := step_closed fired
  have step' : net.step pb map (.closed k) =
      some ({ net.setChannel k { e with isOpen := false } with
        toClients := net.toClients.filter fun p => p.place ≠ some k }, []) := by
    rw [Network.step, held.live, live]
    exact if_neg (Bool.eq_false_iff.mp free)
  refine .one step' ((held.setChannel k _).replies ?_) rfl trivial
  rw [← held.toClients, List.filter_map]
  rfl

theorem matched_recv (held : Matches d net) {k : Nat} {c : Ptr} {timeout start : Int}
    (fired : d.step pb map (.recv k c timeout start) = some (next, events)) :
    Matched pb map net (.recv k c timeout start) next := by
  obtain ⟨e, session, emitted, live, stepped, rfl, -⟩ := step_recv fired
  have step' : net.step pb map (.recv k c timeout start) =
      some (net.setChannel k { e with session }, []) := by
    simp only [Network.step, held.live, live, stepped]
  exact .one step' (held.setChannel k _) rfl trivial

theorem matched_route (held : Matches d net) {i k : Nat}
    (fired : d.step pb map (.route i k) = some (next, events)) :
    Matched pb map net (.route i k) next := by
  obtain ⟨frames, e, there, live, rfl, -⟩ := step_route fired
  obtain ⟨⟨place, r, frames'⟩, packet, same⟩ :=
    Option.map_eq_some_iff.mp ((held.found i).trans there)
  obtain ⟨rfl, rfl⟩ := Prod.mk.inj same
  have step' : net.step pb map (.route i k) =
      some ({ net with toClients := net.toClients.set i ⟨some k, r, frames⟩ }, []) := by
    simp only [Network.step, packet, held.live, live, if_true]
  refine .one step' (held.replies ?_) rfl trivial
  rw [← held.toClients, List.map_set]
  rfl

theorem matched_loseReply (held : Matches d net) {i : Nat}
    (fired : d.step pb map (.loseReply i) = some (next, events)) :
    Matched pb map net (.loseReply i) next := by
  obtain ⟨rfl, -⟩ := Prod.mk.inj (Option.some.inj fired)
  have step' : net.step pb map (.loseReply i) =
      some ({ net with toClients := net.toClients.eraseIdx i }, []) := rfl
  refine .one step' (held.replies ?_) rfl trivial
  rw [← held.toClients, List.eraseIdx_map]

theorem matched_tick (held : Matches d net) {k : Nat} {now : Int} {poll : PollResult}
    {taking : Taking} (fired : d.step pb map (.tick k now poll taking) = some (next, events)) :
    Matched pb map net (.tick k now poll taking) next := by
  have same : (net.incoming k taking).map Prod.fst = d.incoming k taking := by
    cases taking with
    | empty => rfl
    | threw => rfl
    | packet i =>
      rw [Network.incoming, Deployment.incoming, ← held.found i]
      cases net.toClients[i]? with
      | none => rfl
      | some p =>
        simp only [Option.map_some, Packet.placed]
        split <;> rfl
  obtain ⟨e, recv, session, emitted, live, incoming, stepped, rfl, -⟩ := step_tick fired
  obtain ⟨⟨recv', packet⟩, incoming', rfl⟩ := Option.map_eq_some_iff.mp (same.trans incoming)
  have step' : net.step pb map (.tick k now poll taking) =
      some (net.afterTick k e taking packet session emitted) := by
    simp only [Network.step, held.live, live, incoming', stepped]
  rcases eq : net.afterTick k e taking packet session emitted with ⟨after, acceptances⟩
  rw [eq] at step'
  refine .one step' ?_ rfl trivial
  have channel := held.setChannel k { e with session }
  unfold Network.afterTick at eq
  unfold Deployment.afterTick
  split at eq
  · rename_i read
    rw [if_pos read]
    split at eq
    · obtain ⟨rfl, -⟩ := Prod.mk.inj eq
      refine channel.replies ?_
      rw [← channel.toClients, List.eraseIdx_map]
    · rename_i other
      obtain ⟨rfl, -⟩ := Prod.mk.inj eq
      cases taking with
      | empty => exact channel
      | threw => exact channel
      | packet i =>
        -- a packet that was found is handed on
        simp only [Network.incoming] at incoming'
        split at incoming'
        · cases incoming'
        · rename_i p found
          split at incoming'
          · obtain ⟨_, rfl⟩ := Prod.mk.inj (Option.some.inj incoming')
            exact absurd rfl (other i p rfl)
          · cases incoming'
  · rename_i unread
    rw [if_neg unread]
    obtain ⟨rfl, -⟩ := Prod.mk.inj eq
    exact channel

/-- A message that comes in is none that was on its way, and no stop order. -/
theorem carries_arrive {p : Pool} {identity : Bytes} {sent : List FramesT} {m : Inbound}
    (carried : (arrive identity sent p).Carries m) : p.Carries m ∨ m.stopOrder = false := by
  rcases carried with front | queued
  · rcases List.mem_append.mp front with before | now
    · exact .inl (.inl before)
    · obtain ⟨frames, _, rfl⟩ := List.mem_map.mp now
      exact .inr rfl
  · exact .inl (.inr queued)

theorem waiting_arrive (identity : Bytes) (sent : List FramesT) (p : Pool) :
    waiting (arrive identity sent p) =
      waiting p + (sent.map fun frames => (none, identity :: frames) : List Placed) := by
  have new : requests none (sent.map fun frames => ⟨false, identity :: frames⟩) =
      (sent.map fun frames => (none, identity :: frames) : List Placed) := by
    simp [requests, List.filter_map, Function.comp_def]
  rw [waiting, waiting, arrive, requests_append, new, add_right_comm]

theorem matched_send (held : Matches d net) {k : Nat} {c : Ptr} {fullName : Bytes}
    {request : Serialized} {outcome : Nat → SendOutcome}
    (fired : d.step pb map (.send k c fullName request outcome) = some (next, events)) :
    Matched pb map net (.send k c fullName request outcome) next := by
  obtain ⟨e, session, emitted, live, stepped, rfl, -⟩ := step_send fired
  have step' : net.step pb map (.send k c fullName request outcome) =
      some ({ net.setChannel k { e with session } with
        toServer := net.toServer ++ departures k e.identity fullName request emitted
        issued := net.issued ++
          (departures k e.identity fullName request emitted).map (·.request) }, []) := by
    simp only [Network.step, held.live, live, stepped]
  have departed : (departures k e.identity fullName request emitted).map Packet.placed =
      (wires emitted).map fun frames => (none, e.identity :: frames) := by
    obtain ⟨_, _, ⟨buffer, rfl, _, _, rfl⟩ | ⟨_, rfl, _⟩⟩ :=
      e.session.step_send session c fullName request outcome emitted stepped
    · rfl
    · rfl
  refine .one step' ⟨?_, held.toClients, ?_, held.workers, fun m carried order => ?_,
    held.inside, held.idle⟩ rfl trivial
  · rw [Network.setChannel, Deployment.setChannel, held.channels]
  · rw [List.map_append, departed, ← Multiset.coe_add, held.toServer]
    exact (waiting_arrive _ _ _).symm
  · rcases carries_arrive carried with before | client
    · exact held.orders m before order
    · rw [order] at client
      cases client

/-- A step of the pool that makes no replies, in which the workers stay as they are. -/
theorem Matches.pool {p : Pool} {toServer : List Packet} (held : Matches d net)
    (same : (toServer.map Packet.placed : Multiset Placed) = waiting p)
    (workers : ∀ j, (p.workers j).worker = (d.pool.workers j).worker)
    (orders : ∀ m, p.Carries m → m.stopOrder = true → isStop m.frames = true)
    (inside : ∀ j ∈ p.turns, j < p.started)
    (idle : ∀ j, p.started ≤ j → (p.workers j).queue = []) :
    Matches { d with pool := p } { net with toServer } :=
  ⟨held.channels, held.toClients, same, fun j => by rw [workers j]; exact held.workers j,
    orders, inside, idle⟩

/-- What a step of the pool keeps, whatever it does. -/
theorem Matches.orders_step (held : Matches d net) {input : PoolInput Msg} {p : Pool}
    (other : ∀ identity frames, input ≠ .arrive identity frames)
    (stepped : d.pool.step pb map input = some (p, events)) (m : Inbound)
    (carried : p.Carries m) (order : m.stopOrder = true) : isStop m.frames = true := by
  rcases Pool.step_carries stepped carried with before | ⟨_, _, same, _⟩ | ⟨_, sent⟩
  · exact held.orders m before order
  · exact absurd same (other _ _)
  · rw [List.eq_of_mem_replicate sent]
    rfl

theorem Matches.inside_step (held : Matches d net) {input : PoolInput Msg} {p : Pool}
    (stepped : d.pool.step pb map input = some (p, events)) : ∀ j ∈ p.turns, j < p.started := by
  obtain ⟨same, _, turns⟩ := Pool.step_frame stepped
  intro j member
  rw [same]
  rcases turns j member with before | inside
  · exact held.inside j before
  · exact inside

theorem worker_kept (p : Pool) (j : Nat) (queue : List Inbound) (i : Nat) :
    ((p.setWorker j { p.workers j with queue }).workers i).worker = (p.workers i).worker := by
  by_cases own : i = j
  · rw [own, Pool.setWorker_self]
  · rw [Pool.setWorker_ne p _ own]

theorem idle_setWorker (held : Matches d net) {j : Nat} (inside : j < d.pool.started)
    (w : PoolWorker) : ∀ i, d.pool.started ≤ i → ((d.pool.setWorker j w).workers i).queue = [] := by
  intro i outside
  rw [Pool.setWorker_ne d.pool w (by omega : i ≠ j)]
  exact held.idle i outside

theorem matched_connect (held : Matches d net) {j : Nat} {p : Pool}
    (stepped : d.pool.step pb map (.connect j) = some (p, events)) :
    Matched pb map net (.pool (.connect j)) { d with pool := p } := by
  have orders := held.orders_step (by simp) stepped
  have inside := held.inside_step stepped
  obtain ⟨_, rfl⟩ := Pool.step_connect stepped
  exact .still rfl (held.pool held.toServer (fun _ => rfl) orders inside held.idle)

/-- The stop orders come to the frontend. -/
theorem matched_workerStop (held : Matches d net) {p : Pool}
    (stepped : d.pool.step pb map .workerStop = some (p, events)) :
    Matched pb map net (.pool .workerStop) { d with pool := p } := by
  have orders := held.orders_step (by simp) stepped
  have inside := held.inside_step stepped
  obtain rfl := Pool.step_workerStop stepped
  refine .still rfl (held.pool ?_ (fun _ => rfl) orders inside held.idle)
  have none' : requests none (workerStop d.pool.started) = 0 := by
    simp [requests, workerStop]
  rw [held.toServer, waiting, waiting, requests_append, none', add_zero]

theorem set_packet {i : Nat} {p q : Packet} (found : net.toServer[i]? = some p) :
    ((net.toServer.set i q).map Packet.placed : Multiset Placed) =
      q.placed ::ₘ ((net.toServer.eraseIdx i).map Packet.placed : Multiset Placed) := by
  obtain ⟨bound, _⟩ := List.getElem?_eq_some_iff.mp found
  exact Multiset.coe_eq_coe.mpr ((List.set_perm_cons_eraseIdx bound q).map Packet.placed)

theorem matched_deal (held : Matches d net) {i : Nat} {p : Pool}
    (stepped : d.pool.step pb map (.deal i) = some (p, events)) :
    Matched pb map net (.pool (.deal i)) { d with pool := p } := by
  have orders := held.orders_step (by simp) stepped
  have inside := held.inside_step stepped
  obtain ⟨m, a, rest, found, turn, rfl⟩ := Pool.step_deal stepped
  have started : a < d.pool.started := held.inside a (by rw [turn]; exact List.mem_cons_self)
  have idle := idle_setWorker held started
    { d.pool.workers a with queue := (d.pool.workers a).queue ++ [m] }
  have before : waiting d.pool = requests none [m] + (requests none (d.pool.frontend.eraseIdx i) +
      (requests (some a) (d.pool.workers a).queue + others d.pool a)) := by
    rw [waiting_split started, requests_eraseIdx found, add_assoc]
  have after : waiting { d.pool.setWorker a { d.pool.workers a with
        queue := (d.pool.workers a).queue ++ [m] } with
      frontend := d.pool.frontend.eraseIdx i, turns := rest ++ [a] } =
      requests (some a) [m] + (requests none (d.pool.frontend.eraseIdx i) +
        (requests (some a) (d.pool.workers a).queue + others d.pool a)) := by
    rw [waiting_split (p := { d.pool.setWorker a _ with
      frontend := _, turns := _ }) started]
    change _ + (requests (some a) ((d.pool.setWorker a _).workers a).queue +
      others (d.pool.setWorker a _) a) = _
    rw [Pool.setWorker_self, others_setWorker, requests_append]
    abel
  cases order : m.stopOrder with
  | true =>
    refine .still rfl (held.pool ?_ (worker_kept d.pool a _) orders inside idle)
    rw [held.toServer, before, after, requests_order order, requests_order order]
  | false =>
    rw [requests_client order, Multiset.singleton_add] at before after
    obtain ⟨k, r, packet, left'⟩ := take_packet (held.toServer.trans before)
    have step' : net.step pb map (.deal k a) =
        some ({ net with toServer := net.toServer.set k ⟨some a, r, m.frames⟩ }, []) := by
      simp only [Network.step, packet]
    refine .one step' (held.pool ?_ (worker_kept d.pool a _) orders inside idle) rfl trivial
    rw [set_packet packet, left', after]
    rfl

/-- Of two workers in their loops an iteration does not see what frames they had. -/
theorem iteration_same {w w' : Worker} (inLoop : w.InLoop) (inLoop' : w'.InLoop)
    (pending : w'.pending = w.pending) (round : Round Msg) :
    w'.iteration pb ⟨map, false⟩ round = w.iteration pb ⟨map, false⟩ round := by
  have cleared : ({ w' with frames := [] } : Worker) = { w with frames := [] } := by
    rw [Worker.mk.injEq]
    exact ⟨rfl, pending, inLoop'.1.trans inLoop.1.symm, inLoop'.2.trans inLoop.2.symm⟩
  calc w'.iteration pb ⟨map, false⟩ round
      = ({ w' with frames := [] } : Worker).iteration pb ⟨map, false⟩ round := rfl
    _ = w.iteration pb ⟨map, false⟩ round := by
      rw [cleared]
      rfl

/-- An iteration that makes no reply and after which the worker is where it was, or is not in
its loop any more. -/
theorem Matches.work (held : Matches d net) {j : Nat} {w : PoolWorker}
    {toServer : List Packet} {toClients : List Packet} {replies : List Placed}
    {workers : Nat → Worker} (inside : j < d.pool.started)
    (channels : toClients.map Packet.placed = replies)
    (same : (toServer.map Packet.placed : Multiset Placed) = waiting (d.pool.setWorker j w))
    (own : w.worker.InLoop → (workers j).InLoop ∧ (workers j).pending = w.worker.pending)
    (other : ∀ i, i ≠ j → workers i = net.workers i)
    (orders : ∀ m, (d.pool.setWorker j w).Carries m → m.stopOrder = true →
      isStop m.frames = true) {invocations : List (Invocation Msg)} :
    Matches { d with pool := d.pool.setWorker j w, toClients := replies }
      { net with workers, toServer, toClients, invocations } := by
  refine ⟨held.channels, channels, same, fun i running => ?_, orders, held.inside,
    idle_setWorker held inside w⟩
  by_cases mine : i = j
  · subst mine
    rw [Pool.setWorker_self] at running ⊢
    exact own running
  · rw [Pool.setWorker_ne d.pool w mine] at running ⊢
    change (workers i).InLoop ∧ (workers i).pending = _
    rw [other i mine]
    exact held.workers i running

/-- A worker works only where it was started. -/
theorem Matches.started (held : Matches d net) {j : Nat} {m : Inbound} {rest : List Inbound}
    (head : (d.pool.workers j).queue = m :: rest) : j < d.pool.started := by
  by_contra outside
  rw [held.idle j (Nat.le_of_not_lt outside)] at head
  cases head

theorem matched_interrupted (held : Matches d net) {j : Nat} {p : Pool} {handler : Handler Msg}
    {reply errorReply : Nat → SendOutcome}
    (stepped : d.pool.step pb map (.work j true handler reply errorReply) = some (p, events)) :
    Matched pb map net (.pool (.work j true handler reply errorReply))
      { d with pool := p, toClients := d.toClients ++ (messages events).map (none, ·) } := by
  have orders := held.orders_step (by simp) stepped
  obtain ⟨recv, queue, received, inLoop, rfl⟩ := Pool.step_work stepped
  have silent := Pool.step_work_events stepped received
  obtain ⟨rfl, rfl⟩ := Prod.mk.inj (Option.some.inj received)
  have stays : (d.pool.workers j).worker.iteration pb ⟨map, false⟩
      ⟨.threw, handler, reply, errorReply⟩ =
        ({ (d.pool.workers j).worker with frames := [] }, []) := rfl
  rw [stays] at silent orders ⊢
  subst silent
  rw [messages, List.filterMap_nil, List.map_nil, List.append_nil]
  have kept (i : Nat) : ((d.pool.setWorker j ⟨{ (d.pool.workers j).worker with frames := [] },
      (d.pool.workers j).queue⟩).workers i).queue = (d.pool.workers i).queue := by
    by_cases mine : i = j
    · rw [mine, Pool.setWorker_self]
    · rw [Pool.setWorker_ne d.pool _ mine]
  refine .still rfl ⟨held.channels, held.toClients, held.toServer.trans ?_, fun i running => ?_,
    orders, held.inside, fun i outside => (kept i).trans (held.idle i outside)⟩
  · rw [waiting, waiting]
    congr 1
    exact Finset.sum_congr rfl fun i _ => by rw [kept i]
  · by_cases mine : i = j
    · subst mine
      rw [Pool.setWorker_self]
      exact held.workers i inLoop
    · rw [Pool.setWorker_ne d.pool _ mine] at running ⊢
      exact held.workers i running

theorem matched_received (held : Matches d net) {j : Nat} {p : Pool} {handler : Handler Msg}
    {reply errorReply : Nat → SendOutcome}
    (stepped : d.pool.step pb map (.work j false handler reply errorReply) = some (p, events)) :
    Matched pb map net (.pool (.work j false handler reply errorReply))
      { d with pool := p, toClients := d.toClients ++ (messages events).map (none, ·) } := by
  have orders := held.orders_step (by simp) stepped
  obtain ⟨recv, queue, received, inLoop, rfl⟩ := Pool.step_work stepped
  obtain rfl := Pool.step_work_events stepped received
  obtain ⟨rfl, _⟩ | ⟨m, head, rfl⟩ := Pool.receive_queue received
  · cases head : (d.pool.workers j).queue with
    | nil => simp [PoolWorker.receive, head] at received
    | cons m rest => simp [PoolWorker.receive, head] at received
  have started := held.started head
  have before : waiting d.pool = requests (some j) [m] + (requests none d.pool.frontend +
      (requests (some j) queue + others d.pool j)) := by
    rw [waiting_split started, head, requests_cons]
    abel
  have after (w : Worker) : waiting (d.pool.setWorker j ⟨w, queue⟩) =
      requests none d.pool.frontend + (requests (some j) queue + others d.pool j) :=
    waiting_setWorker started
  cases order : m.stopOrder with
  | true =>
    -- the network knows no stop orders, and the worker has done its work
    have stop : isStop m.frames = true :=
      held.orders m (.inr ⟨j, by rw [head]; exact List.mem_cons_self⟩) order
    rw [iteration_stop pb _ _ _ rfl stop] at orders ⊢
    rw [messages, List.filterMap_nil, List.map_nil, List.append_nil]
    refine .still rfl (held.work started held.toClients ?_ (fun running => ?_) (fun _ _ => rfl)
      orders)
    · rw [held.toServer, before, after, requests_order order, zero_add]
    · cases running.1
  | false =>
    rw [requests_client order, Multiset.singleton_add] at before
    obtain ⟨k, r, packet, left'⟩ := take_packet (held.toServer.trans before)
    obtain ⟨inLoop', pending⟩ := held.workers j inLoop
    have same : (net.workers j).iteration pb ⟨map, false⟩
        ⟨.message m.frames, handler, reply, errorReply⟩ =
        (d.pool.workers j).worker.iteration pb ⟨map, false⟩
          ⟨.message m.frames, handler, reply, errorReply⟩ :=
      iteration_same inLoop inLoop' pending _
    rcases eq : (d.pool.workers j).worker.iteration pb ⟨map, false⟩
      ⟨.message m.frames, handler, reply, errorReply⟩ with ⟨worker, emitted⟩
    rw [eq] at same orders
    have step' : net.step pb map (.work k handler reply errorReply) =
        some ({ net with
          workers := Function.update net.workers j worker
          toServer := net.toServer.eraseIdx k
          toClients := net.toClients ++ (messages emitted).map (⟨none, r, ·⟩)
          invocations := net.invocations ++ emitted.filterMap (invocationOf r) }, []) := by
      simp only [Network.step, packet, if_pos inLoop', same]
    refine .one step' (held.work started ?_ ?_ (fun running => ?_)
      (fun i mine => Function.update_of_ne mine _ _) orders) rfl ⟨j, rfl⟩
    · rw [List.map_append, held.toClients, List.map_map]
      rfl
    · rw [left', after]
    · rw [Function.update_self]
      exact ⟨running, rfl⟩

/-- The network loses the requests of a queue, one after another. -/
theorem lose_all (place : Option Nat) (ms : List Inbound) : ∀ {net : Network Msg}
    {rest : Multiset Placed},
    (net.toServer.map Packet.placed : Multiset Placed) = requests place ms + rest →
    ∃ inputs accepted toServer, Path (Fires (Network.step pb map)) net inputs accepted
        { net with toServer } ∧
      (toServer.map Packet.placed : Multiset Placed) = rest ∧
      ∀ input ∈ inputs, ∃ i, input = .loseRequest i := by
  induction ms with
  | nil =>
    intro net rest there
    rw [requests_nil, zero_add] at there
    exact ⟨[], [], net.toServer, .nil, there, by simp⟩
  | cons m ms ih =>
    intro net rest there
    rw [requests_cons, add_assoc] at there
    cases order : m.stopOrder with
    | true =>
      rw [requests_order order, zero_add] at there
      exact ih there
    | false =>
      rw [requests_client order, Multiset.singleton_add] at there
      obtain ⟨i, _, _, left'⟩ := take_packet there
      have lost : net.step pb map (.loseRequest i) =
          some ({ net with toServer := net.toServer.eraseIdx i }, []) := rfl
      obtain ⟨inputs, accepted, toServer, path, gone, only⟩ :=
        @ih { net with toServer := net.toServer.eraseIdx i } _ left'
      exact ⟨_, _, toServer, Path.cons lost path, gone,
        List.forall_mem_cons.mpr ⟨⟨i, rfl⟩, only⟩⟩

theorem matched_close (held : Matches d net) {j : Nat} {p : Pool}
    (stepped : d.pool.step pb map (.close j) = some (p, events)) :
    Matched pb map net (.pool (.close j)) { d with pool := p } := by
  have orders := held.orders_step (by simp) stepped
  have inside := held.inside_step stepped
  by_cases started : j < d.pool.started
  · have idle := idle_setWorker held started { d.pool.workers j with queue := [] }
    obtain ⟨_, rfl⟩ := Pool.step_close stepped
    have before : waiting d.pool = requests (some j) (d.pool.workers j).queue +
        (requests none d.pool.frontend + others d.pool j) := by
      rw [waiting_split started]
      abel
    obtain ⟨inputs, accepted, toServer, path, gone, only⟩ :=
      @lose_all _ pb map _ _ _ _ (held.toServer.trans before)
    refine ⟨inputs, accepted, _, path, held.pool ?_ (worker_kept d.pool j []) orders inside idle,
      ?_, fun input member => ?_⟩
    · rw [gone]
      refine Eq.trans ?_ (waiting_setWorker started).symm
      rw [requests_nil, zero_add]
    · rw [List.filterMap_eq_nil_iff.mpr]
      · rfl
      · intro input member
        obtain ⟨i, rfl⟩ := only input member
        rfl
    · obtain ⟨i, rfl⟩ := only input member
      trivial
  · obtain ⟨_, rfl⟩ := Pool.step_close stepped
    have empty := held.idle j (Nat.le_of_not_lt started)
    have kept (i : Nat) : ((d.pool.setWorker j { d.pool.workers j with queue := [] }).workers
        i).queue = (d.pool.workers i).queue := by
      by_cases mine : i = j
      · rw [mine, Pool.setWorker_self, empty]
      · rw [Pool.setWorker_ne d.pool _ mine]
    refine .still rfl (held.pool ?_ (worker_kept d.pool j []) orders inside
      fun i outside => (kept i).trans (held.idle i outside))
    rw [held.toServer, waiting, waiting]
    congr 1
    exact Finset.sum_congr rfl fun i _ => congrArg _ (kept i).symm

theorem matched_pool (held : Matches d net) {input : PoolInput Msg}
    (fired : d.step pb map (.pool input) = some (next, events)) :
    Matched pb map net (.pool input) next := by
  obtain ⟨p, client, stepped, rfl⟩ := step_pool fired
  have still (silent : events = []) : ({ d with
      pool := p, toClients := d.toClients ++ (messages events).map (none, ·) } : Deployment) =
      { d with pool := p } := by
    rw [silent, messages, List.filterMap_nil, List.map_nil, List.append_nil]
  cases input with
  | arrive identity frames => exact absurd rfl (client identity frames)
  | connect j =>
    rw [still (Pool.step_quiet (by simp) stepped)]
    exact matched_connect held stepped
  | workerStop =>
    rw [still (Pool.step_quiet (by simp) stepped)]
    exact matched_workerStop held stepped
  | deal i =>
    rw [still (Pool.step_quiet (by simp) stepped)]
    exact matched_deal held stepped
  | work j interrupted handler reply errorReply =>
    cases interrupted with
    | true => exact matched_interrupted held stepped
    | false => exact matched_received held stepped
  | close j =>
    rw [still (Pool.step_quiet (by simp) stepped)]
    exact matched_close held stepped

theorem matched_step (held : Matches d net) {input : DeploymentInput Msg}
    (fired : d.step pb map input = some (next, events)) : Matched pb map net input next := by
  cases input with
  | opened k identity => exact matched_opened held fired
  | closed k => exact matched_closed held fired
  | send k c fullName request outcome => exact matched_send held fired
  | recv k c timeout start => exact matched_recv held fired
  | tick k now poll taking => exact matched_tick held fired
  | pool input => exact matched_pool held fired
  | route i k => exact matched_route held fired
  | loseReply i => exact matched_loseReply held fired

end Rules

theorem start_matches (n : Nat) : Matches (start n) ({} : Network Msg) where
  channels := rfl
  toClients := rfl
  toServer := by
    rw [waiting]
    simp [start, Pool.start]
  workers _ _ := ⟨⟨rfl, rfl⟩, rfl⟩
  orders m carried := absurd carried (Pool.start_carries n m)
  inside := by simp [start, Pool.start]
  idle _ _ := rfl

/-- A server whose worker answers one request and leaves another behind its stop order. -/
def stoppedServer : List (DeploymentInput Bytes) :=
  [.opened 0 (ascii "t1"), .pool (.connect 0), .send 0 0 (ascii "m") (.bytes [1]) acceptAll,
    .send 0 1 (ascii "m") (.bytes [2]) acceptAll, .recv 0 0 100 0, .pool .workerStop,
    .pool (.deal 0), .pool (.deal 1), .pool (.deal 0),
    .pool (.work 0 false echo acceptAll acceptAll),
    .pool (.work 0 false echo acceptAll acceptAll), .route 0 0,
    .tick 0 0 .readable (.packet 0), .pool (.close 0)]

end Deployment

end Zqrpc
