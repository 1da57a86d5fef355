import Zqrpc.DeploymentCalls

/-! The calls of a deployment come to an end. Every message moves a bounded number of times, and
as long as one is on its way the deployment can move it. -/
namespace Zqrpc

open Numeral Steps

variable {Msg : Type}

namespace DeploymentInput

def isRoute : DeploymentInput Msg → Bool
  | .route _ _ => true
  | _ => false

/-- A message moves, but is not read. -/
def isMove : DeploymentInput Msg → Bool
  | .pool input => input.isMove
  | .route _ _ => true
  | _ => false

end DeploymentInput

namespace Deployment

open DeploymentInput

variable {pb : Protobuf Msg} {map : RpcMethodMapT} {behaviour : Behaviour Msg}
  {inputs more : List (DeploymentInput Msg)} {input : DeploymentInput Msg} {d next : Deployment}
  {events emitted : List (WorkerEvent Msg)} {n : Nat}

section Bound

variable (pb map) in
/-- How often messages were moved or read. -/
def moved (inputs : List (DeploymentInput Msg)) (n : Nat) : Nat :=
  inputs.countP isMove + (repliesRead pb map inputs n).length

/-- The replies that the ROUTER has still to route. -/
def unrouted (d : Deployment) : Nat := d.toClients.countP fun m => m.1.isNone

theorem unrouted_sublist {toClients : List Placed} (part : toClients.Sublist d.toClients) :
    toClients.countP (fun m => m.1.isNone) ≤ d.unrouted := part.countP_le

theorem routed_step (fired : d.step pb map input = some (next, emitted)) :
    [input].countP isRoute + next.unrouted ≤ d.unrouted + (messages emitted).length := by
  cases input with
  | opened k identity =>
    obtain ⟨_, rfl, rfl⟩ := step_opened fired
    exact Nat.le_of_eq (Nat.zero_add _)
  | closed k =>
    obtain ⟨_, _, _, rfl, rfl⟩ := step_closed fired
    exact (Nat.zero_add _).trans_le (unrouted_sublist List.filter_sublist)
  | send k c fullName request outcome =>
    obtain ⟨_, _, _, _, _, rfl, rfl⟩ := step_send fired
    exact Nat.le_of_eq (Nat.zero_add _)
  | recv k c timeout start =>
    obtain ⟨_, _, _, _, _, rfl, rfl⟩ := step_recv fired
    exact Nat.le_of_eq (Nat.zero_add _)
  | tick k now poll taking =>
    obtain ⟨_, _, _, rfl, ⟨rfl, _, _⟩ | ⟨_, _, _, rfl, _, _⟩⟩ := tick_cases fired
    · exact Nat.le_of_eq (Nat.zero_add _)
    · exact (Nat.zero_add _).trans_le (unrouted_sublist (List.eraseIdx_sublist _ _))
  | pool input =>
    obtain ⟨p, _, _, rfl⟩ := step_pool fired
    have new : ((messages emitted).map fun frames => ((none, frames) : Placed)).countP
        (fun m => m.1.isNone) = (messages emitted).length := by
      simp [List.countP_map, Function.comp_def]
    refine Nat.le_of_eq ((Nat.zero_add _).trans ?_)
    change List.countP _ (d.toClients ++ (messages emitted).map (none, ·)) = _
    rw [List.countP_append, new, unrouted]
  | route i k =>
    obtain ⟨frames, e, found, _, rfl, rfl⟩ := step_route fired
    obtain ⟨bound, same⟩ := List.getElem?_eq_some_iff.mp found
    have one : 0 < d.unrouted := List.countP_pos_iff.mpr ⟨_, List.mem_of_getElem? found, rfl⟩
    have fewer : (d.toClients.set i (some k, frames)).countP (fun m => m.1.isNone) =
        d.unrouted - 1 := by
      rw [List.countP_set bound, same]
      rfl
    change 1 + (d.toClients.set i (some k, frames)).countP (fun m => m.1.isNone) ≤ d.unrouted + 0
    omega
  | loseReply i =>
    obtain ⟨rfl, rfl⟩ := Prod.mk.inj (Option.some.inj fired)
    exact (Nat.zero_add _).trans_le (unrouted_sublist (List.eraseIdx_sublist _ _))

theorem run_routed (run : Path (Fires (step pb map)) (start n) inputs events d) :
    inputs.countP isRoute + d.unrouted ≤ (messages events).length := by
  induction run with
  | nil => exact Nat.le_refl 0
  | snoc earlier last ih =>
    have one := routed_step last
    rw [List.countP_append, messages_append, List.length_append]
    omega

theorem poolInputs_moves (d : Deployment) (input : DeploymentInput Msg) :
    (d.poolInputs input).countP PoolInput.isMove + [input].countP isRoute =
      [input].countP isMove := by
  cases input with
  | send k c fullName request outcome =>
    simp only [poolInputs]
    split
    · rfl
    · simp [isRoute, isMove, PoolInput.isMove, Function.comp_def]
  | pool input => rfl
  | _ => rfl

theorem run_moves (run : Path (Fires (step pb map)) (start n) inputs events d) :
    (along poolInputs (step pb map) inputs (start n)).countP PoolInput.isMove +
      inputs.countP isRoute = inputs.countP isMove := by
  induction run with
  | nil => rfl
  | @snoc _ _ d input _ _ earlier last ih =>
    have one := poolInputs_moves d input
    rw [earlier.along_snoc last, List.countP_append, List.countP_append, List.countP_append]
    omega

theorem answers_length (ms : List Inbound) :
    (Pool.answers pb map behaviour ms).length ≤ ms.length := by
  induction ms with
  | nil => exact Nat.le_refl 0
  | cons m ms ih =>
    have one : (answer pb map (m.frames, behaviour)).length ≤ 1 := by
      unfold answer
      split
      · exact Nat.le_refl 1
      · exact Nat.zero_le 1
    have whole : (Pool.answers pb map behaviour (m :: ms)).length =
        (answer pb map (m.frames, behaviour)).length +
          (Pool.answers pb map behaviour ms).length := List.length_append
    rw [whole, List.length_cons]
    omega

/-- A message is dealt, worked on, routed and read, at the most. -/
theorem moved_le (run : Path (Fires (step pb map)) (start n) inputs events d)
    (behaves : ∀ input, .pool input ∈ inputs → Pool.Behaves behaviour input) :
    moved pb map inputs n ≤
      4 * ((serverTraffic pb map inputs n).filterMap Movement.arrival).length := by
  have path := pool_path run
  have replies := congrArg List.length (Pool.run_answered path (poolInputs_behave behaves)).replies
  have inServer := (Pool.run_balanced path).moves
  have begun := congrArg Multiset.card (Pool.run_balanced path).balance
  have back := congrArg Multiset.card (run_returned run).balance
  have few := @answers_length _ pb map behaviour
    ((serverTraffic pb map inputs n).filterMap Movement.receiving)
  have routed := run_routed run
  have all := run_moves run
  simp only [Multiset.card_add, Multiset.coe_card] at begun back
  unfold moved
  rw [serverTraffic] at few ⊢
  omega

end Bound

section Moves

/-- A step in which nothing is lost and nothing is asked or opened. -/
def Quiet (behaviour : Behaviour Msg) (input : DeploymentInput Msg) : Prop :=
  Lossless behaviour input ∧ input.openedAs = none ∧ input.asks = none

theorem asks_quiet (quiet : ∀ input ∈ more, Quiet behaviour input) :
    (inputs ++ more).filterMap asks = inputs.filterMap asks := by
  rw [List.filterMap_append,
    List.filterMap_eq_nil_iff.mpr fun input member => (quiet input member).2.2, List.append_nil]

theorem Faultless.extend (faultless : Faultless behaviour inputs)
    (quiet : ∀ input ∈ more, Quiet behaviour input) : Faultless behaviour (inputs ++ more) where
  lossless input member := (List.mem_append.mp member).elim (faultless.lossless input)
    fun later => (quiet input later).1
  names := by
    rw [List.filterMap_append,
      List.filterMap_eq_nil_iff.mpr fun input member => (quiet input member).2.1, List.append_nil]
    exact faultless.names
  own := by
    rw [asks_quiet quiet]
    exact faultless.own
  fewer := by
    rw [asks_quiet quiet]
    exact faultless.fewer

/-- Some message can be moved or read, with nothing lost or asked in between. -/
def CanMove (pb : Protobuf Msg) (map : RpcMethodMapT) (behaviour : Behaviour Msg)
    (d : Deployment) : Prop :=
  ∃ more emitted next, Path (Fires (step pb map)) d more emitted next ∧
    (∀ input ∈ more, Quiet behaviour input) ∧ next.pool.turns ≠ [] ∧
    0 < more.countP isMove + (along heard (step pb map) more d).length

theorem CanMove.of_step (fired : d.step pb map input = some (next, emitted))
    (quiet : Quiet behaviour input) (connected : next.pool.turns ≠ [])
    (moves : input.isMove = true ∨ d.heard input ≠ []) : CanMove pb map behaviour d := by
  refine ⟨[input], emitted, next, .single fired, by simpa using quiet, connected, ?_⟩
  rcases moves with move | read
  · have one : [input].countP isMove = 1 := by simp [move]
    omega
  · have some' := List.length_pos_of_ne_nil read
    simp only [along, List.length_append]
    omega

theorem CanMove.after (fired : d.step pb map input = some (next, emitted))
    (quiet : Quiet behaviour input) (can : CanMove pb map behaviour next) :
    CanMove pb map behaviour d := by
  obtain ⟨more, events, last, taken, rest, connected, moves⟩ := can
  have whole : along heard (step pb map) (input :: more) d =
      d.heard input ++ along heard (step pb map) more next := by
    simp [along, fired]
  refine ⟨input :: more, emitted ++ events, last, .cons fired taken,
    List.forall_mem_cons.mpr ⟨quiet, rest⟩, connected, ?_⟩
  rw [List.countP_cons, whole, List.length_append]
  omega

theorem live_of {k : Nat} {e : ChannelEnd} (channel : d.channels k = some e)
    (isOpen : e.isOpen = true) : d.live k = some e :=
  Option.filter_eq_some_iff.mpr ⟨channel, isOpen⟩

theorem canMove_pool {input : PoolInput Msg} {p : Pool}
    (stepped : d.pool.step pb map input = some (p, emitted)) (move : input.isMove = true)
    (quiet : Quiet behaviour (.pool input)) (connected : p.turns ≠ []) :
    CanMove pb map behaviour d := by
  have fired : d.step pb map (.pool input) =
      some ({ d with pool := p
                     toClients := d.toClients ++ (messages emitted).map (none, ·) }, emitted) := by
    cases input <;> first | cases move; done | simp [step, stepped]
  exact .of_step fired quiet connected (.inl move)

theorem canMove_deal {m : Inbound} {ms : List Inbound} (front : d.pool.frontend = m :: ms)
    (connected : d.pool.turns ≠ []) : CanMove pb map behaviour d := by
  obtain ⟨j, turns, turn⟩ := List.exists_cons_of_ne_nil connected
  have dealt : ∃ p, d.pool.step pb map (.deal 0) = some (p, []) ∧ p.turns = turns ++ [j] := by
    simp [Pool.step, front, turn]
  obtain ⟨p, stepped, turns'⟩ := dealt
  exact canMove_pool stepped rfl ⟨trivial, rfl, rfl⟩ (by simp [turns'])

theorem canMove_work {j : Nat} {m : Inbound} {ms : List Inbound}
    (inLoop : (d.pool.workers j).worker.InLoop) (queue : (d.pool.workers j).queue = m :: ms)
    (connected : d.pool.turns ≠ []) : CanMove pb map behaviour d := by
  have worked : ∃ p events, d.pool.step pb map
      (.work j false behaviour.handler acceptAll acceptAll) = some (p, events) ∧
      p.turns = d.pool.turns := by
    simp [Pool.step, PoolWorker.receive, queue, inLoop, Pool.setWorker]
  obtain ⟨p, events, stepped, turns⟩ := worked
  exact canMove_pool stepped rfl ⟨⟨rfl, rfl, rfl⟩, rfl, rfl⟩ (turns ▸ connected)

theorem canMove_route {i k : Nat} {e : ChannelEnd} {frames : FramesT} (live : d.live k = some e)
    (found : d.toClients[i]? = some (none, e.identity :: frames))
    (connected : d.pool.turns ≠ []) : CanMove pb map behaviour d := by
  have fired : d.step pb map (.route i k) =
      some ({ d with toClients := d.toClients.set i (some k, frames) }, []) := by
    simp [step, found, live]
  exact .of_step fired ⟨trivial, rfl, rfl⟩ connected (.inl rfl)

/-- A call whose own controller waits reads what is there. -/
theorem call_reads (s : Session) {c : Ptr} (called : s.call = some (recvCall c 0 0))
    (working : (s.client.memory c).rcode = .working) (frames : FramesT) : ∃ next emitted,
      s.step (.tick ⟨0, .readable, .message frames⟩) = some (next, emitted) ∧
        emitted.filterMap Event.read = [frames] := by
  cases delivered : deliver frames s.client with
  | ok s =>
    simp [Session.step, called, iteration, recvCall, working, receive, delivered,
      List.filterMap_cons, Event.read]
  | error e =>
    simp [Session.step, called, iteration, recvCall, working, receive, delivered,
      List.filterMap_cons, Event.read]

theorem afterTick_pool (taking : Taking) (events : List Event) :
    (d.afterTick taking events).pool = d.pool := by
  unfold afterTick
  split
  · split <;> rfl
  · rfl

/-- A reply that was routed to a channel is read, in a call of a controller that waits. -/
theorem canMove_called {i k : Nat} {e : ChannelEnd} {c : Ptr} {frames : FramesT}
    (live : d.live k = some e) (called : e.session.call = some (recvCall c 0 0))
    (working : (e.session.client.memory c).rcode = .working)
    (found : d.toClients[i]? = some (some k, frames)) (connected : d.pool.turns ≠ []) :
    CanMove pb map behaviour d := by
  obtain ⟨session, emitted, stepped, read⟩ := call_reads e.session called working frames
  have incoming : d.incoming k (.packet i) = some (.message frames) := by
    simp [Deployment.incoming, found]
  have fired : d.step pb map (.tick k 0 .readable (.packet i)) =
      some ((d.setChannel k { e with session }).afterTick (.packet i) emitted, []) := by
    simp [step, live, incoming, stepped]
  refine .of_step fired ⟨trivial, rfl, rfl⟩ ?_ (.inr ?_)
  · rw [afterTick_pool]
    exact connected
  · simp [heard, incoming, emits_of live stepped, read]

theorem canMove_idle {i k : Nat} {e : ChannelEnd} {c : Ptr} {frames : FramesT}
    (live : d.live k = some e) (idle : e.session.call = none)
    (working : (e.session.client.memory c).rcode = .working)
    (found : d.toClients[i]? = some (some k, frames)) (connected : d.pool.turns ≠ []) :
    CanMove pb map behaviour d := by
  have fired : d.step pb map (.recv k c 0 0) = some (d.setChannel k
      { e with session := ⟨e.session.client, some (recvCall c 0 0)⟩ }, []) := by
    simp [step, live, Session.step, idle]
  have live' := live_of (setChannel_self d k
    { e with session := ⟨e.session.client, some (recvCall c 0 0)⟩ }) (live_some live).2
  exact .after fired ⟨trivial, rfl, rfl⟩ (canMove_called live' rfl working found connected)

theorem iteration_late (call : RecvCall) (s : Client) :
    iteration call ⟨call.start + call.timeout + 1, .silent, .empty⟩ s = (s, .leave, []) := by
  unfold iteration
  split
  · rfl
  · have late : call.start + call.timeout + 1 - call.start > call.timeout := by omega
    exact if_pos late

/-- A call that is under way first runs into its timeout. -/
theorem canMove_read {i k : Nat} {e : ChannelEnd} {c : Ptr} {frames : FramesT}
    (live : d.live k = some e) (working : (e.session.client.memory c).rcode = .working)
    (found : d.toClients[i]? = some (some k, frames)) (connected : d.pool.turns ≠ []) :
    CanMove pb map behaviour d := by
  cases inside : e.session.call with
  | none => exact canMove_idle live inside working found connected
  | some call =>
    have fired : d.step pb map (.tick k (call.start + call.timeout + 1) .silent .empty) =
        some (d.setChannel k { e with session := ⟨e.session.client, none⟩ }, []) := by
      simp [step, live, Deployment.incoming, Session.step, inside, iteration_late, afterTick,
        Event.isConsumed]
    have live' := live_of (setChannel_self d k { e with session := ⟨e.session.client, none⟩ })
      (live_some live).2
    exact .after fired ⟨trivial, rfl, rfl⟩ (canMove_idle live' rfl working found connected)

end Moves

section Runs

theorem open_setChannel {k : Nat} {e : ChannelEnd} (isOpen : e.isOpen = true)
    (held : ∀ k e, d.channels k = some e → e.isOpen = true) (k' : Nat) (e' : ChannelEnd)
    (channel : (d.setChannel k e).channels k' = some e') : e'.isOpen = true := by
  by_cases own : k' = k
  · subst own
    exact Option.some.inj ((setChannel_self d k' e).symm.trans channel) ▸ isOpen
  · exact held k' e' ((setChannel_ne d e own).symm.trans channel)

/-- No channel is closed. -/
theorem run_open (run : Path (Fires (step pb map)) (start n) inputs events d)
    (lossless : ∀ input ∈ inputs, Lossless behaviour input) :
    ∀ k e, d.channels k = some e → e.isOpen = true := by
  have met : Path (Meeting (fun _ input => Lossless behaviour input) (Fires (step pb map)))
      (start n) inputs events d := run.meeting fun input member _ => lossless input member
  refine met.state_invariant (fun d => ∀ k e, d.channels k = some e → e.isOpen = true)
    (fun d input emitted next held ⟨quiet, fired⟩ => ?_) fun _ _ there => nomatch there
  cases input with
  | closed k => exact quiet.elim
  | loseReply i => exact quiet.elim
  | opened k identity =>
    obtain ⟨_, rfl, _⟩ := step_opened fired
    exact open_setChannel rfl held
  | send k c fullName request outcome =>
    obtain ⟨_, _, _, live, _, rfl, _⟩ := step_send fired
    exact open_setChannel (live_some live).2 held
  | recv k c timeout start =>
    obtain ⟨_, _, _, live, _, rfl, _⟩ := step_recv fired
    exact open_setChannel (live_some live).2 held
  | tick k now poll taking =>
    obtain ⟨_, _, live, _, ⟨rfl, _, _⟩ | ⟨_, _, _, rfl, _, _⟩⟩ := tick_cases fired
    · exact open_setChannel (live_some live).2 held
    · exact open_setChannel (live_some live).2 held
  | pool input =>
    obtain ⟨_, _, _, rfl⟩ := step_pool fired
    exact held
  | route i k =>
    obtain ⟨_, _, _, _, rfl, _⟩ := step_route fired
    exact held

/-- Only the requests of the channels come to the server. -/
theorem Faultless.arrivals (faultless : Faultless behaviour inputs)
    (run : Path (Fires (step pb map)) (start n) inputs events d) :
    ((serverTraffic pb map inputs n).filterMap Movement.arrival).length =
      (inputs.filterMap asks).length := by
  obtain ⟨clients, orders⟩ := run_brings run
  have all : ((serverTraffic pb map inputs n).filterMap Movement.arrival).filter
      (fun m => !m.stopOrder) = (serverTraffic pb map inputs n).filterMap Movement.arrival := by
    refine List.filter_eq_self.mpr fun m there => ?_
    cases order : m.stopOrder with
    | false => rfl
    | true =>
      have stops := orders m there order
      rw [faultless.served run m there] at stops
      cases stops
  have requests := congrArg List.length clients
  have asked := congrArg List.length (run_told run faultless).asked
  rw [all, List.length_map] at requests
  rw [List.length_map] at asked
  exact requests.trans asked

/-- A reply on its way can be routed to its channel, or read there. -/
theorem canMove_reply (run : Path (Fires (step pb map)) (start n) inputs events d)
    (faultless : Faultless behaviour inputs) (connected : d.pool.turns ≠ []) {m : Placed}
    {rest : List Placed} (there : d.toClients = m :: rest) : CanMove pb map behaviour d := by
  have told := run_told run faultless
  have opened := run_open run faultless.lossless
  have found : d.toClients[0]? = some m := by simp [there]
  obtain ⟨place, frames⟩ := m
  cases place with
  | none =>
    have mine : frames ∈ d.returning :=
      List.mem_filterMap.mpr ⟨_, List.mem_of_getElem? found, rfl⟩
    obtain ⟨replies, same, _, known⟩ := told.answers
    have among := read_known run faultless
    rw [same] at among
    obtain ⟨p, _, e, channel, rfl⟩ := (known _).mp
      (Multiset.mem_of_le among (Multiset.mem_add.mpr (.inr mine)))
    exact canMove_route (live_of channel (opened _ _ channel)) found connected
  | some k =>
    obtain ⟨e, channel⟩ := Option.ne_none_iff_exists'.mp
      ((run_returned run).placed k frames (List.mem_of_getElem? found))
    obtain ⟨⟨p, member, mine, reply⟩, fresh⟩ := reply_fresh run faultless told channel
      (List.mem_of_getElem? found)
    obtain ⟨e', channel', recorded⟩ := told.told p member
    rw [mine, channel] at channel'
    obtain rfl := Option.some.inj channel'
    have waits := recorded.tells.waiting fun read => fresh (reply ▸ read.1)
    exact canMove_read (live_of channel (opened _ _ channel)) waits.1 found connected

/-- No request can be passed on or worked on, and every reply has been read. -/
def AtEnd (pb : Protobuf Msg) (map : RpcMethodMapT) (d : Deployment) : Prop :=
  Pool.AtRest pb map d.pool ∧ d.toClients = []

/-- A run that goes on with the requests it has, in which nothing is lost. -/
structure Going (behaviour : Behaviour Msg) (requests : List Asked)
    (inputs : List (DeploymentInput Msg)) (d : Deployment) : Prop where
  faultless : Faultless behaviour inputs
  asked : inputs.filterMap asks = requests
  connected : d.pool.turns ≠ []

/-- As long as a message is with the server or on its way back, one can be moved. -/
theorem canMove (run : Path (Fires (step pb map)) (start n) inputs events d)
    (faultless : Faultless behaviour inputs) (connected : d.pool.turns ≠ [])
    (left' : ¬AtEnd pb map d) : CanMove pb map behaviour d := by
  cases back : d.toClients with
  | cons m rest => exact canMove_reply run faultless connected back
  | nil =>
    by_cases queued : ∃ j, (d.pool.workers j).queue ≠ []
    · obtain ⟨j, some'⟩ := queued
      obtain ⟨m, ms, queue⟩ := List.exists_cons_of_ne_nil some'
      exact canMove_work (Pool.serving_inLoop (pool_path run)
        (poolInputs_behave faultless.behaves) (faultless.served run) j) queue connected
    · cases front : d.pool.frontend with
      | cons m ms => exact canMove_deal front connected
      | nil =>
        have empty (j : Nat) : (d.pool.workers j).queue = [] := by
          by_contra some'
          exact queued ⟨j, some'⟩
        exact absurd ⟨Pool.atRest_of_empty front empty, back⟩ left'

theorem Faultless.moved_le (faultless : Faultless behaviour inputs)
    (run : Path (Fires (step pb map)) (start n) inputs events d) :
    moved pb map inputs n ≤ 4 * (inputs.filterMap asks).length := by
  rw [← faultless.arrivals run]
  exact Deployment.moved_le run faultless.behaves

/-- Where a message can be moved, fewer moves are left afterwards. -/
theorem Going.progress {requests : List Asked} (going : Going behaviour requests inputs d)
    (run : Path (Fires (step pb map)) (start n) inputs events d) (left' : ¬AtEnd pb map d) :
    ∃ more emitted next, Path (Fires (step pb map)) d more emitted next ∧
      Going behaviour requests (inputs ++ more) next ∧
      4 * requests.length - moved pb map (inputs ++ more) n <
        4 * requests.length - moved pb map inputs n := by
  obtain ⟨more, emitted, next, taken, quiet, connected, moves⟩ :=
    canMove run going.faultless going.connected left'
  have faultless := going.faultless.extend quiet
  have asked := (asks_quiet quiet).trans going.asked
  refine ⟨more, emitted, next, taken, ⟨faultless, asked, connected⟩, ?_⟩
  have bound := faultless.moved_le (run.append taken)
  have grown : moved pb map (inputs ++ more) n = moved pb map inputs n +
      (more.countP isMove + (along heard (step pb map) more d).length) := by
    simp only [moved, repliesRead, run.along_append, List.countP_append, List.length_append]
    omega
  rw [asked] at bound
  omega

/-- A worker can connect, if none has yet. -/
theorem can_connect (run : Path (Fires (step pb map)) (start n) inputs events d)
    (faultless : Faultless behaviour inputs) (threads : 0 < n) :
    ∃ more emitted next, Path (Fires (step pb map)) d more emitted next ∧
      (∀ input ∈ more, Quiet behaviour input) ∧ next.pool.turns ≠ [] := by
  by_cases connected : d.pool.turns = []
  · have path := pool_path run
    have started : d.pool.started = n :=
      path.state_invariant (fun p => p.started = n)
        (fun _ _ _ _ same fired => (Pool.step_frame fired).1.trans same) rfl
    have inLoop := Pool.serving_inLoop path (poolInputs_behave faultless.behaves)
      (faultless.served run) 0
    have fired : d.step pb map (.pool (.connect 0)) =
        some ({ d with pool := { d.pool with turns := [0] }, toClients := d.toClients }, []) := by
      simp [step, Pool.step, connected, started, threads, inLoop, messages]
    exact ⟨_, _, _, .single fired, by simp [Quiet, Lossless, Pool.Behaves, openedAs, asks],
      List.cons_ne_nil _ _⟩
  · exact ⟨[], [], d, .nil, List.forall_mem_nil _, connected⟩

end Runs

end Deployment

end Zqrpc
