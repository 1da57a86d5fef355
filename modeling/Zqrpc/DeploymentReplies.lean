import Zqrpc.Deployment
import Zqrpc.PoolAnswers

/-! Where every reply of a server goes: to the channel its first frame names, which reads it,
unless it is lost on the way. A request that has no reply yet is still with the server. -/
namespace Zqrpc

open Numeral Steps

def Event.read : Event → Option FramesT
  | .consumed frames => some frames
  | _ => none

theorem read_around (e : Event) (around : e.Around) : e.read = none := by
  cases e <;> first | rfl | exact around.elim

namespace Deployment

variable {Msg : Type}

/-- What a call at an open channel emits, with the identity of the channel. -/
def emits (d : Deployment) (k : Nat) (input : Input) : Option (Bytes × List Event) :=
  match d.live k with
  | none => none
  | some e => (e.session.step input).map fun result => (e.identity, result.2)

/-- The requests that leave a channel. -/
def departed (d : Deployment) : DeploymentInput Msg → List Packet
  | .send k c fullName request outcome =>
    match d.emits k (.send c fullName request outcome) with
    | none => []
    | some (identity, events) => departures k identity fullName request events
  | _ => []

/-- The messages a channel reads, behind its identity. -/
def heard (d : Deployment) : DeploymentInput Msg → List FramesT
  | .tick k now poll taking =>
    match d.incoming k taking with
    | none => []
    | some recv =>
      match d.emits k (.tick ⟨now, poll, recv⟩) with
      | none => []
      | some (identity, events) => (events.filterMap Event.read).map (identity :: ·)
  | _ => []

/-- A reply with the identity it was sent to in front, also when the ROUTER has stripped it. -/
def addressed (d : Deployment) : Placed → Option FramesT
  | (none, frames) => some frames
  | (some k, frames) => (d.channels k).map fun e => e.identity :: frames

/-- The replies that are gone with a channel that closes, or lost. -/
def lost (d : Deployment) : DeploymentInput Msg → List FramesT
  | .closed k => (d.toClients.filter fun m => m.1 = some k).filterMap d.addressed
  | .loseReply i => d.toClients[i]?.toList.filterMap d.addressed
  | _ => []

/-- The replies on their way. -/
def returning (d : Deployment) : Multiset FramesT := d.toClients.filterMap d.addressed

/-- What a step is for the server alone. -/
def poolInputs (d : Deployment) : DeploymentInput Msg → List (PoolInput Msg)
  | .send k c fullName request outcome =>
    match d.emits k (.send c fullName request outcome) with
    | none => []
    | some (identity, events) => (wires events).map (.arrive identity)
  | .pool input => [input]
  | _ => []

variable {pb : Protobuf Msg} {map : RpcMethodMapT} {d next : Deployment}
  {events : List (WorkerEvent Msg)}

theorem emits_of {k : Nat} {e : ChannelEnd} {session : Session} {input : Input}
    {emitted : List Event} (live : d.live k = some e)
    (stepped : e.session.step input = some (session, emitted)) :
    d.emits k input = some (e.identity, emitted) := by
  simp [emits, live, stepped]

section Server

/-- Messages that come in one after the other. -/
theorem arrive_path (identity : Bytes) (sent : List FramesT) (p : Pool) :
    Path (Fires (Pool.step pb map)) p (sent.map (.arrive identity)) []
      (arrive identity sent p) := by
  induction sent generalizing p with
  | nil =>
    have same : arrive identity [] p = p := by simp [arrive]
    rw [same]
    exact .nil
  | cons frames sent ih =>
    have first : p.step pb map (.arrive identity frames) =
        some (arrive identity [frames] p, []) := rfl
    have whole : arrive identity sent (arrive identity [frames] p) =
        arrive identity (frames :: sent) p := by
      simp [arrive]
    rw [← whole]
    exact .cons first (ih _)

theorem pool_step_path {input : DeploymentInput Msg}
    (fired : d.step pb map input = some (next, events)) :
    Path (Fires (Pool.step pb map)) d.pool (d.poolInputs input) events next.pool := by
  cases input with
  | send k c fullName request outcome =>
    obtain ⟨e, session, emitted, live, stepped, rfl, rfl⟩ := step_send fired
    simp only [poolInputs, emits_of live stepped]
    exact arrive_path e.identity (wires emitted) d.pool
  | pool input =>
    obtain ⟨p, _, stepped, rfl⟩ := step_pool fired
    exact .single stepped
  | opened k identity =>
    obtain ⟨_, rfl, rfl⟩ := step_opened fired
    exact .nil
  | closed k =>
    obtain ⟨_, _, _, rfl, rfl⟩ := step_closed fired
    exact .nil
  | recv k c timeout start =>
    obtain ⟨_, _, _, _, _, rfl, rfl⟩ := step_recv fired
    exact .nil
  | tick k now poll taking =>
    obtain ⟨e, _, session, emitted, _, _, _, rfl, rfl⟩ := step_tick fired
    have same : ((d.setChannel k { e with session }).afterTick taking emitted).pool = d.pool := by
      unfold afterTick
      split
      · split <;> rfl
      · rfl
    rw [same]
    exact .nil
  | route i k =>
    obtain ⟨_, _, _, _, rfl, rfl⟩ := step_route fired
    exact .nil
  | loseReply i =>
    obtain ⟨rfl, rfl⟩ := Prod.mk.inj (Option.some.inj fired)
    exact .nil

/-- The server runs as it does alone, on the messages of the channels. -/
theorem pool_path {n : Nat} {inputs : List (DeploymentInput Msg)}
    (run : Path (Fires (step pb map)) (start n) inputs events d) :
    Path (Fires (Pool.step pb map)) (Pool.start n) (along poolInputs (step pb map) inputs (start n))
      events d.pool := by
  induction run with
  | nil => exact .nil
  | snoc earlier last ih =>
    rw [earlier.along_snoc last]
    exact ih.append (pool_step_path last)

end Server

section Replies

variable {heards losts : List FramesT}

theorem addressed_setChannel {k : Nat} {e : ChannelEnd} (channel : d.channels k = some e)
    (e' : ChannelEnd) (same : e'.identity = e.identity) :
    (d.setChannel k e').addressed = d.addressed := by
  funext m
  obtain ⟨place, frames⟩ := m
  cases place with
  | none => rfl
  | some k' =>
    by_cases own : k' = k
    · simp [addressed, setChannel, own, channel, same]
    · simp [addressed, setChannel, own]

/-- The replies the workers have sent were read or lost, or are on their way to a channel
that is there. -/
structure Returned (events : List (WorkerEvent Msg)) (heards losts : List FramesT)
    (d : Deployment) : Prop where
  balance : (messages events : Multiset FramesT) = heards + losts + d.returning
  placed : ∀ k frames, (some k, frames) ∈ d.toClients → d.channels k ≠ none

/-- A channel whose identity stays is there for what was placed with it. -/
theorem placed_setChannel {k : Nat} {e : ChannelEnd}
    (placed : ∀ k frames, (some k, frames) ∈ d.toClients → d.channels k ≠ none) (k' : Nat)
    (frames : FramesT) (there : (some k', frames) ∈ d.toClients) :
    (d.setChannel k e).channels k' ≠ none := by
  by_cases own : k' = k
  · simp [setChannel, own]
  · simpa [setChannel, own] using placed k' frames there

/-- A step of a channel that reads nothing. -/
theorem Returned.of_channel {k : Nat} {e e' : ChannelEnd} (held : Returned events heards losts d)
    (channel : d.channels k = some e) (same : e'.identity = e.identity) (p : Pool) :
    Returned events heards losts { d.setChannel k e' with pool := p } := by
  refine ⟨?_, placed_setChannel held.placed⟩
  have still : Deployment.returning { d.setChannel k e' with pool := p } = d.returning := by
    change ((d.toClients.filterMap (d.setChannel k e').addressed : List FramesT) :
      Multiset FramesT) = _
    rw [addressed_setChannel channel e' same]
    rfl
  rw [still]
  exact held.balance

/-- One of the replies on their way, and the others. -/
theorem returning_eraseIdx {i : Nat} {m : Placed} (found : d.toClients[i]? = some m) :
    d.returning = ((d.addressed m).toList : Multiset FramesT) +
      ((d.toClients.eraseIdx i).filterMap d.addressed : List FramesT) := by
  obtain ⟨bound, rfl⟩ := List.getElem?_eq_some_iff.mp found
  rw [returning, ← Multiset.coe_eq_coe.mpr
    ((List.getElem_cons_eraseIdx_perm bound).filterMap d.addressed), Multiset.coe_add]
  cases addressed : d.addressed d.toClients[i] with
  | none => rw [List.filterMap_cons_none addressed]; rfl
  | some frames => rw [List.filterMap_cons_some addressed]; rfl

/-- An iteration of `ZRecvMethod` reads one of the replies of its channel, or none. -/
theorem tick_cases {k : Nat} {now : Int} {poll : PollResult} {taking : Taking}
    (fired : d.step pb map (.tick k now poll taking) = some (next, events)) :
    ∃ e session, d.live k = some e ∧ events = [] ∧
      ((next = d.setChannel k { e with session } ∧ session.client = e.session.client ∧
        d.heard (.tick k now poll taking : DeploymentInput Msg) = []) ∨
      ∃ i frames, d.toClients[i]? = some (some k, frames) ∧
        next = { d.setChannel k { e with session } with toClients := d.toClients.eraseIdx i } ∧
        d.heard (.tick k now poll taking : DeploymentInput Msg) = [e.identity :: frames] ∧
        ((∃ id c, Answers id frames ∧ id ≤ e.session.client.channel.nextreply ∧
          e.session.client.channel.replylist.lookup id = some c ∧
          session.client = e.session.client.ready id c (frames.getD 3 [])) ∨
        (∀ id c, Answers id frames → id ≤ e.session.client.channel.nextreply →
          e.session.client.channel.replylist.lookup id ≠ some c) ∧
          session.client = e.session.client)) := by
  obtain ⟨e, recv, session, emitted, live, incoming, stepped, rfl, rfl⟩ := step_tick fired
  refine ⟨e, session, live, rfl, ?_⟩
  simp only [heard, incoming, emits_of live stepped]
  obtain ⟨before, after, around, ⟨same, rfl⟩ | ⟨frames, received, rfl, changes⟩⟩ :=
    e.session.step_tick session _ emitted stepped
  · have quiet : (before ++ after).any Event.isConsumed = false := by
      rw [List.any_eq_false]
      intro event member
      have := around event member
      cases event <;> first | exact Bool.false_ne_true | exact this.elim
    left
    unfold afterTick
    rw [filterMap_around read_around around, quiet]
    exact ⟨rfl, same, rfl⟩
  · have read : (before ++ .consumed frames :: after).any Event.isConsumed = true := by
      simp [Event.isConsumed]
    right
    unfold afterTick
    rw [filterMap_consumed read_around frames around, if_pos read]
    obtain rfl : recv = .message frames := received
    cases taking with
    | empty => cases incoming
    | threw => cases incoming
    | packet i =>
      simp only [Deployment.incoming] at incoming
      split at incoming
      · cases incoming
      · rename_i place frames' found
        split at incoming
        · rename_i mine
          obtain rfl : frames' = frames := by simpa using incoming
          exact ⟨i, frames', mine ▸ found, rfl, rfl, changes⟩
        · cases incoming

theorem Returned.quiet (held : Returned events heards losts d)
    (balance : d.returning = next.returning)
    (placed : ∀ k frames, (some k, frames) ∈ next.toClients → next.channels k ≠ none) :
    Returned (events ++ []) (heards ++ []) (losts ++ []) next := by
  rw [List.append_nil, List.append_nil, List.append_nil]
  exact ⟨balance ▸ held.balance, placed⟩

theorem returned_closed (held : Returned events heards losts d) {k : Nat} {e : ChannelEnd}
    (live : d.live k = some e) :
    Returned events heards (losts ++ d.lost (.closed k : DeploymentInput Msg))
      { d.setChannel k { e with isOpen := false } with
        toClients := d.toClients.filter fun m => m.1 ≠ some k } := by
  have channel := (live_some live).1
  refine ⟨?_, fun k' frames there => placed_setChannel held.placed k' frames
    (List.mem_of_mem_filter there)⟩
  have split : d.returning = (d.lost (.closed k : DeploymentInput Msg) : Multiset FramesT) +
      ((d.toClients.filter fun m => m.1 ≠ some k).filterMap d.addressed : List FramesT) := by
    rw [returning, lost, Multiset.coe_add, ← List.filterMap_append]
    refine Multiset.coe_eq_coe.mpr (List.Perm.filterMap _ ?_)
    have whole := List.filter_append_perm (fun m : Placed => decide (m.1 = some k)) d.toClients
    simpa using whole.symm
  rw [held.balance, split, ← Multiset.coe_add, returning]
  change _ = (_ : Multiset FramesT) + ((List.filterMap
    (d.setChannel k { e with isOpen := false }).addressed _ : List FramesT) : Multiset FramesT)
  rw [addressed_setChannel channel { e with isOpen := false } rfl]
  abel

theorem returned_tick (held : Returned events heards losts d) {k : Nat} {now : Int}
    {poll : PollResult} {taking : Taking} {emitted : List (WorkerEvent Msg)}
    (fired : d.step pb map (.tick k now poll taking) = some (next, emitted)) :
    Returned (events ++ emitted)
      (heards ++ d.heard (.tick k now poll taking : DeploymentInput Msg)) losts next := by
  obtain ⟨e, session, live, rfl, ⟨rfl, _, quiet⟩ | ⟨i, frames, found, rfl, read, _⟩⟩ :=
    tick_cases fired
  · rw [quiet, List.append_nil, List.append_nil]
    exact @Returned.of_channel _ _ _ _ _ _ _ { e with session } held (live_some live).1 rfl d.pool
  · have channel := (live_some live).1
    rw [read, List.append_nil]
    refine ⟨?_, fun k' frames there => placed_setChannel held.placed k' frames
      (List.eraseIdx_subset there)⟩
    have mine : d.addressed (some k, frames) = some (e.identity :: frames) := by
      simp [addressed, channel]
    rw [held.balance, returning_eraseIdx found, mine, ← Multiset.coe_add, returning]
    change _ = (_ : Multiset FramesT) + (((d.toClients.eraseIdx i).filterMap
      (d.setChannel k { e with session }).addressed : List FramesT) : Multiset FramesT)
    rw [addressed_setChannel channel { e with session } rfl]
    simp only [Option.toList_some]
    abel

theorem returned_route (held : Returned events heards losts d) {i k : Nat}
    {emitted : List (WorkerEvent Msg)}
    (fired : d.step pb map (.route i k) = some (next, emitted)) :
    Returned (events ++ emitted) heards losts next := by
  obtain ⟨frames, e, found, live, rfl, rfl⟩ := step_route fired
  have channel := (live_some live).1
  have bound := (List.getElem?_eq_some_iff.mp found).1
  have one : ((d.addressed (none, e.identity :: frames)).toList : Multiset FramesT) =
      (d.addressed (some k, frames)).toList := by
    simp [addressed, channel]
  have same : d.returning =
      ((d.toClients.set i (some k, frames)).filterMap d.addressed : List FramesT) := by
    have routed : (d.toClients.set i (some k, frames))[i]? = some (some k, frames) := by
      simp [bound]
    have later := @returning_eraseIdx { d with toClients := d.toClients.set i (some k, frames) } _ _
      routed
    rw [List.eraseIdx_set_eq] at later
    rw [returning_eraseIdx found, one]
    exact later.symm
  rw [List.append_nil]
  refine ⟨held.balance.trans (congrArg _ same), fun k' frames' there => ?_⟩
  rcases List.mem_or_eq_of_mem_set there with before | now
  · exact held.placed k' frames' before
  · obtain ⟨own, _⟩ := Prod.mk.inj now
    rw [Option.some.inj own, channel]
    exact Option.some_ne_none e

theorem returned_loseReply (held : Returned events heards losts d) (i : Nat) :
    Returned events heards (losts ++ d.lost (.loseReply i : DeploymentInput Msg))
      { d with toClients := d.toClients.eraseIdx i } := by
  refine ⟨?_, fun k frames there => held.placed k frames (List.eraseIdx_subset there)⟩
  rw [held.balance, ← Multiset.coe_add, lost]
  cases found : d.toClients[i]? with
  | none =>
    have same : d.toClients.eraseIdx i = d.toClients :=
      List.eraseIdx_of_length_le (List.getElem?_eq_none_iff.mp found)
    rw [same]
    simp [returning]
  | some m =>
    rw [returning_eraseIdx found, returning]
    change _ = (_ : Multiset FramesT) +
      (((d.toClients.eraseIdx i).filterMap d.addressed : List FramesT) : Multiset FramesT)
    have lone : ([m].filterMap d.addressed : List FramesT) = (d.addressed m).toList := by
      cases there : d.addressed m <;> simp [there]
    rw [Option.toList_some, lone]
    abel

theorem returned_step (held : Returned events heards losts d) {input : DeploymentInput Msg}
    {emitted : List (WorkerEvent Msg)} (fired : d.step pb map input = some (next, emitted)) :
    Returned (events ++ emitted) (heards ++ d.heard input) (losts ++ d.lost input) next := by
  cases input with
  | opened k identity =>
    obtain ⟨fresh, rfl, rfl⟩ := step_opened fired
    refine held.quiet (congrArg Multiset.ofList (List.filterMap_congr fun m there => ?_))
      (placed_setChannel held.placed)
    obtain ⟨place, frames⟩ := m
    cases place with
    | none => rfl
    | some k' =>
      have other : k' ≠ k := by
        rintro rfl
        exact held.placed k' frames there fresh
      simp [addressed, setChannel, other]
  | closed k =>
    obtain ⟨e, live, _, rfl, rfl⟩ := step_closed fired
    rw [List.append_nil]
    exact (List.append_nil heards).symm ▸ returned_closed held live
  | send k c fullName request outcome =>
    obtain ⟨e, session, emitted, live, _, rfl, rfl⟩ := step_send fired
    have still := @Returned.of_channel _ _ _ _ _ _ _ { e with session } held (live_some live).1 rfl
      (arrive e.identity (wires emitted) d.pool)
    simpa [heard, lost] using still
  | recv k c timeout start =>
    obtain ⟨e, session, _, live, _, rfl, rfl⟩ := step_recv fired
    rw [List.append_nil, show d.heard (.recv k c timeout start : DeploymentInput Msg) = [] from rfl,
      show d.lost (.recv k c timeout start : DeploymentInput Msg) = [] from rfl, List.append_nil,
      List.append_nil]
    exact @Returned.of_channel _ _ _ _ _ _ _ { e with session } held (live_some live).1 rfl d.pool
  | tick k now poll taking =>
    rw [show d.lost (.tick k now poll taking : DeploymentInput Msg) = [] from rfl, List.append_nil]
    exact returned_tick held fired
  | pool input =>
    obtain ⟨p, _, _, rfl⟩ := step_pool fired
    rw [show d.lost (.pool input) = [] from rfl, show d.heard (.pool input) = [] from rfl,
      List.append_nil, List.append_nil]
    refine ⟨?_, fun k frames there => ?_⟩
    · have new : ((messages emitted).map fun frames => ((none, frames) : Placed)).filterMap
          d.addressed = messages emitted := by
        rw [List.filterMap_map]
        exact List.filterMap_some
      rw [messages_append, ← Multiset.coe_add, held.balance, returning, returning]
      change _ = (_ : Multiset FramesT) + (((d.toClients ++ (messages emitted).map
        (none, ·)).filterMap d.addressed : List FramesT) : Multiset FramesT)
      rw [List.filterMap_append, new, ← Multiset.coe_add]
      abel
    · rcases List.mem_append.mp there with before | now
      · exact held.placed k frames before
      · obtain ⟨_, _, same⟩ := List.mem_map.mp now
        cases same
  | route i k =>
    rw [show d.lost (.route i k : DeploymentInput Msg) = [] from rfl,
      show d.heard (.route i k : DeploymentInput Msg) = [] from rfl, List.append_nil,
      List.append_nil]
    exact returned_route held fired
  | loseReply i =>
    obtain ⟨rfl, rfl⟩ := Prod.mk.inj (Option.some.inj fired)
    rw [List.append_nil, show d.heard (.loseReply i : DeploymentInput Msg) = [] from rfl,
      List.append_nil]
    exact returned_loseReply held i

end Replies

section Requests

variable (pb map) (inputs : List (DeploymentInput Msg)) (n : Nat)

/-- The requests the channels have sent. -/
def requested : List Packet := along departed (step pb map) inputs (start n)

/-- The replies the channels have read. -/
def repliesRead : List FramesT := along heard (step pb map) inputs (start n)

def repliesLost : List FramesT := along lost (step pb map) inputs (start n)

/-- What moved in the server. -/
def serverTraffic : List Movement :=
  Pool.traffic pb map (along poolInputs (step pb map) inputs (start n)) n

end Requests

section Runs

variable {behaviour : Behaviour Msg} {n : Nat} {inputs : List (DeploymentInput Msg)}

theorem run_returned (run : Path (Fires (step pb map)) (start n) inputs events d) :
    Returned events (repliesRead pb map inputs n) (repliesLost pb map inputs n) d := by
  induction run with
  | nil => exact ⟨rfl, fun _ _ there => (nomatch there)⟩
  | snoc earlier last ih =>
    rw [repliesRead, repliesLost, earlier.along_snoc last, earlier.along_snoc last]
    exact returned_step ih last

theorem serverTraffic_snoc {input : DeploymentInput Msg} {emitted : List (WorkerEvent Msg)}
    (run : Path (Fires (step pb map)) (start n) inputs events d)
    (fired : d.step pb map input = some (next, emitted)) :
    serverTraffic pb map (inputs ++ [input]) n = serverTraffic pb map inputs n ++
      along Pool.moves (Pool.step pb map) (d.poolInputs input) d.pool := by
  rw [serverTraffic, run.along_snoc fired]
  exact (pool_path run).along_append _

theorem arrive_moves (identity : Bytes) (sent : List FramesT) (p : Pool) :
    along Pool.moves (Pool.step pb map) (sent.map (.arrive identity)) p =
      sent.map fun frames => .arrived ⟨false, identity :: frames⟩ := by
  induction sent generalizing p with
  | nil => rfl
  | cons frames sent ih => exact congrArg (_ :: ·) (ih _)

theorem departures_wires {k : Nat} {identity fullName : Bytes} {request : Serialized}
    {outcome : Nat → SendOutcome} {c : Ptr} {s session : Session} {emitted : List Event}
    (stepped : s.step (.send c fullName request outcome) = some (session, emitted)) :
    (departures k identity fullName request emitted).map Packet.frames =
      (wires emitted).map (identity :: ·) := by
  obtain ⟨_, _, ⟨buffer, rfl, _, _, rfl⟩ | ⟨_, rfl, _⟩⟩ :=
    s.step_send session c fullName request outcome emitted stepped
  · rfl
  · rfl

/-- What comes to the frontend in a step: what the step lets out of a channel, or stop orders. -/
def Brings (d : Deployment) (input : DeploymentInput Msg) (came : List Inbound) : Prop :=
  (came.filter fun m => !m.stopOrder) = (d.departed input).map (fun p => ⟨false, p.frames⟩) ∧
  ∀ m ∈ came, m.stopOrder = true → isStop m.frames = true

theorem step_brings {input : DeploymentInput Msg}
    (fired : d.step pb map input = some (next, events)) :
    d.Brings input ((along Pool.moves (Pool.step pb map) (d.poolInputs input) d.pool).filterMap
      Movement.arrival) := by
  cases input with
  | send k c fullName request outcome =>
    obtain ⟨e, session, emitted, live, stepped, rfl, rfl⟩ := step_send fired
    have same : (departures k e.identity fullName request emitted).map
        (fun p => (⟨false, p.frames⟩ : Inbound)) =
        (wires emitted).map fun frames => ⟨false, e.identity :: frames⟩ := by
      have came := congrArg (List.map fun frames => (⟨false, frames⟩ : Inbound))
        (@departures_wires k e.identity _ _ _ _ _ _ _ stepped)
      simpa [Function.comp_def] using came
    have came : ((wires emitted).map fun frames =>
        Movement.arrived ⟨false, e.identity :: frames⟩).filterMap Movement.arrival =
        (wires emitted).map fun frames => ⟨false, e.identity :: frames⟩ := by
      rw [List.filterMap_map, ← List.filterMap_eq_map]
      rfl
    simp only [Brings, departed, poolInputs, emits_of live stepped, arrive_moves, came, same]
    constructor
    · exact List.filter_eq_self.mpr (by simp)
    · simp
  | pool input =>
    obtain ⟨p, other, stepped, rfl⟩ := step_pool fired
    have one : along Pool.moves (Pool.step pb map) [input] d.pool = Pool.moves d.pool input := by
      simp [along, stepped]
    have quiet (silent : (Pool.moves d.pool input).filterMap Movement.arrival = []) :
        d.Brings (.pool input) ((Pool.moves d.pool input).filterMap Movement.arrival) := by
      rw [silent]
      exact ⟨rfl, List.forall_mem_nil _⟩
    rw [poolInputs, one]
    cases input with
    | arrive identity frames => exact absurd rfl (other identity frames)
    | workerStop =>
      have orders : (Pool.moves d.pool (.workerStop : PoolInput Msg)).filterMap Movement.arrival =
          workerStop d.pool.started := Pool.filterMap_map_some (fun _ => rfl) _
      rw [orders]
      constructor
      · exact List.filter_eq_nil_iff.mpr (by simp [workerStop])
      · intro m there _
        rw [List.eq_of_mem_replicate there]
        rfl
    | deal i =>
      refine quiet ?_
      obtain ⟨m, j, rest, found, turn, rfl⟩ := Pool.step_deal stepped
      simp [Pool.moves, found, turn, Movement.arrival]
    | work j interrupted handler reply errorReply =>
      cases interrupted with
      | true => exact quiet rfl
      | false => exact quiet (Pool.filterMap_map_none (fun _ => rfl) _)
    | close j => exact quiet (Pool.filterMap_map_none (fun _ => rfl) _)
    | connect j => exact quiet rfl
  | _ => exact ⟨rfl, List.forall_mem_nil _⟩

/-- The clients' messages that came to the frontend are the requests of the channels. -/
theorem run_brings (run : Path (Fires (step pb map)) (start n) inputs events d) :
    (((serverTraffic pb map inputs n).filterMap Movement.arrival).filter fun m => !m.stopOrder) =
      (requested pb map inputs n).map (fun p => ⟨false, p.frames⟩) ∧
    ∀ m ∈ (serverTraffic pb map inputs n).filterMap Movement.arrival,
      m.stopOrder = true → isStop m.frames = true := by
  induction run with
  | nil => exact ⟨rfl, List.forall_mem_nil _⟩
  | snoc earlier last ih =>
    obtain ⟨clients, orders⟩ := step_brings last
    rw [serverTraffic_snoc earlier last, requested, earlier.along_snoc last, List.filterMap_append,
      List.filter_append, List.map_append]
    refine ⟨congrArg₂ _ ih.1 clients, fun m there order => ?_⟩
    rcases List.mem_append.mp there with before | now
    · exact ih.2 m before order
    · exact orders m now order

/-- The replies to messages, in whatever order. -/
def answered (pb : Protobuf Msg) (map : RpcMethodMapT) (behaviour : Behaviour Msg)
    (ms : Multiset Inbound) : Multiset FramesT :=
  ms.bind fun m => answer pb map (m.frames, behaviour)

theorem answered_coe (ms : List Inbound) :
    answered pb map behaviour ms = Pool.answers pb map behaviour ms :=
  Multiset.coe_bind ..

theorem answered_add (front back : Multiset Inbound) :
    answered pb map behaviour (front + back) =
      answered pb map behaviour front + answered pb map behaviour back :=
  Multiset.add_bind ..

theorem answers_filter {ms : List Inbound}
    (orders : ∀ m ∈ ms, m.stopOrder = true → isStop m.frames = true) :
    Pool.answers pb map behaviour (ms.filter fun m => !m.stopOrder) =
      Pool.answers pb map behaviour ms := by
  induction ms with
  | nil => rfl
  | cons m ms ih =>
    have rest := ih fun m' there => orders m' (List.mem_cons_of_mem m there)
    cases order : m.stopOrder with
    | true =>
      have silent := @Pool.answer_stop _ pb map behaviour _ (orders m List.mem_cons_self order)
      rw [List.filter_cons_of_neg (by simp [order]), rest]
      simp [Pool.answers, silent]
    | false =>
      rw [List.filter_cons_of_pos (by simp [order])]
      exact congrArg (_ ++ ·) rest

/-- The handlers of the workers return or throw a `ZError`, and their sends accept every frame. -/
theorem poolInputs_behave
    (behaves : ∀ input, .pool input ∈ inputs → Pool.Behaves behaviour input)
    (input : PoolInput Msg) (member : input ∈ along poolInputs (step pb map) inputs (start n)) :
    Pool.Behaves behaviour input := by
  obtain ⟨origin, there, d, made⟩ := mem_along member
  cases origin with
  | pool input' =>
    obtain rfl := List.mem_singleton.mp made
    exact behaves input there
  | send k c fullName request outcome =>
    simp only [poolInputs] at made
    split at made
    · cases made
    · obtain ⟨_, _, rfl⟩ := List.mem_map.mp made
      trivial
  | _ => cases made

/-- The replies to the messages at the frontend are those to the requests of the channels. -/
theorem requested_answers (run : Path (Fires (step pb map)) (start n) inputs events d) :
    ((requested pb map inputs n).flatMap fun p => answer pb map (p.frames, behaviour)) =
      Pool.answers pb map behaviour
        ((serverTraffic pb map inputs n).filterMap Movement.arrival) := by
  obtain ⟨clients, orders⟩ := run_brings run
  rw [← answers_filter orders, clients, Pool.answers, List.flatMap_map]

/-- Two callers, whose requests cross in the server; the second asks for no method. -/
def twoCallers : List (DeploymentInput Bytes) :=
  [.opened 0 (ascii "t1"), .opened 1 (ascii "t2"), .pool (.connect 0), .pool (.connect 1),
    .send 0 0 (ascii "m") (.bytes [1]) acceptAll, .send 1 0 (ascii "none") (.bytes [2]) acceptAll,
    .recv 0 0 100 0, .recv 1 0 100 0, .pool (.deal 1), .pool (.deal 0),
    .pool (.work 1 false echo acceptAll acceptAll), .pool (.work 0 false echo acceptAll acceptAll),
    .route 1 1, .route 0 0, .tick 0 0 .readable (.packet 0), .tick 1 0 .readable (.packet 0)]

theorem twoCallers_behave (input : PoolInput Bytes) (member : .pool input ∈ twoCallers) :
    Pool.Behaves (fun _ request => .ok request) input := by
  simp only [twoCallers, List.mem_cons, DeploymentInput.pool.injEq, reduceCtorEq, false_or,
    List.not_mem_nil, or_false] at member
  rcases member with rfl | rfl | rfl | rfl | rfl | rfl
  all_goals simp [Pool.Behaves, Behaviour.handler, echo, funext_iff]

end Runs

end Deployment

end Zqrpc
