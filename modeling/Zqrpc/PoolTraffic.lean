import Zqrpc.RoundRobin
import Zqrpc.WorkerOperator
import Zqrpc.CloseReturns

/-! Where every message of a server goes: to the frontend, through the proxy to one worker,
and into an iteration of its loop, unless the worker closes its socket first. -/
namespace Zqrpc

open Numeral Steps

variable {Msg : Type} {pb : Protobuf Msg} {map : RpcMethodMapT}

inductive Movement where
  /-- a message came to the frontend -/
  | arrived (m : Inbound)
  | dealt (j : Nat) (m : Inbound)
  /-- an iteration of worker `j` began with this message -/
  | received (j : Nat) (m : Inbound)
  /-- worker `j` closed its socket with this message in it -/
  | dropped (j : Nat) (m : Inbound)

def Movement.arrival : Movement → Option Inbound
  | .arrived m => some m
  | _ => none

def Movement.dealing : Movement → Option Inbound
  | .dealt _ m => some m
  | _ => none

def Movement.dealtTo (j : Nat) : Movement → Option Inbound
  | .dealt i m => if i = j then some m else none
  | _ => none

def Movement.receivedBy (j : Nat) : Movement → Option Inbound
  | .received i m => if i = j then some m else none
  | _ => none

def Movement.droppedBy (j : Nat) : Movement → Option Inbound
  | .dropped i m => if i = j then some m else none
  | _ => none

namespace Pool

def moves (p : Pool) : PoolInput Msg → List Movement
  | .arrive identity frames => [.arrived ⟨false, identity :: frames⟩]
  | .workerStop => (workerStop p.started).map .arrived
  | .deal i =>
    match p.frontend[i]?, p.turns with
    | some m, j :: _ => [.dealt j m]
    | _, _ => []
  | .work j interrupted _ _ _ =>
    if interrupted then [] else (p.workers j).queue.head?.toList.map (.received j)
  | .close j => (p.workers j).queue.map (.dropped j)
  | .connect _ => []

/-- What moved in a run of a server with `n` workers. -/
def traffic (pb : Protobuf Msg) (map : RpcMethodMapT) (inputs : List (PoolInput Msg)) (n : Nat) :
    List Movement :=
  along moves (step pb map) inputs (start n)

/-- The messages worker `j` has begun with end in a stop order, and no other is one. -/
def StoppedBy (received : List Inbound) : Prop :=
  ∃ front stop, received = front ++ [stop] ∧ (∀ m ∈ front, isStop m.frames = false) ∧
    isStop stop.frames = true

/-- What has moved tells where every message is, and what each worker has done with those
that were dealt to it. -/
structure Accounted (past : List Movement) (p : Pool) : Prop where
  arrived : (past.filterMap Movement.arrival).Perm
    (p.frontend ++ past.filterMap Movement.dealing)
  inOrder : ∀ j, past.filterMap (Movement.dealtTo j) =
    past.filterMap (Movement.receivedBy j) ++
      (past.filterMap (Movement.droppedBy j) ++ (p.workers j).queue)
  gone : ∀ j, past.filterMap (Movement.droppedBy j) ≠ [] →
    ¬(p.workers j).worker.InLoop ∧ j ∉ p.turns
  serving : ∀ j, (p.workers j).worker.InLoop →
    ∀ m ∈ past.filterMap (Movement.receivedBy j), isStop m.frames = false
  stopped : ∀ j, (p.workers j).worker.Ended →
    StoppedBy (past.filterMap (Movement.receivedBy j))
  nodup : p.turns.Nodup

section Steps

variable {past : List Movement} {p next : Pool} {events : List (WorkerEvent Msg)}

theorem step_work_events {j : Nat} {interrupted : Bool} {handler : Handler Msg}
    {reply errorReply : Nat → SendOutcome} {recv : RecvResult} {queue : List Inbound}
    (fired : p.step pb map (.work j interrupted handler reply errorReply) = some (next, events))
    (received : (p.workers j).receive interrupted = some (recv, queue)) :
    events = ((p.workers j).worker.iteration pb ⟨map, false⟩
      ⟨recv, handler, reply, errorReply⟩).2 := by
  simp only [step, received] at fired
  split at fired
  · exact (Prod.mk.inj (Option.some.inj fired)).2.symm
  · cases fired

/-- Only an iteration of a worker has events. -/
theorem step_quiet {input : PoolInput Msg}
    (other : ∀ j interrupted handler reply errorReply,
      input ≠ .work j interrupted handler reply errorReply)
    (fired : p.step pb map input = some (next, events)) : events = [] := by
  cases input with
  | work j interrupted handler reply errorReply =>
    exact absurd rfl (other j interrupted handler reply errorReply)
  | arrive identity frames => exact (Prod.mk.inj (Option.some.inj fired)).2.symm
  | _ =>
    simp only [step] at fired
    split at fired
    all_goals first
      | exact (Prod.mk.inj (Option.some.inj fired)).2.symm
      | cases fired

theorem filterMap_map_none {note : Movement → Option Inbound} {made : Inbound → Movement}
    (silent : ∀ m, note (made m) = none) (ms : List Inbound) :
    (ms.map made).filterMap note = [] := by
  rw [List.filterMap_map, List.filterMap_eq_nil_iff]
  exact fun m _ => silent m

theorem filterMap_map_some {note : Movement → Option Inbound} {made : Inbound → Movement}
    (noted : ∀ m, note (made m) = some m) (ms : List Inbound) :
    (ms.map made).filterMap note = ms := by
  rw [List.filterMap_map, show note ∘ made = some from funext noted, List.filterMap_some]

/-- A step that brings messages to the frontend. -/
theorem Accounted.arrive (held : Accounted past p) (ms : List Inbound) (stopping : Bool) :
    Accounted (past ++ ms.map .arrived)
      { p with frontend := p.frontend ++ ms, stopping } := by
  constructor
  · rw [List.filterMap_append, List.filterMap_append, filterMap_map_some (fun _ => rfl),
      filterMap_map_none (fun _ => rfl), List.append_nil, List.append_assoc]
    refine (held.arrived.append_right ms).trans ?_
    rw [List.append_assoc]
    exact List.perm_append_comm.append_left _
  · intro j
    simp only [List.filterMap_append]
    rw [filterMap_map_none (fun _ => rfl), filterMap_map_none (fun _ => rfl),
      filterMap_map_none (fun _ => rfl)]
    simpa using held.inOrder j
  · intro j
    rw [List.filterMap_append, filterMap_map_none (fun _ => rfl), List.append_nil]
    exact held.gone j
  · intro j
    rw [List.filterMap_append, filterMap_map_none (fun _ => rfl), List.append_nil]
    exact held.serving j
  · intro j
    rw [List.filterMap_append, filterMap_map_none (fun _ => rfl), List.append_nil]
    exact held.stopped j
  · exact held.nodup

theorem accounted_connect (held : Accounted past p) {j : Nat}
    (fired : p.step pb map (.connect j) = some (next, events)) : Accounted past next := by
  have nodup := nodup_step held.nodup fired
  obtain ⟨⟨_, _, inLoop⟩, rfl⟩ := step_connect fired
  refine ⟨held.arrived, held.inOrder, fun i dropped => ?_, held.serving, held.stopped, nodup⟩
  obtain ⟨left', absent⟩ := held.gone i dropped
  refine ⟨left', fun member => ?_⟩
  rcases List.mem_append.mp member with before | last
  · exact absent before
  · rw [List.mem_singleton.mp last] at left'
    exact left' inLoop

theorem accounted_deal (held : Accounted past p) {i : Nat}
    (fired : p.step pb map (.deal i) = some (next, events)) :
    Accounted (past ++ moves p (.deal i : PoolInput Msg)) next := by
  have nodup := nodup_step held.nodup fired
  obtain ⟨m, a, rest, found, turn, rfl⟩ := step_deal fired
  have moved : moves p (.deal i : PoolInput Msg) = [.dealt a m] := by
    simp [moves, found, turn]
  rw [moved]
  have turns (j : Nat) : j ∈ rest ++ [a] ↔ j ∈ p.turns := by
    rw [turn]
    exact (List.perm_append_singleton a rest).mem_iff
  have worker (j : Nat) : ((p.setWorker a { p.workers a with
      queue := (p.workers a).queue ++ [m] }).workers j).worker = (p.workers j).worker := by
    by_cases same : j = a
    · rw [same, setWorker_self]
    · rw [setWorker_ne p _ same]
  constructor
  · obtain ⟨bound, rfl⟩ := List.getElem?_eq_some_iff.mp found
    simp only [List.filterMap_append, List.filterMap_cons, List.filterMap_nil, Movement.arrival,
      Movement.dealing, List.append_nil]
    refine held.arrived.trans ?_
    rw [← List.append_assoc]
    refine ((List.getElem_cons_eraseIdx_perm bound).symm.append_right _).trans ?_
    exact (List.perm_append_singleton _ _).symm
  · intro j
    have before := held.inOrder j
    simp only [List.filterMap_append, List.filterMap_cons, List.filterMap_nil, Movement.dealtTo,
      Movement.receivedBy, Movement.droppedBy, List.append_nil]
    by_cases same : j = a
    · subst same
      rw [before, setWorker_self]
      simp
    · rw [setWorker_ne p _ same, if_neg (Ne.symm same)]
      simpa using before
  · intro j
    simp only [List.filterMap_append, List.filterMap_cons, List.filterMap_nil, Movement.droppedBy,
      List.append_nil, turns]
    rw [worker]
    exact held.gone j
  · intro j
    simp only [List.filterMap_append, List.filterMap_cons, List.filterMap_nil,
      Movement.receivedBy, List.append_nil]
    rw [worker]
    exact held.serving j
  · intro j
    simp only [List.filterMap_append, List.filterMap_cons, List.filterMap_nil,
      Movement.receivedBy, List.append_nil]
    rw [worker]
    exact held.stopped j
  · exact nodup

/-- An iteration whose receive throws leaves everything where it is. -/
theorem accounted_interrupted (held : Accounted past p) {j : Nat} {round : Round Msg}
    (taken : round.recv = .threw) (inLoop : (p.workers j).worker.InLoop) :
    Accounted past (p.setWorker j
      ⟨((p.workers j).worker.iteration pb ⟨map, false⟩ round).1, (p.workers j).queue⟩) := by
  have stays : ((p.workers j).worker.iteration pb ⟨map, false⟩ round).1 =
      { (p.workers j).worker with frames := [] } := by
    simp [Worker.iteration, taken]
  rw [stays]
  have same (i : Nat) :
      ((p.setWorker j ⟨{ (p.workers j).worker with frames := [] }, (p.workers j).queue⟩).workers
          i).worker.InLoop ↔ (p.workers i).worker.InLoop := by
    by_cases own : i = j
    · rw [own, setWorker_self]
      rfl
    · rw [setWorker_ne p _ own]
  refine ⟨held.arrived, fun i => ?_, fun i dropped => ?_, fun i inside => ?_, fun i ended => ?_,
    held.nodup⟩
  · by_cases own : i = j
    · rw [own, setWorker_self]
      exact held.inOrder j
    · rw [setWorker_ne p _ own]
      exact held.inOrder i
  · rw [same]
    exact held.gone i dropped
  · exact held.serving i ((same i).mp inside)
  · by_cases own : i = j
    · rw [own, setWorker_self] at ended
      exact absurd ended inLoop.not_ended
    · rw [setWorker_ne p _ own] at ended
      exact held.stopped i ended

/-- An iteration takes the first message of its queue. -/
theorem accounted_received (held : Accounted past p) {j : Nat} {round : Round Msg} {m : Inbound}
    {queue : List Inbound} (head : (p.workers j).queue = m :: queue)
    (taken : round.recv = .message m.frames) (inLoop : (p.workers j).worker.InLoop) :
    Accounted (past ++ [.received j m]) (p.setWorker j
      ⟨((p.workers j).worker.iteration pb ⟨map, false⟩ round).1, queue⟩) := by
  have ends := iteration_ended pb ⟨map, false⟩ round (p.workers j).worker inLoop
  have kept : past.filterMap (Movement.droppedBy j) = [] := by
    by_contra dropped
    exact (held.gone j dropped).1 inLoop
  have receivedBy (i : Nat) : (past ++ [Movement.received j m]).filterMap (Movement.receivedBy i) =
      past.filterMap (Movement.receivedBy i) ++ if j = i then [m] else [] := by
    rw [List.filterMap_append]
    by_cases own : j = i <;> simp [Movement.receivedBy, own]
  constructor
  · simp only [List.filterMap_append, List.filterMap_cons, List.filterMap_nil, Movement.arrival,
      Movement.dealing, List.append_nil]
    exact held.arrived
  · intro i
    have before := held.inOrder i
    rw [receivedBy]
    simp only [List.filterMap_append, List.filterMap_cons, List.filterMap_nil, Movement.dealtTo,
      Movement.droppedBy, List.append_nil]
    by_cases own : i = j
    · subst own
      rw [before, setWorker_self, head, kept]
      simp
    · rw [setWorker_ne p _ own, if_neg (Ne.symm own), before]
      simp
  · intro i
    simp only [List.filterMap_append, List.filterMap_cons, List.filterMap_nil, Movement.droppedBy,
      List.append_nil]
    by_cases own : i = j
    · rw [own, kept]
      exact fun none' => absurd rfl none'
    · rw [setWorker_ne p _ own]
      exact held.gone i
  · intro i inside m' member
    rw [receivedBy] at member
    by_cases own : i = j
    · subst own
      rw [setWorker_self] at inside
      rw [if_pos rfl] at member
      rcases List.mem_append.mp member with before | now
      · exact held.serving i inLoop m' before
      · rw [List.mem_singleton.mp now, Bool.eq_false_iff]
        exact fun stop => inside.not_ended (ends.mpr ⟨m.frames, taken, stop⟩)
    · rw [setWorker_ne p _ own] at inside
      rw [if_neg (Ne.symm own), List.append_nil] at member
      exact held.serving i inside m' member
  · intro i ended
    rw [receivedBy]
    by_cases own : i = j
    · subst own
      rw [setWorker_self] at ended
      obtain ⟨frames, taken', stop⟩ := ends.mp ended
      obtain rfl : m.frames = frames := by simpa [taken] using taken'
      exact ⟨_, m, by rw [if_pos rfl], held.serving i inLoop, stop⟩
    · rw [setWorker_ne p _ own] at ended
      rw [if_neg (Ne.symm own), List.append_nil]
      exact held.stopped i ended
  · exact held.nodup

theorem accounted_work (held : Accounted past p) {j : Nat} {interrupted : Bool}
    {handler : Handler Msg} {reply errorReply : Nat → SendOutcome}
    (fired : p.step pb map (.work j interrupted handler reply errorReply) = some (next, events)) :
    Accounted (past ++ moves p (.work j interrupted handler reply errorReply)) next := by
  obtain ⟨recv, queue, received, inLoop, rfl⟩ := step_work fired
  cases interrupted with
  | true =>
    obtain ⟨rfl, rfl⟩ := Prod.mk.inj (Option.some.inj received)
    rw [moves, if_pos rfl, List.append_nil]
    exact accounted_interrupted held rfl inLoop
  | false =>
    cases head : (p.workers j).queue with
    | nil => simp [PoolWorker.receive, head] at received
    | cons m rest =>
      simp only [PoolWorker.receive, head, Bool.false_eq_true, if_false] at received
      obtain ⟨rfl, rfl⟩ := Prod.mk.inj (Option.some.inj received)
      have moved : moves p (.work j false handler reply errorReply) = [.received j m] := by
        simp [moves, head]
      rw [moved]
      exact accounted_received held head rfl inLoop

theorem accounted_close (held : Accounted past p) {j : Nat}
    (fired : p.step pb map (.close j) = some (next, events)) :
    Accounted (past ++ moves p (.close j : PoolInput Msg)) next := by
  obtain ⟨left', rfl⟩ := step_close fired
  have droppedBy (i : Nat) :
      (past ++ moves p (.close j : PoolInput Msg)).filterMap (Movement.droppedBy i) =
        past.filterMap (Movement.droppedBy i) ++ if j = i then (p.workers j).queue else [] := by
    rw [List.filterMap_append, moves]
    by_cases own : j = i
    · rw [filterMap_map_some fun m => by rw [Movement.droppedBy, if_pos own], if_pos own]
    · rw [filterMap_map_none fun m => by rw [Movement.droppedBy, if_neg own], if_neg own]
  have worker (i : Nat) : ((p.setWorker j { p.workers j with queue := [] }).workers i).worker =
      (p.workers i).worker := by
    by_cases own : i = j
    · rw [own, setWorker_self]
    · rw [setWorker_ne p _ own]
  have receivedBy (i : Nat) :
      (past ++ moves p (.close j : PoolInput Msg)).filterMap (Movement.receivedBy i) =
        past.filterMap (Movement.receivedBy i) := by
    rw [List.filterMap_append, moves, filterMap_map_none fun _ => rfl, List.append_nil]
  constructor
  · rw [List.filterMap_append, List.filterMap_append, moves, filterMap_map_none fun _ => rfl,
      filterMap_map_none fun _ => rfl, List.append_nil, List.append_nil]
    exact held.arrived
  · intro i
    rw [droppedBy, receivedBy, List.filterMap_append, moves, filterMap_map_none fun _ => rfl,
      List.append_nil, held.inOrder i]
    by_cases own : i = j
    · subst own
      rw [setWorker_self]
      simp
    · rw [setWorker_ne p _ own, if_neg (Ne.symm own), List.append_nil]
  · intro i dropped
    rw [worker]
    rw [droppedBy] at dropped
    by_cases own : i = j
    · subst own
      exact ⟨left', held.nodup.not_mem_erase⟩
    · rw [if_neg (Ne.symm own), List.append_nil] at dropped
      obtain ⟨out, absent⟩ := held.gone i dropped
      exact ⟨out, fun member => absent (List.mem_of_mem_erase member)⟩
  · intro i inside
    rw [worker] at inside
    rw [receivedBy]
    exact held.serving i inside
  · intro i ended
    rw [worker] at ended
    rw [receivedBy]
    exact held.stopped i ended
  · exact held.nodup.erase j

theorem accounted_step (held : Accounted past p) {input : PoolInput Msg}
    (fired : p.step pb map input = some (next, events)) :
    Accounted (past ++ moves p input) next := by
  cases input with
  | connect j => simpa [moves] using accounted_connect held fired
  | arrive identity frames =>
    obtain ⟨rfl, -⟩ := Prod.mk.inj (Option.some.inj fired)
    exact held.arrive [⟨false, identity :: frames⟩] p.stopping
  | workerStop =>
    obtain rfl := step_workerStop fired
    exact held.arrive (workerStop p.started) true
  | deal i => exact accounted_deal held fired
  | work j interrupted handler reply errorReply => exact accounted_work held fired
  | close j => exact accounted_close held fired

end Steps

theorem traffic_snoc {next : Pool} {input : PoolInput Msg} {emitted : List (WorkerEvent Msg)}
    (run : Path (Fires (step pb map)) (start n) inputs events p)
    (fired : p.step pb map input = some (next, emitted)) :
    traffic pb map (inputs ++ [input]) n = traffic pb map inputs n ++ moves p input :=
  run.along_snoc fired

theorem run_accounted (run : Path (Fires (step pb map)) (start n) inputs events p) :
    Accounted (traffic pb map inputs n) p := by
  induction run with
  | nil => exact ⟨.refl _, fun _ => rfl, by simp [traffic, along], by simp [traffic, along],
      fun _ ended => (nomatch ended.1), List.nodup_nil⟩
  | snoc earlier last ih =>
    rw [traffic_snoc earlier last]
    exact accounted_step ih last

/-- Every message that came in is still at the frontend or was dealt to one worker, once, and
each worker has begun with those dealt to it in their order; what it has not begun with
is in its queue, or went with its socket. -/
theorem messages_accounted (run : Path (Fires (step pb map)) (start n) inputs events p) :
    ((traffic pb map inputs n).filterMap Movement.arrival).Perm
      (p.frontend ++ (traffic pb map inputs n).filterMap Movement.dealing) ∧
    ∀ j, (traffic pb map inputs n).filterMap (Movement.dealtTo j) =
      (traffic pb map inputs n).filterMap (Movement.receivedBy j) ++
        ((traffic pb map inputs n).filterMap (Movement.droppedBy j) ++ (p.workers j).queue) := by
  have held := run_accounted run
  exact ⟨held.arrived, held.inOrder⟩

/-- A run of two workers with requests in front of and behind the stop orders. -/
def lateRequest : List (PoolInput Bytes) :=
  [.connect 0, .connect 1, .arrive (ascii "t1") (requestFrames 1 (ascii "m") [1]), .deal 0,
    .workerStop, .arrive (ascii "t1") (requestFrames 2 (ascii "m") [2]), .deal 0, .deal 0,
    .work 1 false echo acceptAll acceptAll, .deal 0, .work 0 false echo acceptAll acceptAll,
    .work 0 true echo acceptAll acceptAll, .work 0 false echo acceptAll acceptAll, .close 1]

theorem messages_accounted_late : ∃ events p,
    Path (Fires (step rawBytes oneMethod)) (start 2) lateRequest events p ∧
    ∀ j, (traffic rawBytes oneMethod lateRequest 2).filterMap (Movement.dealtTo j) =
      (traffic rawBytes oneMethod lateRequest 2).filterMap (Movement.receivedBy j) ++
        ((traffic rawBytes oneMethod lateRequest 2).filterMap (Movement.droppedBy j) ++
          (p.workers j).queue) := by
  have run : ∃ events p, execute (step rawBytes oneMethod) lateRequest (start 2) =
      some (p, events) := ⟨_, _, rfl⟩
  obtain ⟨events, p, run⟩ := run
  exact ⟨events, p, execute_path run, (messages_accounted (execute_path run)).2⟩

/-- What a worker that has ended has done with the messages dealt to it: it has begun with
those in front of its stop order, and with no other. -/
structure Drained (past : List Movement) (j : Nat) (front : List Inbound) (stop : Inbound)
    (behind : List Inbound) : Prop where
  dealt : past.filterMap (Movement.dealtTo j) = front ++ stop :: behind
  received : past.filterMap (Movement.receivedBy j) = front ++ [stop]
  requests : ∀ m ∈ front, isStop m.frames = false
  order : isStop stop.frames = true

theorem Accounted.drained {past : List Movement} {p : Pool} {j : Nat} (held : Accounted past p)
    (ended : (p.workers j).worker.Ended) :
    ∃ front stop behind, Drained past j front stop behind := by
  obtain ⟨front, stop, received, requests, order⟩ := held.stopped j ended
  refine ⟨front, stop, past.filterMap (Movement.droppedBy j) ++ (p.workers j).queue,
    ?_, received, requests, order⟩
  rw [held.inOrder j, received, List.append_assoc]
  rfl

end Pool

/-- The step of the pool in a step of the server. -/
def ServerInput.poolInput : ServerInput Msg → Option (PoolInput Msg)
  | .pool input => some input
  | .workerStop => some .workerStop
  | _ => none

namespace RpcServer

open Pool

theorem server_pool_path {s t : RpcServer} {inputs : List (ServerInput Msg)}
    {events : List (ServerEvent Msg)} (run : Path (Fires (step pb map)) s inputs events t) :
    ∃ emitted, Path (Fires (Pool.step pb map)) s.pool (inputs.filterMap ServerInput.poolInput)
      emitted t.pool := by
  induction run with
  | nil => exact ⟨[], .nil⟩
  | @snoc inputs events t input emitted next _ last ih =>
    obtain ⟨earlier, path⟩ := ih
    rw [List.filterMap_append]
    have still (silent : input.poolInput = none) (same : next.pool = t.pool) :
        ∃ emitted, Path (Fires (Pool.step pb map)) s.pool
          (inputs.filterMap ServerInput.poolInput ++ [input].filterMap ServerInput.poolInput)
          emitted next.pool := by
      refine ⟨earlier, ?_⟩
      rw [List.filterMap_cons_none silent, List.filterMap_nil, List.append_nil, same]
      exact path
    cases input with
    | pool input =>
      obtain ⟨_, p, _, stepped, rfl⟩ := step_pool last
      exact ⟨_, path.snoc stepped⟩
    | workerStop =>
      obtain ⟨_, p, _, stepped, rfl⟩ := step_workerStop last
      exact ⟨_, path.snoc stepped⟩
    | control =>
      obtain rfl := step_control last
      exact still rfl rfl
    | proxyEnds proxyEnd =>
      obtain ⟨_, rfl⟩ := step_proxyEnds last
      exact still rfl rfl
    | close =>
      obtain ⟨_, rfl⟩ := step_close last
      exact still rfl rfl
    | unbind threw =>
      obtain ⟨_, _, _, ⟨_, _, rfl⟩ | rfl⟩ := step_unbind last
      · exact still rfl rfl
      · exact still rfl rfl
    | join =>
      obtain ⟨_, _, _, _, rfl⟩ := step_join last
      exact still rfl rfl
    | proxyStop =>
      obtain ⟨_, rfl⟩ := step_proxyStop last
      exact still rfl rfl
    | closeSockets =>
      obtain ⟨_, rfl⟩ := step_closeSockets last
      exact still rfl rfl

/-- When `Close` has returned, every worker that no exception took out of its loop has begun
with all the messages that were dealt to it before its stop order. -/
theorem close_drains {noreply : Bool} {urls : List Bytes} {n : Nat}
    {inputs : List (ServerInput Msg)} {events : List (ServerEvent Msg)} {s : RpcServer}
    (run : Path (Fires (step pb map)) (start noreply urls n) inputs events s)
    (returned : .closeReturned ∈ events) (j : Nat) (inside : j < n)
    (caught : (s.pool.workers j).worker.escaped = none) :
    ∃ front stop behind,
      Drained (traffic pb map (inputs.filterMap ServerInput.poolInput) n) j front stop behind := by
  obtain ⟨emitted, path⟩ := server_pool_path run
  obtain ⟨finished, _⟩ := (run_done run).2.1 returned
  have joined := finished.joined j (by rw [(path_frame run).2]; exact inside)
  have ended : (s.pool.workers j).worker.Ended := by
    refine ⟨?_, caught⟩
    by_contra running
    exact joined.1 ⟨Bool.eq_true_of_not_eq_false running, caught⟩
  exact (run_accounted path).drained ended

/-- A request is dealt to the one worker before its stop order. -/
def servedClose : List (ServerInput Bytes) :=
  [.pool (.connect 0), .pool (.arrive (ascii "t1") (requestFrames 1 (ascii "m") [1])),
    .pool (.deal 0), .close, .unbind false, .workerStop, .pool (.deal 0),
    .pool (.work 0 false echo acceptAll acceptAll),
    .pool (.work 0 false echo acceptAll acceptAll), .pool (.close 0), .join, .proxyStop,
    .closeSockets]

theorem close_drains_served : ∃ events s,
    Path (Fires (step rawBytes oneMethod)) (start false [ascii "tcp://*:5555"] 1) servedClose
      events s ∧
    ∃ front stop behind, Drained
      (traffic rawBytes oneMethod (servedClose.filterMap ServerInput.poolInput) 1) 0 front stop
      behind := by
  have run : ∃ events s, execute (step rawBytes oneMethod) servedClose
      (start false [ascii "tcp://*:5555"] 1) = some (s, events) ∧
      events.getLast? = some .closeReturned ∧ (s.pool.workers 0).worker.escaped = none :=
    ⟨_, _, rfl, rfl, rfl⟩
  obtain ⟨events, s, run, last, caught⟩ := run
  exact ⟨events, s, execute_path run,
    close_drains (execute_path run) (List.mem_of_getLast? last) 0 Nat.one_pos caught⟩

end RpcServer

end Zqrpc
