import Zqrpc.PoolTraffic
import Zqrpc.WorkerRuns

/-! The replies of a server, whichever worker gets a request and whenever it works: the
answers to the messages that the workers have begun with. Every message is begun with,
dropped with a socket, or still there, and the work on it comes to an end. -/
namespace Zqrpc

open Numeral Steps

variable {Msg : Type} {pb : Protobuf Msg} {map : RpcMethodMapT}

def Movement.receiving : Movement → Option Inbound
  | .received _ m => some m
  | _ => none

def Movement.dropping : Movement → Option Inbound
  | .dropped _ m => some m
  | _ => none

/-- The proxy passes a message on, or a worker begins with one. -/
def PoolInput.isMove : PoolInput Msg → Bool
  | .deal _ => true
  | .work _ interrupted _ _ _ => !interrupted
  | _ => false

namespace Pool

/-- Handlers return or throw a `ZError`, and sends accept every frame. -/
def Behaves (behaviour : Behaviour Msg) : PoolInput Msg → Prop
  | .work _ _ handler reply errorReply =>
    handler = behaviour.handler ∧ reply = acceptAll ∧ errorReply = acceptAll
  | _ => True

def queued (p : Pool) : Multiset Inbound :=
  ∑ j ∈ Finset.range p.started, ((p.workers j).queue : Multiset Inbound)

/-- The messages that no worker has begun with. -/
def waiting (p : Pool) : Multiset Inbound := p.frontend + p.queued

/-- The replies to these messages. -/
def answers (pb : Protobuf Msg) (map : RpcMethodMapT) (behaviour : Behaviour Msg)
    (ms : List Inbound) : List FramesT :=
  ms.flatMap fun m => answer pb map (m.frames, behaviour)

section Queues

variable {p : Pool} {j : Nat}

theorem queued_setWorker (inside : j < p.started) (w : PoolWorker) :
    queued (p.setWorker j w) + (p.workers j).queue = p.queued + w.queue := by
  have member := Finset.mem_range.mpr inside
  have before := Finset.add_sum_erase (Finset.range p.started)
    (fun i => ((p.workers i).queue : Multiset Inbound)) member
  have after := Finset.add_sum_erase (Finset.range p.started)
    (fun i => (((p.setWorker j w).workers i).queue : Multiset Inbound)) member
  have others : ∑ i ∈ (Finset.range p.started).erase j,
      (((p.setWorker j w).workers i).queue : Multiset Inbound) =
      ∑ i ∈ (Finset.range p.started).erase j, ((p.workers i).queue : Multiset Inbound) :=
    Finset.sum_congr rfl fun i there => by
      rw [setWorker_ne p w (Finset.ne_of_mem_erase there)]
  rw [others, setWorker_self] at after
  calc queued (p.setWorker j w) + (p.workers j).queue
      = (w.queue + ∑ i ∈ (Finset.range p.started).erase j,
          ((p.workers i).queue : Multiset Inbound)) + (p.workers j).queue := by
        rw [after]
        rfl
    _ = ((p.workers j).queue + ∑ i ∈ (Finset.range p.started).erase j,
          ((p.workers i).queue : Multiset Inbound)) + w.queue := by abel
    _ = p.queued + w.queue := by
        rw [before]
        rfl

theorem eraseIdx_cons {ms : List Inbound} {i : Nat} {m : Inbound} (found : ms[i]? = some m) :
    (ms : Multiset Inbound) = (ms.eraseIdx i : Multiset Inbound) + {m} := by
  obtain ⟨bound, rfl⟩ := List.getElem?_eq_some_iff.mp found
  rw [Multiset.coe_eq_coe.mpr (List.getElem_cons_eraseIdx_perm bound).symm, ← Multiset.cons_coe,
    ← Multiset.singleton_add, add_comm]

end Queues

/-- What has moved, what was sent, and what waits. -/
structure Answered (pb : Protobuf Msg) (map : RpcMethodMapT) (behaviour : Behaviour Msg)
    (past : List Movement) (events : List (WorkerEvent Msg)) (p : Pool) : Prop where
  replies : messages events = answers pb map behaviour (past.filterMap Movement.receiving)
  calm : ∀ j, (p.workers j).worker.pending = [] ∧ (p.workers j).worker.escaped = none

/-- Where the messages are that came in. -/
structure Balanced (past : List Movement) (inputs : List (PoolInput Msg)) (p : Pool) : Prop where
  balance : (past.filterMap Movement.arrival : Multiset Inbound) =
    past.filterMap Movement.receiving + past.filterMap Movement.dropping + p.waiting
  moves : inputs.countP PoolInput.isMove + 2 * p.frontend.length + p.queued.card +
    (past.filterMap Movement.dropping).length = 2 * (past.filterMap Movement.arrival).length
  inside : ∀ j ∈ p.turns, j < p.started
  idle : ∀ j, p.started ≤ j → (p.workers j).queue = []

section Steps

variable {behaviour : Behaviour Msg} {past : List Movement} {inputs : List (PoolInput Msg)}
  {p next : Pool} {events emitted : List (WorkerEvent Msg)}

theorem answer_stop (behaviour : Behaviour Msg) {frames : FramesT} (stop : isStop frames = true) :
    answer pb map (frames, behaviour) = [] := by
  unfold answer
  split
  · rename_i same
    obtain ⟨rfl, -⟩ := Prod.mk.inj same
    cases stop
  · rfl

/-- An iteration answers the message it begins with. -/
theorem iteration_messages (behaviour : Behaviour Msg) (frames : FramesT) {w : Worker}
    (inLoop : w.InLoop) (clean : w.pending = []) :
    ∃ next events, w.iteration pb ⟨map, false⟩ (quietRound frames behaviour.handler) =
      (next, events) ∧ messages events = answer pb map (frames, behaviour) ∧
      next.pending = [] ∧ next.escaped = none := by
  cases stop : isStop frames with
  | true =>
    exact ⟨_, _, iteration_stop pb _ _ _ rfl stop, (answer_stop behaviour stop).symm, clean, rfl⟩
  | false =>
    obtain ⟨w', events, same, inLoop', clean', sent, -⟩ :=
      iteration_answer pb map frames behaviour w inLoop clean stop
    exact ⟨w', events, same, sent, clean', inLoop'.2⟩

theorem answered_step (held : Answered pb map behaviour past events p) {input : PoolInput Msg}
    (behaves : Behaves behaviour input) (fired : p.step pb map input = some (next, emitted)) :
    Answered pb map behaviour (past ++ moves p input) (events ++ emitted) next := by
  have silent (quiet : emitted = []) (unmoved : (moves p input).filterMap Movement.receiving = [])
      (same : ∀ j, (next.workers j).worker = (p.workers j).worker) :
      Answered pb map behaviour (past ++ moves p input) (events ++ emitted) next := by
    refine ⟨?_, fun j => (same j) ▸ held.calm j⟩
    rw [quiet, List.append_nil, List.filterMap_append, unmoved, List.append_nil]
    exact held.replies
  have kept (j : Nat) (queue : List Inbound) (i : Nat) :
      ((p.setWorker j { p.workers j with queue }).workers i).worker = (p.workers i).worker := by
    by_cases mine : i = j
    · rw [mine, setWorker_self]
    · rw [setWorker_ne p _ mine]
  cases input with
  | connect j =>
    obtain ⟨_, rfl⟩ := step_connect fired
    exact silent (step_quiet (by simp) fired) rfl fun _ => rfl
  | arrive identity frames =>
    obtain ⟨rfl, rfl⟩ := Prod.mk.inj (Option.some.inj fired)
    exact silent rfl rfl fun _ => rfl
  | workerStop =>
    obtain rfl := step_workerStop fired
    exact silent (step_quiet (by simp) fired) (filterMap_map_none (fun _ => rfl) _) fun _ => rfl
  | deal i =>
    obtain ⟨m, j, rest, found, turn, rfl⟩ := step_deal fired
    refine silent (step_quiet (by simp) fired) ?_ (kept j _)
    simp [moves, found, turn, Movement.receiving]
  | close j =>
    obtain ⟨_, rfl⟩ := step_close fired
    exact silent (step_quiet (by simp) fired) (filterMap_map_none (fun _ => rfl) _) (kept j _)
  | work j interrupted handler reply errorReply =>
    obtain ⟨rfl, rfl, rfl⟩ := behaves
    obtain ⟨recv, queue, received, inLoop, rfl⟩ := step_work fired
    obtain rfl := step_work_events fired received
    have calm (w : Worker) (mine : w.pending = [] ∧ w.escaped = none) (i : Nat) :
        ((p.setWorker j ⟨w, queue⟩).workers i).worker.pending = [] ∧
        ((p.setWorker j ⟨w, queue⟩).workers i).worker.escaped = none := by
      by_cases own : i = j
      · rw [own, setWorker_self]
        exact mine
      · rw [setWorker_ne p _ own]
        exact held.calm i
    cases interrupted with
    | true =>
      obtain ⟨rfl, rfl⟩ := Prod.mk.inj (Option.some.inj received)
      refine ⟨?_, calm _ (held.calm j)⟩
      rw [moves, if_pos rfl, List.append_nil]
      exact (messages_append _ _).trans ((List.append_nil _).trans held.replies)
    | false =>
      cases head : (p.workers j).queue with
      | nil => simp [PoolWorker.receive, head] at received
      | cons m rest =>
        simp only [PoolWorker.receive, head, Bool.false_eq_true, if_false] at received
        obtain ⟨rfl, rfl⟩ := Prod.mk.inj (Option.some.inj received)
        obtain ⟨w, emitted, run, sent, mine⟩ :=
          @iteration_messages _ pb map behaviour m.frames _ inLoop (held.calm j).1
        rw [show (⟨.message m.frames, behaviour.handler, acceptAll, acceptAll⟩ : Round Msg) =
          quietRound m.frames behaviour.handler from rfl, run]
        refine ⟨?_, calm w mine⟩
        rw [messages_append, sent, held.replies]
        simp [moves, head, Movement.receiving, answers]

end Steps

section Balance

variable {past : List Movement} {inputs : List (PoolInput Msg)} {p next : Pool}
  {events : List (WorkerEvent Msg)}

theorem Balanced.idle_setWorker (held : Balanced past inputs p) {j : Nat} {w : PoolWorker}
    (same : j < p.started ∨ w.queue = []) (i : Nat) (outside : p.started ≤ i) :
    ((p.setWorker j w).workers i).queue = [] := by
  by_cases mine : i = j
  · subst mine
    rw [setWorker_self]
    exact same.resolve_left (Nat.not_lt_of_le outside)
  · rw [setWorker_ne p _ mine]
    exact held.idle i outside

theorem Balanced.inside_step (held : Balanced past inputs p) {input : PoolInput Msg}
    (fired : p.step pb map input = some (next, events)) : ∀ j ∈ next.turns, j < next.started := by
  obtain ⟨started, -, turns⟩ := step_frame fired
  intro j member
  rw [started]
  exact (turns j member).elim (held.inside j) id

/-- Messages that come to the frontend. -/
theorem Balanced.arrive (held : Balanced past inputs p) {input : PoolInput Msg} (ms : List Inbound)
    (stopping : Bool) (other : input.isMove = false) :
    Balanced (past ++ ms.map .arrived) (inputs ++ [input])
      { p with frontend := p.frontend ++ ms, stopping } := by
  have arrival : (ms.map Movement.arrived).filterMap Movement.arrival = ms :=
    filterMap_map_some (fun _ => rfl) ms
  have receiving : (ms.map Movement.arrived).filterMap Movement.receiving = [] :=
    filterMap_map_none (fun _ => rfl) ms
  have dropping : (ms.map Movement.arrived).filterMap Movement.dropping = [] :=
    filterMap_map_none (fun _ => rfl) ms
  have moves := held.moves
  refine ⟨?_, ?_, held.inside, held.idle⟩
  · rw [List.filterMap_append, List.filterMap_append, List.filterMap_append, arrival, receiving,
      dropping, List.append_nil, List.append_nil, ← Multiset.coe_add, held.balance, waiting,
      waiting, ← Multiset.coe_add]
    change _ = _ + (_ + p.queued)
    abel
  · rw [List.filterMap_append, List.filterMap_append, arrival, dropping, List.append_nil,
      List.countP_append, List.length_append, List.length_append]
    change _ + 2 * _ + p.queued.card + _ = _
    simp only [List.countP_cons, List.countP_nil, other, Bool.false_eq_true, if_false]
    omega

theorem balanced_deal (held : Balanced past inputs p) {i : Nat}
    (fired : p.step pb map (.deal i) = some (next, events)) :
    Balanced (past ++ moves p (.deal i : PoolInput Msg)) (inputs ++ [.deal i]) next := by
  have inside := held.inside_step fired
  obtain ⟨m, a, rest, found, turn, rfl⟩ := step_deal fired
  have started : a < p.started := held.inside a (by rw [turn]; exact List.mem_cons_self)
  have moved : moves p (.deal i : PoolInput Msg) = [.dealt a m] := by
    simp [moves, found, turn]
  have front := eraseIdx_cons found
  have queues := queued_setWorker started ⟨(p.workers a).worker, (p.workers a).queue ++ [m]⟩
  have grown : queued (p.setWorker a ⟨(p.workers a).worker, (p.workers a).queue ++ [m]⟩) =
      p.queued + {m} := by
    rw [← Multiset.coe_add, ← add_assoc, add_right_comm] at queues
    exact add_right_cancel queues
  have moves' := held.moves
  refine ⟨?_, ?_, inside, held.idle_setWorker (.inl started)⟩
  · rw [moved]
    simp only [List.filterMap_append, List.filterMap_cons, List.filterMap_nil, Movement.arrival,
      Movement.receiving, Movement.dropping, List.append_nil]
    rw [held.balance, waiting, front, waiting]
    change _ = _ + (_ + queued (p.setWorker a _))
    rw [grown]
    abel
  · rw [moved, List.countP_append]
    simp only [List.filterMap_append, List.filterMap_cons, List.filterMap_nil, Movement.arrival,
      Movement.dropping, List.append_nil, List.countP_cons, List.countP_nil, PoolInput.isMove,
      if_true]
    change _ + 2 * (p.frontend.eraseIdx i).length + (queued (p.setWorker a _)).card + _ = _
    have length := congrArg Multiset.card front
    rw [grown]
    rw [Multiset.card_add] at length ⊢
    rw [Multiset.coe_card, Multiset.coe_card, Multiset.card_singleton] at length
    rw [Multiset.card_singleton]
    omega

theorem balanced_work (held : Balanced past inputs p) {j : Nat} {interrupted : Bool}
    {handler : Handler Msg} {reply errorReply : Nat → SendOutcome}
    (fired : p.step pb map (.work j interrupted handler reply errorReply) = some (next, events)) :
    Balanced (past ++ moves p (.work j interrupted handler reply errorReply))
      (inputs ++ [.work j interrupted handler reply errorReply]) next := by
  have inside := held.inside_step fired
  obtain ⟨recv, queue, received, _, rfl⟩ := step_work fired
  have moves' := held.moves
  cases interrupted with
  | true =>
    obtain ⟨rfl, rfl⟩ := Prod.mk.inj (Option.some.inj received)
    rw [moves, if_pos rfl, List.append_nil]
    have same (w : Worker) : queued (p.setWorker j ⟨w, (p.workers j).queue⟩) = p.queued := by
      refine Finset.sum_congr rfl fun i _ => ?_
      by_cases mine : i = j
      · rw [mine, setWorker_self]
      · rw [setWorker_ne p _ mine]
    refine ⟨?_, ?_, inside, held.idle_setWorker ?_⟩
    · rw [held.balance, waiting, waiting, same]
      rfl
    · rw [same, List.countP_append]
      change _ + 2 * p.frontend.length + _ + _ = _
      simpa [PoolInput.isMove] using moves'
    · by_cases started : j < p.started
      · exact .inl started
      · exact .inr (held.idle j (Nat.le_of_not_lt started))
  | false =>
    cases head : (p.workers j).queue with
    | nil => simp [PoolWorker.receive, head] at received
    | cons m rest =>
      simp only [PoolWorker.receive, head, Bool.false_eq_true, if_false] at received
      obtain ⟨rfl, rfl⟩ := Prod.mk.inj (Option.some.inj received)
      have started : j < p.started := by
        by_contra outside
        rw [held.idle j (Nat.le_of_not_lt outside)] at head
        cases head
      have moved : moves p (.work j false handler reply errorReply) = [.received j m] := by
        simp [moves, head]
      have shrunk (w : Worker) : p.queued = queued (p.setWorker j ⟨w, rest⟩) + {m} := by
        have queues := queued_setWorker started ⟨w, rest⟩
        rw [head, ← Multiset.cons_coe, ← Multiset.singleton_add, ← add_assoc] at queues
        exact (add_right_cancel queues).symm
      rw [moved]
      refine ⟨?_, ?_, inside, held.idle_setWorker (.inl started)⟩
      · simp only [List.filterMap_append, List.filterMap_cons, List.filterMap_nil,
          Movement.arrival, Movement.receiving, Movement.dropping, List.append_nil]
        rw [held.balance, waiting, waiting, shrunk ((p.workers j).worker.iteration pb
          ⟨map, false⟩ ⟨.message m.frames, handler, reply, errorReply⟩).1, ← Multiset.coe_add,
          Multiset.coe_singleton]
        change _ = _ + (p.frontend + queued (p.setWorker j _))
        abel
      · simp only [List.filterMap_append, List.filterMap_cons, List.filterMap_nil,
          Movement.arrival, Movement.dropping, List.append_nil, List.countP_append,
          List.countP_cons, List.countP_nil, PoolInput.isMove]
        have card := congrArg Multiset.card (shrunk ((p.workers j).worker.iteration pb ⟨map, false⟩
          ⟨.message m.frames, handler, reply, errorReply⟩).1)
        rw [Multiset.card_add, Multiset.card_singleton] at card
        change _ + 2 * p.frontend.length + _ + _ = _
        simp only [Bool.not_false, if_true]
        omega

theorem balanced_close (held : Balanced past inputs p) {j : Nat}
    (fired : p.step pb map (.close j) = some (next, events)) :
    Balanced (past ++ moves p (.close j : PoolInput Msg)) (inputs ++ [.close j]) next := by
  have inside := held.inside_step fired
  have started : j < p.started := by
    refine held.inside j ?_
    by_contra absent
    simp [step, absent] at fired
  obtain ⟨_, rfl⟩ := step_close fired
  have dropping : ((p.workers j).queue.map (Movement.dropped j)).filterMap Movement.dropping =
      (p.workers j).queue := filterMap_map_some (fun _ => rfl) _
  have arrival : ((p.workers j).queue.map (Movement.dropped j)).filterMap Movement.arrival = [] :=
    filterMap_map_none (fun _ => rfl) _
  have receiving : ((p.workers j).queue.map (Movement.dropped j)).filterMap Movement.receiving =
      [] := filterMap_map_none (fun _ => rfl) _
  have emptied := queued_setWorker started ⟨(p.workers j).worker, []⟩
  rw [Multiset.coe_nil, add_zero] at emptied
  have moves' := held.moves
  refine ⟨?_, ?_, inside, held.idle_setWorker (.inl started)⟩
  · rw [moves, List.filterMap_append, List.filterMap_append, List.filterMap_append, dropping,
      arrival, receiving, List.append_nil, List.append_nil, held.balance, waiting, waiting,
      ← Multiset.coe_add, ← emptied]
    change _ = _ + (p.frontend + queued (p.setWorker j _))
    abel
  · rw [moves, List.filterMap_append, List.filterMap_append, dropping, arrival, List.append_nil,
      List.length_append, List.countP_append]
    have card := congrArg Multiset.card emptied
    rw [Multiset.card_add, Multiset.coe_card] at card
    change _ + 2 * p.frontend.length + (queued (p.setWorker j _)).card + _ = _
    simp only [List.countP_cons, List.countP_nil, PoolInput.isMove, Bool.false_eq_true, if_false]
    omega

theorem balanced_step (held : Balanced past inputs p) {input : PoolInput Msg}
    (fired : p.step pb map input = some (next, events)) :
    Balanced (past ++ moves p input) (inputs ++ [input]) next := by
  cases input with
  | connect j =>
    have inside := held.inside_step fired
    obtain ⟨_, rfl⟩ := step_connect fired
    rw [moves, List.append_nil]
    refine ⟨held.balance, ?_, inside, held.idle⟩
    rw [List.countP_append]
    exact held.moves
  | arrive identity frames =>
    obtain ⟨rfl, -⟩ := Prod.mk.inj (Option.some.inj fired)
    exact held.arrive [⟨false, identity :: frames⟩] p.stopping rfl
  | workerStop =>
    obtain rfl := step_workerStop fired
    exact held.arrive (workerStop p.started) true rfl
  | deal i => exact balanced_deal held fired
  | work j interrupted handler reply errorReply => exact balanced_work held fired
  | close j => exact balanced_close held fired

end Balance

section Runs

variable {behaviour : Behaviour Msg} {n : Nat} {inputs : List (PoolInput Msg)}
  {events : List (WorkerEvent Msg)} {p : Pool}

theorem run_answered (run : Path (Fires (step pb map)) (start n) inputs events p)
    (behaves : ∀ input ∈ inputs, Behaves behaviour input) :
    Answered pb map behaviour (traffic pb map inputs n) events p := by
  induction run with
  | nil => exact ⟨rfl, fun _ => ⟨rfl, rfl⟩⟩
  | @snoc _ _ _ input _ _ earlier last ih =>
    rw [traffic_snoc earlier last]
    exact answered_step (ih fun input member => behaves input (List.mem_append_left _ member))
      (behaves input (by simp)) last

theorem run_balanced (run : Path (Fires (step pb map)) (start n) inputs events p) :
    Balanced (traffic pb map inputs n) inputs p := by
  induction run with
  | nil =>
    have empty : queued (start n) = 0 := Finset.sum_eq_zero fun _ _ => rfl
    refine ⟨?_, ?_, fun _ member => (nomatch member), fun _ _ => rfl⟩
    · rw [waiting, empty]
      rfl
    · rw [empty]
      rfl
  | snoc earlier last ih =>
    rw [traffic_snoc earlier last]
    exact balanced_step ih last

theorem mem_receivedBy {past : List Movement} {j : Nat} {m : Inbound}
    (member : m ∈ past.filterMap (Movement.receivedBy j)) :
    m ∈ past.filterMap Movement.receiving := by
  obtain ⟨movement, there, same⟩ := List.mem_filterMap.mp member
  refine List.mem_filterMap.mpr ⟨movement, there, ?_⟩
  cases movement with
  | received i m' =>
    simp only [Movement.receivedBy] at same
    split at same
    · exact same
    · cases same
  | _ => cases same

theorem mem_dropping {past : List Movement} {m : Inbound}
    (member : m ∈ past.filterMap Movement.dropping) :
    ∃ j, m ∈ past.filterMap (Movement.droppedBy j) := by
  obtain ⟨movement, there, same⟩ := List.mem_filterMap.mp member
  cases movement with
  | dropped j m' =>
    refine ⟨j, List.mem_filterMap.mpr ⟨_, there, ?_⟩⟩
    rw [Movement.droppedBy, if_pos rfl]
    exact same
  | _ => cases same

/-- Where no stop order came in, every worker is in its loop. -/
theorem serving_inLoop (run : Path (Fires (step pb map)) (start n) inputs events p)
    (behaves : ∀ input ∈ inputs, Behaves behaviour input)
    (served : ∀ m ∈ (traffic pb map inputs n).filterMap Movement.arrival, isStop m.frames = false)
    (j : Nat) : (p.workers j).worker.InLoop := by
  have calm := ((run_answered run behaves).calm j).2
  by_contra left'
  have ended : (p.workers j).worker.Ended :=
    ⟨Bool.eq_false_of_not_eq_true fun running => left' ⟨running, calm⟩, calm⟩
  obtain ⟨front, stop, received, -, order⟩ := (run_accounted run).stopped j ended
  have begun : stop ∈ (traffic pb map inputs n).filterMap Movement.receiving :=
    mem_receivedBy (by rw [received]; simp)
  have came : stop ∈ (traffic pb map inputs n).filterMap Movement.arrival := by
    rw [← Multiset.mem_coe, (run_balanced run).balance]
    exact Multiset.mem_add.mpr (.inl (Multiset.mem_add.mpr (.inl begun)))
  rw [served stop came] at order
  cases order

/-- No message can be passed on, and no worker has one to begin with. -/
def AtRest (pb : Protobuf Msg) (map : RpcMethodMapT) (p : Pool) : Prop :=
  ∀ input : PoolInput Msg, input.isMove → p.step pb map input = none

theorem AtRest.frontend (rest : AtRest pb map p) (connected : p.turns ≠ []) : p.frontend = [] := by
  cases front : p.frontend with
  | nil => rfl
  | cons m ms =>
    obtain ⟨j, turns, turn⟩ := List.exists_cons_of_ne_nil connected
    have passed := rest (.deal 0) rfl
    simp [step, front, turn] at passed

theorem AtRest.queue (rest : AtRest pb map p) {j : Nat} (inLoop : (p.workers j).worker.InLoop) :
    (p.workers j).queue = [] := by
  cases head : (p.workers j).queue with
  | nil => rfl
  | cons m ms =>
    have begun := rest (.work j false (fun _ request => .returned request) acceptAll
      acceptAll) rfl
    simp [step, PoolWorker.receive, head, inLoop] at begun

theorem atRest_of_empty (front : p.frontend = []) (queues : ∀ j, (p.workers j).queue = []) :
    AtRest pb map p := by
  intro input move
  cases input with
  | deal i => simp [step, front]
  | work j interrupted handler reply errorReply =>
    obtain rfl : interrupted = false := by simpa [PoolInput.isMove] using move
    simp [step, PoolWorker.receive, queues]
  | _ => cases move

/-- When nothing moves any more, the replies are those to all messages that came in. -/
theorem rest_replies (run : Path (Fires (step pb map)) (start n) inputs events p)
    (behaves : ∀ input ∈ inputs, Behaves behaviour input)
    (served : ∀ m ∈ (traffic pb map inputs n).filterMap Movement.arrival, isStop m.frames = false)
    (connected : p.turns ≠ []) (rest : AtRest pb map p) :
    (messages events).Perm
      (answers pb map behaviour ((traffic pb map inputs n).filterMap Movement.arrival)) := by
  have inLoop := serving_inLoop run behaves served
  have kept : (traffic pb map inputs n).filterMap Movement.dropping = [] := by
    refine List.eq_nil_iff_forall_not_mem.mpr fun m member => ?_
    obtain ⟨j, there⟩ := mem_dropping member
    exact ((run_accounted run).gone j (List.ne_nil_of_mem there)).1 (inLoop j)
  have empty : p.waiting = 0 := by
    rw [waiting, rest.frontend connected, Multiset.coe_nil, zero_add]
    refine Finset.sum_eq_zero fun j _ => ?_
    rw [rest.queue (inLoop j)]
    rfl
  have all := (run_balanced run).balance
  rw [kept, empty, Multiset.coe_nil, add_zero, add_zero] at all
  rw [(run_answered run behaves).replies]
  exact (Multiset.coe_eq_coe.mp all).symm.flatMap_right _

/-- Two workers, whose replies come in the order of their iterations. -/
def crossedRequests : List (PoolInput Bytes) :=
  [.connect 0, .connect 1, .arrive (ascii "t1") (requestFrames 1 (ascii "m") [1]),
    .arrive (ascii "t2") (requestFrames 1 (ascii "none") [2]), .deal 1, .deal 0,
    .work 1 true echo acceptAll acceptAll, .work 1 false echo acceptAll acceptAll,
    .work 0 false echo acceptAll acceptAll]

theorem crossedRequests_behaves :
    ∀ input ∈ crossedRequests, Behaves (fun _ request => .ok request) input := by
  simp [crossedRequests, Behaves, Behaviour.handler, echo, funext_iff]

end Runs

end Pool

end Zqrpc
