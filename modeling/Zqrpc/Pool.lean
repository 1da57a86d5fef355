import Zqrpc.RpcWorkerRules

/-! A server from `Start` on: the ROUTER frontend, the proxy, the DEALER backend with
its round robin, and the workers. A stop order of `WorkerStop` comes in at the frontend
like the requests of the clients and is dealt like them. -/
namespace Zqrpc

open Numeral

/-- A message on its way from the frontend to a worker, with the identity in front. -/
structure Inbound where
  /-- `WorkerStop` sent it -/
  stopOrder : Bool
  frames : FramesT

/-- A worker and what waits in its socket. -/
structure PoolWorker where
  worker : Worker := {}
  queue : List Inbound := []

structure Pool where
  /-- `threads_.size()` -/
  started : Nat
  workers : Nat → PoolWorker := fun _ => {}
  /-- the connected workers, the one the backend deals to next at the head -/
  turns : List Nat := []
  frontend : List Inbound := []
  /-- `WorkerStop` was called -/
  stopping : Bool := false

/-- `Start(noof_threads)`, before any worker has connected. -/
def Pool.start (noofThreads : Nat) : Pool := { started := noofThreads }

inductive PoolInput (Msg : Type) where
  | connect (j : Nat)
  /-- a client's message reaches the frontend -/
  | arrive (identity : Bytes) (frames : FramesT)
  /-- `WorkerStop(threads_.size())` -/
  | workerStop
  /-- the proxy passes on one of the messages at the frontend -/
  | deal (i : Nat)
  /-- one iteration of a worker, whose `BlockingRecv` throws if `interrupted` -/
  | work (j : Nat) (interrupted : Bool) (handler : Handler Msg)
      (reply errorReply : Nat → SendOutcome)
  /-- a worker that has left its loop disconnects and closes its socket -/
  | close (j : Nat)

/-- What `WorkerStop(nos)` sends, as it leaves the ROUTER. -/
def workerStop (nos : Nat) : List Inbound :=
  List.replicate nos ⟨true, [ascii "WSTOP", terminate]⟩

/-- `BlockingRecv`, which waits while there is no message. -/
def PoolWorker.receive (w : PoolWorker) (interrupted : Bool) :
    Option (RecvResult × List Inbound) :=
  if interrupted then some (.threw, w.queue)
  else
    match w.queue with
    | [] => none
    | m :: rest => some (.message m.frames, rest)

namespace Pool

variable {Msg : Type} (pb : Protobuf Msg) (map : RpcMethodMapT)

def setWorker (p : Pool) (j : Nat) (w : PoolWorker) : Pool :=
  { p with workers := Function.update p.workers j w }

def step (p : Pool) : PoolInput Msg → Option (Pool × List (WorkerEvent Msg))
  | .connect j =>
    if j < p.started ∧ j ∉ p.turns ∧ (p.workers j).worker.InLoop then
      some ({ p with turns := p.turns ++ [j] }, [])
    else none
  | .arrive identity frames =>
    some ({ p with frontend := p.frontend ++ [⟨false, identity :: frames⟩] }, [])
  | .workerStop =>
    if p.stopping then none
    else some ({ p with frontend := p.frontend ++ workerStop p.started, stopping := true }, [])
  | .deal i =>
    match p.frontend[i]?, p.turns with
    | some m, j :: rest =>
      let w := p.workers j
      some ({ p.setWorker j { w with queue := w.queue ++ [m] } with
        frontend := p.frontend.eraseIdx i, turns := rest ++ [j] }, [])
    | _, _ => none
  | .work j interrupted handler reply errorReply =>
    let w := p.workers j
    match w.receive interrupted with
    | none => none
    | some (recv, queue) =>
      if w.worker.InLoop then
        let (worker, events) := w.worker.iteration pb ⟨map, false⟩
          ⟨recv, handler, reply, errorReply⟩
        some (p.setWorker j ⟨worker, queue⟩, events)
      else none
  | .close j =>
    let w := p.workers j
    if j ∈ p.turns ∧ ¬w.worker.InLoop then
      some ({ p.setWorker j { w with queue := [] } with turns := p.turns.erase j }, [])
    else none

/-- The messages that no worker has received yet. -/
def Carries (p : Pool) (m : Inbound) : Prop :=
  m ∈ p.frontend ∨ ∃ j, m ∈ (p.workers j).queue

section Rules

variable {pb map} {p next : Pool} {events : List (WorkerEvent Msg)}

theorem step_connect {j : Nat} (fired : p.step pb map (.connect j) = some (next, events)) :
    (j < p.started ∧ j ∉ p.turns ∧ (p.workers j).worker.InLoop) ∧
      next = { p with turns := p.turns ++ [j] } := by
  simp only [step] at fired
  split at fired
  · rename_i fresh
    obtain ⟨rfl, -⟩ := Prod.mk.inj (Option.some.inj fired)
    exact ⟨fresh, rfl⟩
  · cases fired

theorem step_workerStop (fired : p.step pb map .workerStop = some (next, events)) :
    next = { p with frontend := p.frontend ++ workerStop p.started, stopping := true } := by
  simp only [step] at fired
  split at fired
  · cases fired
  · exact (Prod.mk.inj (Option.some.inj fired)).1.symm

theorem step_deal {i : Nat} (fired : p.step pb map (.deal i) = some (next, events)) :
    ∃ m j rest, p.frontend[i]? = some m ∧ p.turns = j :: rest ∧
      next = { p.setWorker j { p.workers j with queue := (p.workers j).queue ++ [m] } with
        frontend := p.frontend.eraseIdx i, turns := rest ++ [j] } := by
  simp only [step] at fired
  split at fired
  · rename_i m j rest found turn
    obtain ⟨rfl, -⟩ := Prod.mk.inj (Option.some.inj fired)
    exact ⟨m, j, rest, found, turn, rfl⟩
  · cases fired

theorem step_work {j : Nat} {interrupted : Bool} {handler : Handler Msg}
    {reply errorReply : Nat → SendOutcome}
    (fired : p.step pb map (.work j interrupted handler reply errorReply) = some (next, events)) :
    ∃ recv queue, (p.workers j).receive interrupted = some (recv, queue) ∧
      (p.workers j).worker.InLoop ∧
      next = p.setWorker j ⟨((p.workers j).worker.iteration pb ⟨map, false⟩
        ⟨recv, handler, reply, errorReply⟩).1, queue⟩ := by
  simp only [step] at fired
  split at fired
  · cases fired
  · rename_i recv queue received
    split at fired
    · rename_i inLoop
      obtain ⟨rfl, -⟩ := Prod.mk.inj (Option.some.inj fired)
      exact ⟨recv, queue, received, inLoop, rfl⟩
    · cases fired

theorem step_close {j : Nat} (fired : p.step pb map (.close j) = some (next, events)) :
    ¬(p.workers j).worker.InLoop ∧
      next = { p.setWorker j { p.workers j with queue := [] } with turns := p.turns.erase j } := by
  simp only [step] at fired
  split at fired
  · rename_i left'
    obtain ⟨rfl, -⟩ := Prod.mk.inj (Option.some.inj fired)
    exact ⟨left'.2, rfl⟩
  · cases fired

@[simp] theorem setWorker_self (p : Pool) (j : Nat) (w : PoolWorker) :
    (p.setWorker j w).workers j = w := Function.update_self ..

theorem setWorker_ne (p : Pool) (w : PoolWorker) (other : i ≠ j) :
    (p.setWorker j w).workers i = p.workers i := Function.update_of_ne other ..

theorem start_carries (n : Nat) (m : Inbound) : ¬(start n).Carries m := by
  rintro (front | ⟨_, queued⟩)
  · cases front
  · cases queued

/-- Giving a worker another queue brings in no message but those of the queue. -/
theorem Carries.of_setWorker {j : Nat} {w : PoolWorker} {m : Inbound}
    (carried : (p.setWorker j w).Carries m) : p.Carries m ∨ m ∈ w.queue := by
  rcases carried with front | ⟨i, queued⟩
  · exact .inl (.inl front)
  · by_cases other : i = j
    · subst other
      rw [setWorker_self] at queued
      exact .inr queued
    · rw [setWorker_ne p w other] at queued
      exact .inl (.inr ⟨i, queued⟩)

theorem receive_queue {w : PoolWorker} {interrupted : Bool} {recv : RecvResult}
    {queue : List Inbound} (received : w.receive interrupted = some (recv, queue)) :
    (recv = .threw ∧ queue = w.queue) ∨
      ∃ m, w.queue = m :: queue ∧ recv = .message m.frames := by
  unfold PoolWorker.receive at received
  split at received
  · obtain ⟨rfl, rfl⟩ := Prod.mk.inj (Option.some.inj received)
    exact .inl ⟨rfl, rfl⟩
  · split at received
    · cases received
    · rename_i m rest same
      obtain ⟨rfl, rfl⟩ := Prod.mk.inj (Option.some.inj received)
      exact .inr ⟨m, same, rfl⟩

theorem step_frame {input : PoolInput Msg} (fired : p.step pb map input = some (next, events)) :
    next.started = p.started ∧ (next.stopping = false → p.stopping = false) ∧
      ∀ j ∈ next.turns, j ∈ p.turns ∨ j < p.started := by
  cases input with
  | connect j =>
    obtain ⟨inside, rfl⟩ := step_connect fired
    refine ⟨rfl, id, fun i member => ?_⟩
    rcases List.mem_append.mp member with before | last
    · exact .inl before
    · obtain rfl := List.mem_singleton.mp last
      exact .inr inside.1
  | arrive identity frames =>
    obtain ⟨rfl, -⟩ := Prod.mk.inj (Option.some.inj fired)
    exact ⟨rfl, id, fun _ => .inl⟩
  | workerStop =>
    obtain rfl := step_workerStop fired
    exact ⟨rfl, fun early => Bool.noConfusion early, fun _ => .inl⟩
  | deal k =>
    obtain ⟨_, j, rest, _, turn, rfl⟩ := step_deal fired
    refine ⟨rfl, id, fun i member => .inl ?_⟩
    rw [turn]
    exact ((List.perm_append_singleton j rest).mem_iff).mp member
  | work j interrupted handler reply errorReply =>
    obtain ⟨_, _, _, _, rfl⟩ := step_work fired
    exact ⟨rfl, id, fun _ => .inl⟩
  | close j =>
    obtain ⟨_, rfl⟩ := step_close fired
    exact ⟨rfl, id, fun _ member => .inl (List.mem_of_mem_erase member)⟩

theorem step_stopping {input : PoolInput Msg} (other : input ≠ .workerStop)
    (fired : p.step pb map input = some (next, events)) : next.stopping = p.stopping := by
  cases input with
  | workerStop => exact absurd rfl other
  | connect j =>
    obtain ⟨_, rfl⟩ := step_connect fired
    rfl
  | arrive identity frames =>
    obtain ⟨rfl, -⟩ := Prod.mk.inj (Option.some.inj fired)
    rfl
  | deal i =>
    obtain ⟨_, _, _, _, _, rfl⟩ := step_deal fired
    rfl
  | work j interrupted handler reply errorReply =>
    obtain ⟨_, _, _, _, rfl⟩ := step_work fired
    rfl
  | close j =>
    obtain ⟨_, rfl⟩ := step_close fired
    rfl

/-- A message on its way was there before, or a client or `WorkerStop` has just sent it. -/
theorem step_carries {input : PoolInput Msg} {m : Inbound}
    (fired : p.step pb map input = some (next, events)) (carried : next.Carries m) :
    p.Carries m ∨
    (∃ identity frames, input = .arrive identity frames ∧ m = ⟨false, identity :: frames⟩) ∨
    (next.stopping = true ∧ m ∈ workerStop p.started) := by
  cases input with
  | connect j =>
    obtain ⟨_, rfl⟩ := step_connect fired
    exact .inl carried
  | arrive identity frames =>
    obtain ⟨rfl, -⟩ := Prod.mk.inj (Option.some.inj fired)
    rcases carried with front | queued
    · rcases List.mem_append.mp front with before | last
      · exact .inl (.inl before)
      · exact .inr (.inl ⟨identity, frames, rfl, List.mem_singleton.mp last⟩)
    · exact .inl (.inr queued)
  | workerStop =>
    obtain rfl := step_workerStop fired
    rcases carried with front | queued
    · rcases List.mem_append.mp front with before | last
      · exact .inl (.inl before)
      · exact .inr (.inr ⟨rfl, last⟩)
    · exact .inl (.inr queued)
  | deal i =>
    left
    obtain ⟨m', j, rest, found, _, rfl⟩ := step_deal fired
    rcases carried with front | queued
    · exact .inl (List.eraseIdx_subset front)
    · rcases Carries.of_setWorker (.inr queued) with before | here
      · exact before
      · rcases List.mem_append.mp here with before | last
        · exact .inr ⟨j, before⟩
        · obtain rfl := List.mem_singleton.mp last
          exact .inl (List.mem_of_getElem? found)
  | work j interrupted handler reply errorReply =>
    left
    obtain ⟨recv, queue, received, _, rfl⟩ := step_work fired
    rcases Carries.of_setWorker carried with before | here
    · exact before
    · right
      refine ⟨j, ?_⟩
      rcases receive_queue received with ⟨_, rfl⟩ | ⟨m', same, _⟩
      · exact here
      · rw [same]
        exact List.mem_cons_of_mem m' here
  | close j =>
    left
    obtain ⟨_, rfl⟩ := step_close fired
    rcases carried with front | queued
    · exact .inl front
    · rcases Carries.of_setWorker (.inr queued) with before | here
      · exact before
      · cases here

/-- Only an iteration of its own loop changes a worker. -/
theorem step_worker {input : PoolInput Msg} (i : Nat)
    (fired : p.step pb map input = some (next, events)) :
    (next.workers i).worker = (p.workers i).worker ∨
    ∃ interrupted handler reply errorReply recv queue,
      input = .work i interrupted handler reply errorReply ∧
      (p.workers i).receive interrupted = some (recv, queue) ∧
      (next.workers i).worker = ((p.workers i).worker.iteration pb ⟨map, false⟩
        ⟨recv, handler, reply, errorReply⟩).1 := by
  have kept (j : Nat) (queue : List Inbound) :
      ((p.setWorker j { p.workers j with queue }).workers i).worker = (p.workers i).worker := by
    by_cases other : i = j
    · rw [other, setWorker_self]
    · rw [setWorker_ne p _ other]
  cases input with
  | connect j =>
    obtain ⟨_, rfl⟩ := step_connect fired
    exact .inl rfl
  | arrive identity frames =>
    obtain ⟨rfl, -⟩ := Prod.mk.inj (Option.some.inj fired)
    exact .inl rfl
  | workerStop =>
    obtain rfl := step_workerStop fired
    exact .inl rfl
  | deal k =>
    obtain ⟨m, j, rest, _, _, rfl⟩ := step_deal fired
    exact .inl (kept j _)
  | work j interrupted handler reply errorReply =>
    obtain ⟨recv, queue, received, _, rfl⟩ := step_work fired
    by_cases other : i = j
    · subst other
      exact .inr ⟨interrupted, handler, reply, errorReply, recv, queue, rfl, received,
        by rw [setWorker_self]⟩
    · exact .inl (by rw [setWorker_ne p _ other])
  | close j =>
    obtain ⟨_, rfl⟩ := step_close fired
    exact .inl (kept j _)

end Rules

end Pool

end Zqrpc
