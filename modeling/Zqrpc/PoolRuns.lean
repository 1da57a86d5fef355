import Zqrpc.Pool
import Zqrpc.WorkerRuns
import Zqrpc.Path

/-! Before `WorkerStop` no worker leaves its loop, as long as no client sends the text
of a stop order. Nothing in a message tells a worker who has sent it. -/
namespace Zqrpc

open Numeral Steps

variable {Msg : Type} {pb : Protobuf Msg} {map : RpcMethodMapT}

/-- Behind its identity a stop order is one frame. -/
theorem isStop_cons (identity : Bytes) (frames : FramesT) :
    isStop (identity :: frames) = true ↔ frames = [terminate] := by
  rcases frames with _ | ⟨frame, _ | ⟨more, rest⟩⟩
  · simp [isStop]
  · simp [isStop]
  · simp [isStop]

namespace Pool

/-- No client sends the one frame `TERMINATE`, what handlers throw is caught, and a
blocking send of an error reply is not refused. -/
def Keeps (pb : Protobuf Msg) (map : RpcMethodMapT) (p : Pool) : PoolInput Msg → Prop
  | .arrive _ frames => frames ≠ [terminate]
  | .work j _ handler _ errorReply =>
    (∀ m ∈ (p.workers j).queue.head?, EndsCaught pb map m.frames handler) ∧
      ∀ i, errorReply i ≠ .refused
  | _ => True

/-- Until `WorkerStop` no stop order is on its way and every worker is in its loop. -/
def Undisturbed (p : Pool) : Prop :=
  p.stopping = false →
    (∀ m, p.Carries m → isStop m.frames = false) ∧ ∀ j, (p.workers j).worker.InLoop

theorem undisturbed_step {p next : Pool} {input : PoolInput Msg} (held : p.Undisturbed)
    (keeps : p.Keeps pb map input) (fired : p.step pb map input = some (next, events)) :
    next.Undisturbed := by
  intro early
  obtain ⟨requests, inLoop⟩ := held ((step_frame fired).2.1 early)
  constructor
  · intro m carried
    rcases step_carries fired carried with before | ⟨identity, frames, rfl, rfl⟩ | ⟨stopped, _⟩
    · exact requests m before
    · rw [Bool.eq_false_iff]
      exact fun stop => keeps ((isStop_cons identity frames).mp stop)
    · rw [early] at stopped
      cases stopped
  · intro j
    rcases step_worker j fired with same | ⟨interrupted, handler, reply, errorReply, recv, queue,
      rfl, received, same⟩
    · rw [same]
      exact inLoop j
    · rw [same]
      obtain ⟨ends, answerable⟩ := keeps
      rcases receive_queue received with ⟨rfl, _⟩ | ⟨m, head, rfl⟩
      · -- `BlockingRecv` threw, and the outer handlers have dropped it
        exact inLoop j
      · have queued : p.Carries m := .inr ⟨j, by rw [head]; exact List.mem_cons_self⟩
        exact iteration_stays pb _ _ _ _ rfl (inLoop j).1 (requests m queued)
          (ends m (by rw [head]; rfl)) answerable

/-- In every state before `WorkerStop` all the workers that were started are in their
receive loop. -/
theorem workers_keep_receiving
    (run : Path (Meeting (Keeps pb map) (Fires (step pb map))) (start n) inputs events p)
    (early : p.stopping = false) : ∀ j < n, (p.workers j).worker.InLoop := by
  have held : p.Undisturbed := by
    apply run.state_invariant Undisturbed
    · exact fun _ _ _ _ held fired => undisturbed_step held fired.1 fired.2
    · exact fun _ => ⟨fun m carried => absurd carried (start_carries n m), fun _ => ⟨rfl, rfl⟩⟩
  exact fun j _ => (held early).2 j

/-- A client's request, and a message of two frames that ends in the text. -/
def requests : List (PoolInput Bytes) :=
  [.connect 0, .connect 1, .arrive (ascii "t1") [[], ascii "1", ascii "m", []],
    .arrive (ascii "t1") [[], terminate], .deal 1, .deal 0,
    .work 0 false echo acceptAll acceptAll, .work 1 false echo acceptAll acceptAll]

theorem workers_keep_receiving_requests : ∃ events p,
    Path (Meeting (Keeps rawBytes oneMethod) (Fires (step rawBytes oneMethod))) (start 2)
      requests events p ∧ p.stopping = false ∧ ∀ j < 2, (p.workers j).worker.InLoop := by
  have run : ∃ events p, execute (step rawBytes oneMethod) requests (start 2) = some (p, events) ∧
      p.stopping = false := ⟨_, _, rfl, rfl⟩
  obtain ⟨events, p, run, early⟩ := run
  have keeps : ∀ input ∈ requests, ∀ p, Keeps rawBytes oneMethod p input := by
    have echoes (frames : FramesT) : EndsCaught rawBytes oneMethod frames echo :=
      fun _ _ _ _ _ _ _ _ _ _ _ threw => by cases threw
    simp [requests, Keeps, acceptAll, echoes, terminate]
  have meets := (execute_path run).meeting keeps
  exact ⟨events, p, meets, early, workers_keep_receiving meets early⟩

/-- A client sends the one frame `TERMINATE`. -/
def stray : List (PoolInput Bytes) :=
  [.connect 0, .arrive (ascii "t1") [terminate], .deal 0,
    .work 0 false echo acceptAll acceptAll]

/-- Handlers return and the socket takes every frame, and the worker has left. -/
theorem client_stops_worker : ¬∀ (pb : Protobuf Bytes) (map : RpcMethodMapT) (n : Nat)
    (inputs : List (PoolInput Bytes)) (events : List (WorkerEvent Bytes)) (p : Pool),
    Path (Fires (step pb map)) (start n) inputs events p → p.stopping = false →
    (∀ j interrupted handler reply errorReply,
      .work j interrupted handler reply errorReply ∈ inputs →
      (∀ rpcMethod request, ∃ response, handler rpcMethod request = .returned response) ∧
      reply = acceptAll ∧ errorReply = acceptAll) →
    ∀ j < n, (p.workers j).worker.InLoop := by
  intro claim
  have run : ∃ events p, execute (step rawBytes oneMethod) stray (start 1) = some (p, events) ∧
      p.stopping = false ∧ (p.workers 0).worker.isrunning = false := ⟨_, _, rfl, rfl, rfl⟩
  obtain ⟨events, p, run, early, ended⟩ := run
  have benign : ∀ j interrupted (handler : Handler Bytes) reply errorReply,
      .work j interrupted handler reply errorReply ∈ stray →
      (∀ rpcMethod request, ∃ response, handler rpcMethod request = .returned response) ∧
      reply = acceptAll ∧ errorReply = acceptAll := by
    rintro j interrupted handler reply errorReply member
    simp only [stray, List.mem_cons, reduceCtorEq, PoolInput.work.injEq, List.not_mem_nil,
      or_false, false_or] at member
    obtain ⟨_, _, rfl, rfl, rfl⟩ := member
    exact ⟨fun _ request => ⟨request, rfl⟩, rfl, rfl⟩
  have inLoop := claim _ _ 1 _ _ p (execute_path run) early benign 0 (by decide)
  rw [inLoop.1] at ended
  cases ended

end Pool

end Zqrpc
