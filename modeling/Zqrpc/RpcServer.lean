import Zqrpc.Pool

/-! A server whose `Start` has set `started_` and made its threads: the proxy call that
`Start` waits for, and `Close` in the thread that calls it, from `unbind` to `unbind` and
from `join` to `join`. A PUB frontend never receives. -/
namespace Zqrpc

open Numeral

/-- Where `Close` stands between two calls it makes. -/
inductive ClosePhase where
  /-- it is not running -/
  | outside
  /-- the loop over `rpc_bind_vec_`, with the endpoints that are left -/
  | unbinding (rest : List Bytes)
  /-- the loop over `threads_`, waiting for the one at `it` -/
  | joining (it : Nat)
  /-- before the closes of the three sockets -/
  | closing

structure RpcServer where
  noreply : Bool
  rpcBindVec : List Bytes
  /-- `started_` -/
  started : Bool := true
  /-- `ProxyStart` has not come back -/
  proxying : Bool := true
  /-- `TERMINATE` messages at the control socket -/
  control : Nat := 0
  phase : ClosePhase := .outside
  /-- the three sockets are closed -/
  closed : Bool := false
  pool : Pool

/-- After the loop of `Start(noof_threads)` that makes the threads. -/
def RpcServer.start (noreply : Bool) (urls : List Bytes) (noofThreads : Nat) : RpcServer :=
  { noreply, rpcBindVec := urls, pool := .start noofThreads }

/-- How `proxy_steerable` comes back. -/
inductive ProxyEnd where
  /-- by a `TERMINATE` at the control socket -/
  | terminated
  /-- by `zmq::error_t`, which `Start` catches -/
  | threw

inductive ServerInput (Msg : Type) where
  | pool (input : PoolInput Msg)
  /-- a `TERMINATE` at the control socket that is not from `Close` -/
  | control
  | proxyEnds (proxyEnd : ProxyEnd)
  /-- a call of `Close` -/
  | close
  /-- the next endpoint, whose `unbind` throws `zmq::error_t` if `threw` -/
  | unbind (threw : Bool)
  | workerStop
  /-- the `join` that `Close` waits in comes back -/
  | join
  | proxyStop
  | closeSockets

inductive ServerEvent (Msg : Type) where
  | worker (event : WorkerEvent Msg)
  | startReturned
  | closeReturned
  /-- an exception left `Close` -/
  | closeThrew

/-- `strncmp(url,"inproc",6)==0`, where `ZSocket::unbind` does nothing. -/
def isInproc (url : Bytes) : Bool := url.take 6 = ascii "inproc"

namespace RpcServer

variable {Msg : Type} (pb : Protobuf Msg) (map : RpcMethodMapT)

/-- What the frontend and the proxy let happen. -/
def Admits (s : RpcServer) : PoolInput Msg → Prop
  | .arrive _ _ => s.noreply = false ∧ s.closed = false
  | .deal _ => s.proxying = true ∧ s.noreply = false ∧ s.closed = false
  | .workerStop => False
  | .connect _ | .work .. | .close _ => True

instance (s : RpcServer) : (input : PoolInput Msg) → Decidable (s.Admits input)
  | .arrive _ _ => inferInstanceAs (Decidable (s.noreply = false ∧ s.closed = false))
  | .deal _ =>
    inferInstanceAs (Decidable (s.proxying = true ∧ s.noreply = false ∧ s.closed = false))
  | .workerStop => isFalse id
  | .connect _ | .work .. | .close _ => isTrue trivial

/-- The thread of a worker has come to its end. -/
def Ended (s : RpcServer) (j : Nat) : Prop :=
  ¬(s.pool.workers j).worker.InLoop ∧ j ∉ s.pool.turns

instance (s : RpcServer) (j : Nat) : Decidable (s.Ended j) :=
  inferInstanceAs (Decidable (_ ∧ _))

/-- A PUB frontend passes nothing on, so that no worker of a server with `noreply_` ever
comes to the point where it would not reply. -/
def step (s : RpcServer) : ServerInput Msg → Option (RpcServer × List (ServerEvent Msg))
  | .pool input =>
    if s.Admits input then
      (s.pool.step pb map input).map fun result =>
        ({ s with pool := result.1 }, result.2.map .worker)
    else none
  | .control => some ({ s with control := s.control + 1 }, [])
  | .proxyEnds .terminated =>
    if s.proxying ∧ 0 < s.control then
      some ({ s with proxying := false, control := s.control - 1 }, [.startReturned])
    else none
  | .proxyEnds .threw =>
    if s.proxying then some ({ s with proxying := false }, [.startReturned]) else none
  | .close =>
    match s.phase with
    | .outside =>
      some ({ s with phase := if s.started then .unbinding s.rpcBindVec else .closing }, [])
    | _ => none
  | .unbind threw =>
    match s.phase with
    | .unbinding (url :: rest) =>
      if threw ∧ ¬isInproc url then some ({ s with phase := .outside }, [.closeThrew])
      else some ({ s with phase := .unbinding rest }, [])
    | _ => none
  | .workerStop =>
    match s.phase with
    | .unbinding [] =>
      (s.pool.step pb map .workerStop).map fun result =>
        ({ s with started := false, phase := .joining 0, pool := result.1 },
          result.2.map .worker)
    | _ => none
  | .join =>
    match s.phase with
    | .joining it =>
      if it < s.pool.started ∧ s.Ended it then some ({ s with phase := .joining (it + 1) }, [])
      else none
    | _ => none
  | .proxyStop =>
    match s.phase with
    | .joining it =>
      if it = s.pool.started then
        some ({ s with phase := .closing, control := s.control + 1 }, [])
      else none
    | _ => none
  | .closeSockets =>
    match s.phase with
    | .closing => some ({ s with phase := .outside, closed := true }, [.closeReturned])
    | _ => none

section Rules

variable {pb map} {s next : RpcServer} {events : List (ServerEvent Msg)}

theorem step_pool {input : PoolInput Msg}
    (fired : s.step pb map (.pool input) = some (next, events)) : s.Admits input ∧
    ∃ p emitted, s.pool.step pb map input = some (p, emitted) ∧ next = { s with pool := p } := by
  simp only [step] at fired
  split at fired
  · rename_i admits
    obtain ⟨⟨p, emitted⟩, stepped, same⟩ := Option.map_eq_some_iff.mp fired
    exact ⟨admits, p, emitted, stepped, (Prod.mk.inj same).1.symm⟩
  · cases fired

theorem Admits.stopping {input : PoolInput Msg} {p : Pool} {emitted : List (WorkerEvent Msg)}
    (admits : s.Admits input) (stepped : s.pool.step pb map input = some (p, emitted)) :
    p.stopping = s.pool.stopping := by
  apply Pool.step_stopping _ stepped
  rintro rfl
  exact admits

theorem step_control (fired : s.step pb map .control = some (next, events)) :
    next = { s with control := s.control + 1 } :=
  (Prod.mk.inj (Option.some.inj fired)).1.symm

theorem step_proxyEnds {proxyEnd : ProxyEnd}
    (fired : s.step pb map (.proxyEnds proxyEnd) = some (next, events)) :
    ∃ control, next = { s with proxying := false, control } := by
  cases proxyEnd with
  | terminated =>
    simp only [step] at fired
    split at fired
    · exact ⟨_, (Prod.mk.inj (Option.some.inj fired)).1.symm⟩
    · cases fired
  | threw =>
    simp only [step] at fired
    split at fired
    · exact ⟨s.control, (Prod.mk.inj (Option.some.inj fired)).1.symm⟩
    · cases fired

theorem step_close (fired : s.step pb map .close = some (next, events)) :
    s.phase = .outside ∧
      next = { s with phase := if s.started then .unbinding s.rpcBindVec else .closing } := by
  simp only [step] at fired
  split at fired
  · rename_i outside
    exact ⟨outside, (Prod.mk.inj (Option.some.inj fired)).1.symm⟩
  · cases fired

theorem step_unbind {threw : Bool}
    (fired : s.step pb map (.unbind threw) = some (next, events)) :
    ∃ url rest, s.phase = .unbinding (url :: rest) ∧
      ((threw = true ∧ isInproc url = false ∧ next = { s with phase := .outside }) ∨
        next = { s with phase := .unbinding rest }) := by
  simp only [step] at fired
  split at fired
  · rename_i url rest unbinding
    refine ⟨url, rest, unbinding, ?_⟩
    split at fired
    · rename_i threw
      exact .inl ⟨threw.1, Bool.eq_false_of_not_eq_true threw.2,
        (Prod.mk.inj (Option.some.inj fired)).1.symm⟩
    · exact .inr (Prod.mk.inj (Option.some.inj fired)).1.symm
  · cases fired

theorem step_workerStop (fired : s.step pb map .workerStop = some (next, events)) :
    s.phase = .unbinding [] ∧ ∃ p emitted, s.pool.step pb map .workerStop = some (p, emitted) ∧
      next = { s with started := false, phase := .joining 0, pool := p } := by
  simp only [step] at fired
  split at fired
  · rename_i unbinding
    obtain ⟨⟨p, emitted⟩, stepped, same⟩ := Option.map_eq_some_iff.mp fired
    exact ⟨unbinding, p, emitted, stepped, (Prod.mk.inj same).1.symm⟩
  · cases fired

theorem step_join (fired : s.step pb map .join = some (next, events)) :
    ∃ it, s.phase = .joining it ∧ it < s.pool.started ∧ s.Ended it ∧
      next = { s with phase := .joining (it + 1) } := by
  simp only [step] at fired
  split at fired
  · rename_i it joining
    split at fired
    · rename_i joined
      exact ⟨it, joining, joined.1, joined.2, (Prod.mk.inj (Option.some.inj fired)).1.symm⟩
    · cases fired
  · cases fired

theorem step_proxyStop (fired : s.step pb map .proxyStop = some (next, events)) :
    s.phase = .joining s.pool.started ∧
      next = { s with phase := .closing, control := s.control + 1 } := by
  simp only [step] at fired
  split at fired
  · rename_i it joining
    split at fired
    · rename_i last
      exact ⟨last ▸ joining, (Prod.mk.inj (Option.some.inj fired)).1.symm⟩
    · cases fired
  · cases fired

theorem step_closeSockets (fired : s.step pb map .closeSockets = some (next, events)) :
    s.phase = .closing ∧ next = { s with phase := .outside, closed := true } := by
  simp only [step] at fired
  split at fired
  · rename_i closing
    exact ⟨closing, (Prod.mk.inj (Option.some.inj fired)).1.symm⟩
  · cases fired

/-- Only three kinds of step touch the pool or the proxy. -/
theorem step_cases {input : ServerInput Msg} (fired : s.step pb map input = some (next, events)) :
    (∃ input' p emitted, input = .pool input' ∧ s.Admits input' ∧
      s.pool.step pb map input' = some (p, emitted) ∧ next = { s with pool := p }) ∨
    (∃ p emitted, input = .workerStop ∧ s.pool.step pb map .workerStop = some (p, emitted) ∧
      next = { s with started := false, phase := .joining 0, pool := p }) ∨
    (∃ proxyEnd control, input = .proxyEnds proxyEnd ∧
      next = { s with proxying := false, control }) ∨
    ∃ phase control closed, next = { s with phase, control, closed } := by
  cases input with
  | pool input =>
    obtain ⟨admits, p, emitted, stepped, same⟩ := step_pool fired
    exact .inl ⟨input, p, emitted, rfl, admits, stepped, same⟩
  | workerStop =>
    obtain ⟨_, p, emitted, stepped, same⟩ := step_workerStop fired
    exact .inr (.inl ⟨p, emitted, rfl, stepped, same⟩)
  | proxyEnds proxyEnd =>
    obtain ⟨control, same⟩ := step_proxyEnds fired
    exact .inr (.inr (.inl ⟨proxyEnd, control, rfl, same⟩))
  | control => exact .inr (.inr (.inr ⟨_, _, _, step_control fired⟩))
  | close => exact .inr (.inr (.inr ⟨_, _, _, (step_close fired).2⟩))
  | unbind threw =>
    obtain ⟨_, _, _, ⟨_, _, same⟩ | same⟩ := step_unbind fired
    · exact .inr (.inr (.inr ⟨_, _, _, same⟩))
    · exact .inr (.inr (.inr ⟨_, _, _, same⟩))
  | join =>
    obtain ⟨_, _, _, _, same⟩ := step_join fired
    exact .inr (.inr (.inr ⟨_, _, _, same⟩))
  | proxyStop => exact .inr (.inr (.inr ⟨_, _, _, (step_proxyStop fired).2⟩))
  | closeSockets => exact .inr (.inr (.inr ⟨_, _, _, (step_closeSockets fired).2⟩))

end Rules

end RpcServer

end Zqrpc
