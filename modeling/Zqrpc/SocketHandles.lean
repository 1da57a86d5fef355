import Zqrpc.Owner
import Zqrpc.Path
import Zqrpc.ServerStart

/-! The `socket_t` objects of a process and the ZeroMQ sockets they own: in the channels, in
the servers, in the workers, and the local ones of `WorkerStop` and `ProxyStop`. Any call of
ZeroMQ may fail. -/
namespace Zqrpc

open Numeral Steps Unwinding Owner

section SocketT

variable {A : Type} [DecidableEq A]

def failure (fails : Bool) : Option Exn := if fails then some .zmqError else none

/-- What can be done with `socket_t` objects. -/
inductive SocketCall (A : Type) where
  /-- the constructor, whose `zmq_socket` may fail -/
  | construct (a : A) (fails : Bool)
  /-- `socket_t(socket_t&&)` -/
  | moveConstruct (a rhs : A)
  /-- `operator=(socket_t&&)` -/
  | assign (a rhs : A)
  | close (a : A)
  /-- a call with `ptr` that may throw `zmq::error_t` -/
  | request (a : A) (fails : Bool)
  | destruct (a : A)

def SocketCall.code : SocketCall A → Unwinding.Program (Memory A) Exn Unit
  | .construct a fails => Memory.construct a (failure fails)
  | .moveConstruct a rhs => Memory.moveConstruct a rhs
  | .assign a rhs => Memory.exchange a rhs
  | .close a => Memory.release a
  | .request a fails => Memory.call a .zmqError (failure fails)
  | .destruct a => Memory.destroy a

/-- Calls on objects that are there, and constructions of those that are not. -/
def socketStep (m : Memory A) (call : SocketCall A) : Option (Memory A × List (Except Exn Unit)) :=
  (call.code m).map fun outcome => (outcome.2, [outcome.1])

theorem socketStep_owned {m next : Memory A} {call : SocketCall A}
    {emitted : List (Except Exn Unit)} (owned : Owned m)
    (fired : socketStep m call = some (next, emitted)) : Owned next := by
  have holds : Holds m.alive m := ⟨owned, rfl⟩
  have inside {a : A} {content : Option Nat} (state : m.objects a = some content) : a ∈ m.alive :=
    fun none' => by simp [state] at none'
  have kept {Y Z : Set A} (rule : Triple (Holds m.alive) call.code (fun _ => Holds Y) (Holds Z)) :
      Owned next := by
    obtain ⟨_, run, same⟩ := Option.map_eq_some_iff.mp fired
    obtain ⟨rfl, -⟩ := Prod.mk.inj same
    rcases rule m holds with ⟨_, t, run', held⟩ | ⟨_, t, run', held⟩
    · rw [Option.some.inj (run.symm.trans run')]
      exact held.1
    · rw [Option.some.inj (run.symm.trans run')]
      exact held.1
  cases call with
  | construct a fails =>
    cases state : m.objects a with
    | none => exact kept (construct_rule (failure fails) fun there => there state)
    | some content => simp [socketStep, SocketCall.code, Memory.construct, state] at fired
  | moveConstruct a rhs =>
    cases state : m.objects a with
    | some content => simp [socketStep, SocketCall.code, Memory.moveConstruct, state] at fired
    | none =>
      cases state' : m.objects rhs with
      | none => simp [socketStep, SocketCall.code, Memory.moveConstruct, state, state'] at fired
      | some content =>
        exact kept (Z := ∅) (moveConstruct_rule (fun there => there state) (inside state'))
  | assign a rhs =>
    cases state : m.objects a with
    | none => simp [socketStep, SocketCall.code, Memory.exchange, state] at fired
    | some content =>
      cases state' : m.objects rhs with
      | none => simp [socketStep, SocketCall.code, Memory.exchange, state'] at fired
      | some content' => exact kept (Z := ∅) (exchange_rule (inside state) (inside state'))
  | close a =>
    cases state : m.objects a with
    | none => simp [socketStep, SocketCall.code, Memory.release, state] at fired
    | some content => exact kept (Z := ∅) (release_rule (inside state))
  | request a fails =>
    cases state : m.objects a with
    | none => simp [socketStep, SocketCall.code, Memory.call, state] at fired
    | some content => exact kept (call_rule Exn.zmqError (failure fails) (inside state))
  | destruct a =>
    cases state : m.objects a with
    | none => simp [socketStep, SocketCall.code, Memory.destroy, state] at fired
    | some content => exact kept (Z := ∅) (destroy_rule (inside state))

/-- However `socket_t` objects are constructed, moved, assigned, closed and destroyed, no
ZeroMQ socket is used or closed after it was closed, and one that is open is that of
exactly one object. -/
theorem socket_owned {calls : List (SocketCall A)} {events : List (Except Exn Unit)}
    {m : Memory A} (run : Path (Fires socketStep) {} calls events m) :
    Disciplined m.trace ∧ ∀ h, Open m.trace h ↔ ∃! a, m.objects a = some (some h) := by
  have owned : Owned m := run.state_invariant Owned
    (fun _ _ _ _ owned fired => socketStep_owned owned fired) .empty
  refine ⟨owned.disciplined, fun h => (owned.held h).trans ⟨?_, ?_⟩⟩
  · rintro ⟨a, holder⟩
    exact ⟨a, holder, fun b other => owned.unique b a h other holder⟩
  · rintro ⟨a, holder, -⟩
    exact ⟨a, holder⟩

/-- A socket that is moved twice and closed at its last place. -/
def moved : List (SocketCall (Fin 3)) :=
  [.construct 0 false, .construct 1 true, .moveConstruct 1 0, .request 0 false, .request 1 false,
    .construct 2 false, .assign 2 1, .destruct 1, .close 2, .close 2, .destruct 0]

theorem socket_owned_moved : ∃ events m, Path (Fires socketStep) {} moved events m ∧
    m.next = 2 ∧ Disciplined m.trace := by
  have run : ((execute socketStep moved {}).map fun outcome => outcome.1.next) = some 2 := by
    decide +kernel
  obtain ⟨⟨m, events⟩, run, opened⟩ := Option.map_eq_some_iff.mp run
  exact ⟨events, m, execute_path run, opened, (socket_owned (execute_path run)).1⟩

end SocketT

/-- The `socket_t` objects of the process. -/
inductive SocketAddr where
  | channel (k : Nat)
  | server (s : Nat) (socket : ServerSocket)
  /-- the one in `operator()` -/
  | worker (w : Nat)
  /-- the one in `WorkerStop` or `ProxyStop` -/
  | stopper (s : Nat)
  deriving DecidableEq

/-- What `Start` and `Close` go by. -/
structure ServerFields where
  rpcBindVec : List Bytes := []
  started : Bool := false
  /-- `threads_.size()` -/
  threads : Nat := 0

structure Process where
  sockets : Memory SocketAddr := {}
  servers : Nat → ServerFields := fun _ => {}
  /-- the threads of all servers -/
  made : Nat := 0
  /-- the threads that have begun -/
  begun : Nat := 0
  /-- `std::terminate` was called -/
  ended : Bool := false

namespace Process

abbrev Code (α : Type) := Unwinding.Program Process Exn α

def onSockets {α : Type} (p : Unwinding.Program (Memory SocketAddr) Exn α) : Code α :=
  p.zoom Process.sockets fun m p => { p with sockets := m }

/-- An exception that leaves the code ends the process: it is a destructor, or all that a
thread runs. -/
def noexcept (p : Code Unit) : Code Unit := p.unwinding (.modify fun p => { p with ended := true })

def setServer (s : Nat) (update : ServerFields → ServerFields) (p : Process) : Process :=
  { p with servers := Function.update p.servers s (update (p.servers s)) }

section SocketT

variable (a : SocketAddr)

/-- `init`, called by the constructors. -/
def init (fails : Bool) : Code Unit := onSockets (Memory.construct a (failure fails))

/-- `setsockopt`, `bind`, `unbind`, `connect`, `disconnect` and `recv`, which throw
`zmq::error_t` without a socket. -/
def request (fails : Bool) : Code Unit :=
  onSockets (Memory.call a .zmqError (failure fails))

def connected : Code Bool := onSockets (Memory.holds a)

def close : Code Unit := onSockets (Memory.release a)

def destructor : Code Unit := onSockets (Memory.destroy a)

end SocketT

section ZSocket

variable (a : SocketAddr)

def zSocket (id : Bytes) (fails : Nat → Bool) : Code Unit := do
  init a (fails 0)
  if 0 < id.length then (request a (fails 1)).unwinding (destructor a)

def disconnect (fails : Bool) : Code Unit := do
  if ← connected a then request a fails

def unbind (url : Bytes) (fails : Bool) : Code Unit :=
  if isInproc url then pure () else request a fails

/-- `Send` of one frame. -/
def sendString (outcome : SendOutcome) : Code Unit :=
  onSockets (Memory.call a .zmqError (match outcome with
    | .accepted => none
    | failure => some failure.exn))

end ZSocket

section RpcChannel

variable (k : Nat)

def rpcChannel (threadId : Bytes) (fails : Nat → Bool) : Code Unit := do
  zSocket (.channel k) threadId fails
  (request (.channel k) (fails 2)).unwinding (destructor (.channel k))

def channelClose (fails : Bool) : Code Unit := do
  disconnect (.channel k) fails
  close (.channel k)

def channelDestructor (fails : Bool) : Code Unit := do
  noexcept (channelClose k fails)
  destructor (.channel k)

end RpcChannel

section RpcServer

variable (s : Nat)

def rpcServer (fails : Nat → Bool) : Code Unit := do
  zSocket (.server s .frontend) (ascii "ROUTER") fails
  (do
    zSocket (.server s .backend) (ascii "DEALER") fun i => fails (2 + i)
    (zSocket (.server s .control) (ascii "CONTROL") fun i => fails (4 + i)).unwinding
      (destructor (.server s .backend))).unwinding (destructor (.server s .frontend))
  .modify (setServer s fun _ => {})

def endPoint (url : Bytes) : Code Unit :=
  .modify (setServer s fun fields => { fields with rpcBindVec := fields.rpcBindVec ++ [url] })

/-- One call with three sockets; how long it lasts is not told. -/
def proxyStart (fails : Bool) : Code Unit := do
  request (.server s .frontend) false
  request (.server s .backend) false
  request (.server s .control) fails

/-- The exceptions that `Start` only logs. -/
def caughtByStart : Exn → Bool
  | .proxyException | .zmqError => true
  | _ => false

def start (noofThreads : Nat) (fails : Nat → Bool) : Code Unit :=
  Unwinding.Program.catching caughtByStart do
    let urls ← .read fun p => (p.servers s).rpcBindVec
    .each (fun call => request (.server s .frontend) (fails call.2)) urls.zipIdx
    request (.server s .frontend) (fails urls.length)
    request (.server s .backend) (fails (urls.length + 1))
    request (.server s .control) (fails (urls.length + 2))
    .modify (setServer s fun fields => { fields with started := true })
    .modify (setServer s fun fields => { fields with threads := fields.threads + noofThreads })
    .modify fun p => { p with made := p.made + noofThreads }
    proxyStart s (fails (urls.length + 3))

/-- The calls of `WorkerStop` and of `ProxyStop`. -/
structure StopCalls where
  fails : Nat → Bool
  sends : Nat → SendOutcome

def stop (id : Bytes) (nos : Nat) (calls : StopCalls) : Code Unit := do
  zSocket (.stopper s) id calls.fails
  (do
    request (.stopper s) (calls.fails 2)
    .each (fun i => sendString (.stopper s) (calls.sends i)) (List.range nos)
    disconnect (.stopper s) (calls.fails 3)
    close (.stopper s)).ensuring (destructor (.stopper s))

def workerStop (nos : Nat) (calls : StopCalls) : Code Unit := stop s (ascii "WSTOP") nos calls
def proxyStop (calls : StopCalls) : Code Unit := stop s (ascii "TERMIN") 1 calls

/-- What `Close` does if the server is started. Its `join`s do nothing with the sockets. -/
def closeStarted (fields : ServerFields) (fails : Nat → Bool) (workers proxy : StopCalls) :
    Code Unit := do
  .each (fun call => unbind (.server s .frontend) call.1 (fails call.2)) fields.rpcBindVec.zipIdx
  .modify (setServer s fun fields => { fields with started := false })
  workerStop s fields.threads workers
  proxyStop s proxy

def serverClose (fails : Nat → Bool) (workers proxy : StopCalls) : Code Unit := do
  let fields ← .read fun p => p.servers s
  (if fields.started then closeStarted s fields fails workers proxy else pure ())
  close (.server s .frontend)
  close (.server s .backend)
  close (.server s .control)

/-- The sockets are destroyed in the reverse order of their declaration. -/
def serverDestructor (fails : Nat → Bool) (workers proxy : StopCalls) : Code Unit := do
  noexcept (serverClose s fails workers proxy)
  destructor (.server s .control)
  destructor (.server s .backend)
  destructor (.server s .frontend)

end RpcServer

section RpcWorker

/-- `operator()` up to its loop. -/
def workerBegins (threadId : Bytes) (fails : Nat → Bool) : Code Unit := noexcept do
  let w ← .read Process.begun
  .modify fun p => { p with begun := w + 1 }
  zSocket (.worker w) threadId fails
  request (.worker w) (fails 2)
  request (.worker w) (fails 3)

/-- The exceptions that the loop goes on after. -/
def caughtByWorker : Exn → Bool
  | .zmqError | .retryException | .exitException => true
  | _ => false

/-- A call in the loop. -/
def workerCalls (w : Nat) (fails : Bool) : Code Unit :=
  (request (.worker w) fails).catching caughtByWorker

/-- `operator()` behind its loop. -/
def workerEnds (w : Nat) (fails : Bool) : Code Unit := do
  noexcept do
    disconnect (.worker w) fails
    close (.worker w)
  destructor (.worker w)

def workerThrows (e : Exn) : Code Unit := noexcept (.throw e)

end RpcWorker

end Process

/-- What happens in a process, and which calls of ZeroMQ fail. -/
inductive ProcessInput where
  | newChannel (k : Nat) (threadId : Bytes) (fails : Nat → Bool)
  /-- a `send` or `recv` of one of its methods -/
  | useChannel (k : Nat) (fails : Bool)
  | closeChannel (k : Nat) (fails : Bool)
  | deleteChannel (k : Nat) (fails : Bool)
  | newServer (s : Nat) (fails : Nat → Bool)
  | endPoint (s : Nat) (url : Bytes)
  | start (s noofThreads : Nat) (fails : Nat → Bool)
  | closeServer (s : Nat) (fails : Nat → Bool) (workers proxy : Process.StopCalls)
  | deleteServer (s : Nat) (fails : Nat → Bool) (workers proxy : Process.StopCalls)
  | workerBegins (threadId : Bytes) (fails : Nat → Bool)
  | workerCalls (w : Nat) (fails : Bool)
  | workerEnds (w : Nat) (fails : Bool)
  /-- an exception that its loop does not catch leaves `operator()` -/
  | workerThrows (w : Nat) (e : Exn)

/-- Code that no exception leaves without ending the process. -/
def ProcessInput.Noexcept : ProcessInput → Prop
  | .deleteChannel .. | .deleteServer .. | .workerBegins .. | .workerEnds ..
  | .workerThrows .. => True
  | _ => False

namespace Process

def code : ProcessInput → Code Unit
  | .newChannel k threadId fails => rpcChannel k threadId fails
  | .useChannel k fails => request (.channel k) fails
  | .closeChannel k fails => channelClose k fails
  | .deleteChannel k fails => channelDestructor k fails
  | .newServer s fails => rpcServer s fails
  | .endPoint s url => endPoint s url
  | .start s noofThreads fails => start s noofThreads fails
  | .closeServer s fails workers proxy => serverClose s fails workers proxy
  | .deleteServer s fails workers proxy => serverDestructor s fails workers proxy
  | .workerBegins threadId fails => workerBegins threadId fails
  | .workerCalls w fails => workerCalls w fails
  | .workerEnds w fails => workerEnds w fails
  | .workerThrows _ e => workerThrows e

/-- The object a method is called on is there, and one that is constructed is not. -/
def Admits (p : Process) : ProcessInput → Prop
  | .newChannel k _ _ => p.sockets.objects (.channel k) = none
  | .useChannel k _ | .closeChannel k _ | .deleteChannel k _ =>
    p.sockets.objects (.channel k) ≠ none
  | .newServer s _ => p.sockets.objects (.server s .frontend) = none
  | .endPoint s _ | .start s _ _ | .closeServer s _ _ _ | .deleteServer s _ _ _ =>
    p.sockets.objects (.server s .frontend) ≠ none
  | .workerBegins _ _ => p.begun < p.made
  | .workerCalls w _ | .workerEnds w _ => p.sockets.objects (.worker w) ≠ none
  | .workerThrows w e => p.sockets.objects (.worker w) ≠ none ∧ caughtByWorker e = false

instance (p : Process) : (input : ProcessInput) → Decidable (p.Admits input)
  | .newChannel k _ _ => inferInstanceAs (Decidable (p.sockets.objects (.channel k) = none))
  | .useChannel k _ | .closeChannel k _ | .deleteChannel k _ =>
    inferInstanceAs (Decidable (p.sockets.objects (.channel k) ≠ none))
  | .newServer s _ => inferInstanceAs (Decidable (p.sockets.objects (.server s .frontend) = none))
  | .endPoint s _ | .start s _ _ | .closeServer s _ _ _ | .deleteServer s _ _ _ =>
    inferInstanceAs (Decidable (p.sockets.objects (.server s .frontend) ≠ none))
  | .workerBegins _ _ => inferInstanceAs (Decidable (p.begun < p.made))
  | .workerCalls w _ | .workerEnds w _ =>
    inferInstanceAs (Decidable (p.sockets.objects (.worker w) ≠ none))
  | .workerThrows w e => inferInstanceAs (Decidable
      (p.sockets.objects (.worker w) ≠ none ∧ caughtByWorker e = false))

/-- A step tells how the call came back. -/
def step (p : Process) (input : ProcessInput) : Option (Process × List (Except Exn Unit)) :=
  if p.ended = false ∧ p.Admits input then
    (code input p).map fun outcome => (outcome.2, [outcome.1])
  else none

end Process

end Zqrpc
