import Zqrpc.ZSocket
import Zqrpc.RpcChannel

/-! The server end: one worker's loop. An exception goes through the inner handler,
which answers a `ZError`, and then through the outer one, which drops three types
and lets every other type leave `operator()`. -/
namespace Zqrpc

open Numeral

/-- The four pointers an entry of the method table holds. -/
structure RpcMethod where
  service : Ptr
  request : Ptr
  response : Ptr
  method : Ptr
  deriving DecidableEq

abbrev RpcMethodMapT := Finmap fun _ : Bytes => RpcMethod

/-- What the worker uses of protobuf: `New()` on a prototype followed by
`ParseFromString`, and `SerializeToString`. -/
structure Protobuf (Msg : Type) where
  parse : Ptr → Bytes → Option Msg
  serialize : Msg → Option Bytes

/-- How a call of a handler ends: with the response object filled in, or not. -/
inductive HandlerEnd (Msg : Type) where
  | returned (response : Msg)
  | threw (e : Exn)

/-- `rpc_method->service_->CallMethod(method, request, response)` -/
abbrev Handler (Msg : Type) := RpcMethod → Msg → HandlerEnd Msg

inductive WorkerEvent (Msg : Type) where
  /-- an object made by `New()` on this prototype -/
  | new (prototype : Ptr)
  | called (method : RpcMethod) (request : Msg) (result : HandlerEnd Msg)
  /-- a complete message left the socket -/
  | sent (frames : FramesT)

/-- What the outside does in one iteration of the loop. -/
structure Round (Msg : Type) where
  /-- `BlockingRecv`, where `empty` stands for its `RetryException` -/
  recv : RecvResult
  handler : Handler Msg
  /-- the frames of the reply, and of the reply of the inner handler -/
  reply : Nat → SendOutcome
  errorReply : Nat → SendOutcome

structure RpcWorker where
  rpcMethodMap : RpcMethodMapT
  noreply : Bool

/-- The variables of `operator()` that live across iterations, with the exception
that left it. -/
structure Worker where
  frames : FramesT := []
  /-- frames `socket` holds of a message not yet complete -/
  pending : FramesT := []
  isrunning : Bool := true
  escaped : Option Exn := none

def Worker.InLoop (w : Worker) : Prop := w.isrunning = true ∧ w.escaped = none

instance (w : Worker) : Decidable w.InLoop := inferInstanceAs (Decidable (_ ∧ _))

def terminate : Bytes := ascii "TERMINATE"

/-- The test of the loop for its stop order. -/
def isStop (frames : FramesT) : Bool := frames.length == 2 && frames.getD 1 [] == terminate

section

variable {Msg : Type} (pb : Protobuf Msg) (config : RpcWorker)

/-- `if (!noreply_) socket.Send<FramesT>(frames)` -/
def sendReply (outcome : Nat → SendOutcome) (w : Worker) :
    Worker × List (WorkerEvent Msg) × Option Exn :=
  if config.noreply then (w, [], none)
  else
    let put := send outcome w.frames w.pending
    ({ w with pending := put.pending }, put.sent.map .sent,
      match put.result with
      | .ok _ => none
      | .error e => some e)

/-- `request_->New()` and `response_->New()` -/
def made (rpcMethod : RpcMethod) : List (WorkerEvent Msg) :=
  [.new rpcMethod.request, .new rpcMethod.response]

/-- The inner `try` block from the look-up of the method to the serialized response,
with the exception that ends it early. -/
def process (map : RpcMethodMapT) (handler : Handler Msg) (opcode buffer : Bytes) :
    List (WorkerEvent Msg) × Except Exn Bytes :=
  match map.lookup opcode with
  | none => ([], .error (.zerror ⟨.noSuchMethod, cStr []⟩))
  | some rpcMethod =>
    match pb.parse rpcMethod.request buffer with
    | none => (made rpcMethod, .error (.zerror ⟨.dataCorrupted, cStr []⟩))
    | some request =>
      let result := handler rpcMethod request
      let called := made rpcMethod ++ [.called rpcMethod request result]
      match result with
      | .threw e => (called, .error e)
      | .returned response =>
        match pb.serialize response with
        | none => (called, .error (.zerror ⟨.dataCorrupted, cStr []⟩))
        | some buffer => (called, .ok buffer)

/-- The inner `try` block. The size test leaves it by `continue`. -/
def serve (round : Round Msg) (w : Worker) : Worker × List (WorkerEvent Msg) × Option Exn :=
  if isStop w.frames then ({ w with isrunning := false }, [], some .exitException)
  else if w.frames.length ≠ 5 then (w, [], none)
  else
    let opcode := w.frames.getD 3 []
    let buffer := w.frames.getD 4 []
    let w := { w with frames := w.frames.dropLast.dropLast }
    match process pb config.rpcMethodMap round.handler opcode buffer with
    | (events, .error e) => (w, events, some e)
    | (events, .ok buffer) =>
      let w := { w with frames := w.frames ++ [ascii "0", buffer] }
      let (w, more, thrown) := sendReply config round.reply w
      (w, events ++ more, thrown)

/-- `catch(const zqrpc::ZError& e)` -/
def answerError (round : Round Msg) :
    Worker × List (WorkerEvent Msg) × Option Exn → Worker × List (WorkerEvent Msg) × Option Exn
  | (w, events, some (.zerror e)) =>
    let w := { w with frames := w.frames ++ [decimalInt e.icode, e.what.bytes] }
    let (w, more, thrown) := sendReply config round.errorReply w
    (w, events ++ more, thrown)
  | result => result

/-- The three outer `catch` clauses, which only log. -/
def Exn.dropped : Exn → Bool
  | .zmqError | .retryException | .exitException => true
  | _ => false

def Worker.iteration (round : Round Msg) (w : Worker) : Worker × List (WorkerEvent Msg) :=
  let w := { w with frames := [] }
  match round.recv with
  | .empty | .threw => (w, [])
  | .message frames =>
    let (w, events, thrown) := answerError config round (serve pb config round { w with frames })
    ({ w with escaped := thrown.filter fun e => !e.dropped }, events)

/-- `while (isrunning)`, with the events of each iteration. -/
def Worker.run : List (Round Msg) → Worker → Worker × List (List (WorkerEvent Msg))
  | [], w => (w, [])
  | round :: rounds, w =>
    if w.InLoop then
      let (w, events) := w.iteration pb config round
      let (w, later) := Worker.run rounds w
      (w, events :: later)
    else (w, [])

end

end Zqrpc
