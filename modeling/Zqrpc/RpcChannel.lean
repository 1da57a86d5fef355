import Zqrpc.ZSocket

/-! The client end: `ZSendMethod` and the receive loop of `ZRecvMethod`. A
controller is named by its address in the memory the callers keep it in. -/
namespace Zqrpc

open Numeral

inductive RespCodeE where
  | unset | working | ready | error | timedout
  deriving DecidableEq

structure ZController where
  reqno : Nat := sizeMod - 1
  rcode : RespCodeE := .unset
  zerror : ZError := ⟨.success, cStr []⟩
  payload : Bytes := []
  deriving DecidableEq

def ZController.ok (controller : ZController) : Bool := controller.rcode == .ready

/-- `ZController*` -/
abbrev Ptr := Nat

abbrev ReplyListT := Finmap fun _ : Nat => Ptr

structure RpcChannel where
  /-- frames `socket_` holds of a message not yet complete -/
  pending : FramesT := []
  replylist : ReplyListT := ∅
  nextreply : Nat := 0

/-- A channel and the memory its callers keep their controllers in. -/
structure Client where
  channel : RpcChannel := {}
  memory : Ptr → ZController := fun _ => {}

def Client.write (s : Client) (c : Ptr) (controller : ZController) : Client :=
  { s with memory := Function.update s.memory c controller }

inductive Event where
  /-- a complete message left the socket -/
  | wire (frames : FramesT)
  /-- `ZSendMethod` gave a request of `c` this id and left it outstanding -/
  | sent (c : Ptr) (id : Nat)
  | failed (c : Ptr)
  | polled (wait : Int)
  /-- `NonBlockingRecv` returned these frames -/
  | consumed (frames : FramesT)
  /-- `ZRecvMethod(c)` returned, with the bytes it parsed when `c.ok()` -/
  | returned (c : Ptr) (parsed : Option Bytes)
  | threw (c : Ptr) (e : Exn)
  deriving DecidableEq

/-- What `request->SerializeToString(&buffer)` does. -/
inductive Serialized where
  | bytes (buffer : Bytes)
  | failed
  | threw

/-- BLANK ID OPCODE BUFFER -/
def requestFrames (id : Nat) (opcode buffer : Bytes) : FramesT :=
  [[], decimal id, opcode, buffer]

/-- The `try` block of `ZSendMethod`, with the exception that leaves it. -/
def sendTry (fullName : Bytes) (c : Ptr) (request : Serialized) (outcome : Nat → SendOutcome)
    (s : Client) : Client × List Event × Option Exn :=
  match request with
  | .threw => (s, [], some .stdException)
  | .failed => (s, [], some (.zerror ⟨.invalidHeader, cStr []⟩))
  | .bytes buffer =>
    let nextid := (s.channel.nextreply + 1) % sizeMod
    let put := send outcome (requestFrames nextid fullName buffer) s.channel.pending
    let channel := { s.channel with nextreply := nextid, pending := put.pending }
    let wire := put.sent.map Event.wire
    match put.result with
    | .error e => ({ s with channel }, wire, some e)
    | .ok false => ({ s with channel }, wire, some .zmqError)
    | .ok true =>
      let replylist := channel.replylist.insert nextid c
      let controller :=
        { s.memory c with rcode := .working, reqno := channel.replylist.keys.card }
      ({ s with channel := { channel with replylist } }.write c controller,
        wire ++ [.sent c nextid], none)

def Client.fail (s : Client) (c : Ptr) (code : ErrorCodeE) : Client :=
  s.write c { s.memory c with zerror := (s.memory c).zerror.reset code, rcode := .error }

/-- The four `catch` clauses of `ZSendMethod`. -/
def sendCatch (c : Ptr) (s : Client) : Exn → Client × Option Exn
  | .zerror _ => (s.fail c .invalidHeader, none)
  | .retryException => (s.fail c .connectionError, none)
  | .zmqError => (s.fail c .connectionError, none)
  | e => if e.isStd then (s.fail c .clientError, none) else (s, some e)

def zSendMethod (fullName : Bytes) (c : Ptr) (request : Serialized)
    (outcome : Nat → SendOutcome) (s : Client) : Client × List Event × Option Exn :=
  match sendTry fullName c request outcome s with
  | (s, events, none) => (s, events, none)
  | (s, events, some e) => ((sendCatch c s e).1, events ++ [.failed c], (sendCatch c s e).2)

/-- The end of the loop body of `ZRecvMethod`, from the frame count to the erasure.
`frames.at(4)` is evaluated before anything is written. -/
def deliver (frames : FramesT) (s : Client) : Except Exn Client :=
  if frames.length ≠ 4 then .ok s
  else
    match lexicalCast (frames.getD 1 []) with
    | none => .error .badLexicalCast
    | some nextid =>
      if nextid > s.channel.nextreply then .ok s
      else
        match s.channel.replylist.lookup nextid with
        | none => .ok s
        | some othercon =>
          let erased :=
            { s with channel := { s.channel with replylist := s.channel.replylist.erase nextid } }
          let error := atoi (cStr (frames.getD 2 []))
          if error ≠ 0 then
            match frames[4]? with
            | none => .error .outOfRange
            | some text =>
              .ok (erased.write othercon
                { s.memory othercon with zerror := ⟨error, cStr text⟩, rcode := .error })
          else
            .ok (erased.write othercon
              { s.memory othercon with payload := frames.getD 3 [], rcode := .ready })

inductive PollResult where
  | readable | silent | threw
  deriving DecidableEq

/-- What `NonBlockingRecv` does: a message, `RetryException`, or `zmq::error_t`. -/
inductive RecvResult where
  | message (frames : FramesT)
  | empty
  | threw

/-- What the outside does in one iteration; the parts an iteration does not ask
for are not looked at. -/
structure Tick where
  now : Int
  poll : PollResult
  recv : RecvResult

/-- The local variables of a `ZRecvMethod` call in its loop. -/
structure RecvCall where
  controller : Ptr
  timeout : Int
  start : Int
  toget : Bool := false

/-- Where control goes after an iteration. -/
inductive Next where
  | again (toget : Bool)
  | leave
  | throw (e : Exn)

/-- The rest of an iteration once there is something to get. -/
def receive (tick : Tick) (s : Client) : Client × Next × List Event :=
  match tick.recv with
  | .empty => (s, .again false, [])
  | .threw => (s, .throw .zmqError, [])
  | .message frames =>
    match deliver frames s with
    | .ok s => (s, .again true, [.consumed frames])
    | .error e => (s, .throw e, [.consumed frames])

def iteration (call : RecvCall) (tick : Tick) (s : Client) : Client × Next × List Event :=
  if !call.toget && (s.memory call.controller).rcode ≠ .working then (s, .leave, [])
  else
    let elapsed := tick.now - call.start
    if elapsed > call.timeout then (s, .leave, [])
    else if call.toget then receive tick s
    else
      let polled := Event.polled (call.timeout - elapsed)
      match tick.poll with
      | .threw => (s, .throw .zmqError, [polled])
      | .silent => (s, .leave, [polled])
      | .readable =>
        let (s, next, events) := receive tick s
        (s, next, polled :: events)

/-- A channel between or inside the calls of its one thread. -/
structure Session where
  client : Client := {}
  call : Option RecvCall := none

inductive Input where
  | send (c : Ptr) (fullName : Bytes) (request : Serialized) (outcome : Nat → SendOutcome)
  | recv (c : Ptr) (timeout start : Int)
  | tick (t : Tick)

/-- `ZRecvMethod` up to its loop. -/
def recvCall (c : Ptr) (timeout start : Int) : RecvCall :=
  ⟨c, if timeout ≤ 0 then 60000 else timeout, start, false⟩

/-- The bytes given to `response->ParseFromString` after the loop. -/
def parsed (controller : ZController) : Option Bytes :=
  if controller.rcode = .ready then some controller.payload else none

/-- One call of `ZSendMethod`, the entry of `ZRecvMethod`, or one iteration of its
loop together with what follows the loop when the iteration ends it. -/
def Session.step (s : Session) : Input → Option (Session × List Event)
  | .send c fullName request outcome =>
    match s.call with
    | some _ => none
    | none =>
      let (client, events, thrown) := zSendMethod fullName c request outcome s.client
      some (⟨client, none⟩, events ++ (thrown.map (Event.threw c)).toList)
  | .recv c timeout start =>
    match s.call with
    | some _ => none
    | none => some (⟨s.client, some (recvCall c timeout start)⟩, [])
  | .tick t =>
    match s.call with
    | none => none
    | some call =>
      match iteration call t s.client with
      | (client, .again toget, events) => some (⟨client, some { call with toget }⟩, events)
      | (client, .leave, events) =>
        some (⟨client, none⟩,
          events ++ [.returned call.controller (parsed (client.memory call.controller))])
      | (client, .throw e, events) =>
        some (⟨client, none⟩, events ++ [.threw call.controller e])

end Zqrpc
