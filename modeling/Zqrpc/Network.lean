import Zqrpc.RpcWorkerRules
import Zqrpc.RpcChannelRules

/-! One server and any number of channels and workers, with the messages between
them. A message may be lost at any place and is never copied. Each carries the
request it is there for, which no step looks at. -/
namespace Zqrpc

open Numeral

/-- A request as its `ZSendMethod` call knows it. -/
structure Request where
  channel : Nat
  controller : Ptr
  id : Nat
  opcode : Bytes
  buffer : Bytes
  deriving DecidableEq

/-- A message on its way: not yet at the proxy, or dealt to the worker or routed to
the channel of this number. -/
structure Packet where
  place : Option Nat
  request : Request
  frames : FramesT

/-- One call of a handler, with the request that led to it. -/
structure Invocation (Msg : Type) where
  request : Request
  rpcMethod : RpcMethod
  argument : Msg
  result : HandlerEnd Msg

structure ChannelEnd where
  identity : Bytes
  isOpen : Bool := true
  session : Session := {}

structure Network (Msg : Type) where
  channels : Nat → Option ChannelEnd := fun _ => none
  workers : Nat → Worker := fun _ => {}
  toServer : List Packet := []
  toClients : List Packet := []
  /-- every request that has left its channel -/
  issued : List Request := []
  invocations : List (Invocation Msg) := []

/-- What `NonBlockingRecv` finds: nothing, an error, or the message at this index. -/
inductive Taking where
  | empty
  | threw
  | packet (i : Nat)

inductive NetworkInput (Msg : Type) where
  /-- the constructor of `RpcChannel` in the thread of this identity -/
  | opened (k : Nat) (identity : Bytes)
  | closed (k : Nat)
  | send (k : Nat) (c : Ptr) (fullName : Bytes) (request : Serialized)
      (outcome : Nat → SendOutcome)
  | recv (k : Nat) (c : Ptr) (timeout start : Int)
  | tick (k : Nat) (now : Int) (poll : PollResult) (taking : Taking)
  /-- the DEALER gives a message to a worker -/
  | deal (i j : Nat)
  | work (i : Nat) (handler : Handler Msg) (reply errorReply : Nat → SendOutcome)
  /-- the ROUTER gives a message to the channel its first frame names -/
  | route (i k : Nat)
  | loseRequest (i : Nat)
  | loseReply (i : Nat)

/-- A channel takes a reply that was made for `request` as the reply to its own
request of this id. -/
structure Acceptance where
  channel : Nat
  id : Nat
  controller : Ptr
  request : Request

/-- The entry of `replylist_` a message is looked up under. -/
def Client.accepts (s : Client) (frames : FramesT) : Option (Nat × Ptr) :=
  if frames.length ≠ 4 then none
  else
    match lexicalCast (frames.getD 1 []) with
    | none => none
    | some nextid =>
      if nextid > s.channel.nextreply then none
      else (s.channel.replylist.lookup nextid).map (nextid, ·)

/-- The messages a `ZSendMethod` step lets out, as the ROUTER passes them on. -/
def departures (k : Nat) (identity : Bytes) (fullName : Bytes) (request : Serialized) :
    List Event → List Packet
  | [.wire frames, .sent c id] =>
    match request with
    | .bytes buffer => [⟨none, ⟨k, c, id, fullName, buffer⟩, identity :: frames⟩]
    | _ => []
  | _ => []

def Event.isConsumed : Event → Bool
  | .consumed _ => true
  | _ => false

def invocationOf {Msg : Type} (request : Request) : WorkerEvent Msg → Option (Invocation Msg)
  | .called rpcMethod argument result => some ⟨request, rpcMethod, argument, result⟩
  | _ => none

namespace Network

variable {Msg : Type} (pb : Protobuf Msg) (map : RpcMethodMapT)

def setChannel (net : Network Msg) (k : Nat) (e : ChannelEnd) : Network Msg :=
  { net with channels := Function.update net.channels k (some e) }

/-- The channel, when it is constructed and not yet closed. -/
def live (net : Network Msg) (k : Nat) : Option ChannelEnd :=
  (net.channels k).filter (·.isOpen)

/-- What the channel can receive, with the packet it comes from. -/
def incoming (net : Network Msg) (k : Nat) : Taking → Option (RecvResult × Option Packet)
  | .empty => some (.empty, none)
  | .threw => some (.threw, none)
  | .packet i =>
    match net.toClients[i]? with
    | none => none
    | some p => if p.place = some k then some (.message p.frames, some p) else none

/-- A message that was read leaves the network. -/
def afterTick (net : Network Msg) (k : Nat) (e : ChannelEnd) (taking : Taking)
    (packet : Option Packet) (session : Session) (events : List Event) :
    Network Msg × List Acceptance :=
  let net := net.setChannel k { e with session }
  if events.any Event.isConsumed then
    match taking, packet with
    | .packet i, some p =>
      ({ net with toClients := net.toClients.eraseIdx i },
        ((e.session.client.accepts p.frames).map fun entry =>
          ⟨k, entry.1, entry.2, p.request⟩).toList)
    | _, _ => (net, [])
  else (net, [])

def step (net : Network Msg) : NetworkInput Msg → Option (Network Msg × List Acceptance)
  | .opened k identity =>
    match net.channels k with
    | some _ => none
    | none => some (net.setChannel k { identity }, [])
  | .closed k =>
    match net.live k with
    | none => none
    | some e =>
      if e.session.call.isSome then none
      else some ({ net.setChannel k { e with isOpen := false } with
        toClients := net.toClients.filter fun p => p.place ≠ some k }, [])
  | .send k c fullName request outcome =>
    match net.live k with
    | none => none
    | some e =>
      match e.session.step (.send c fullName request outcome) with
      | none => none
      | some (session, events) =>
        let packets := departures k e.identity fullName request events
        some ({ net.setChannel k { e with session } with
          toServer := net.toServer ++ packets
          issued := net.issued ++ packets.map (·.request) }, [])
  | .recv k c timeout start =>
    match net.live k with
    | none => none
    | some e =>
      match e.session.step (.recv c timeout start) with
      | none => none
      | some (session, _) => some (net.setChannel k { e with session }, [])
  | .tick k now poll taking =>
    match net.live k, net.incoming k taking with
    | some e, some (recv, packet) =>
      match e.session.step (.tick ⟨now, poll, recv⟩) with
      | none => none
      | some (session, events) => some (net.afterTick k e taking packet session events)
    | _, _ => none
  | .deal i j =>
    match net.toServer[i]? with
    | some ⟨none, request, frames⟩ =>
      some ({ net with toServer := net.toServer.set i ⟨some j, request, frames⟩ }, [])
    | _ => none
  | .work i handler reply errorReply =>
    match net.toServer[i]? with
    | some ⟨some j, request, frames⟩ =>
      if (net.workers j).InLoop then
        let (worker, events) := (net.workers j).iteration pb ⟨map, false⟩
          ⟨.message frames, handler, reply, errorReply⟩
        some ({ net with
          workers := Function.update net.workers j worker
          toServer := net.toServer.eraseIdx i
          toClients := net.toClients ++ (messages events).map (⟨none, request, ·⟩)
          invocations := net.invocations ++ events.filterMap (invocationOf request) }, [])
      else none
    | _ => none
  | .route i k =>
    match net.toClients[i]?, net.live k with
    | some ⟨none, request, first :: frames⟩, some e =>
      if e.identity = first then
        some ({ net with toClients := net.toClients.set i ⟨some k, request, frames⟩ }, [])
      else none
    | _, _ => none
  | .loseRequest i => some ({ net with toServer := net.toServer.eraseIdx i }, [])
  | .loseReply i => some ({ net with toClients := net.toClients.eraseIdx i }, [])

end Network

end Zqrpc
