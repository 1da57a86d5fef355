import Zqrpc.NetworkRules
import Zqrpc.Path

/-! What holds of every message on its way. A message to the server is a request
behind the identity of its channel; a message of five frames to a client is the reply
to the request it was made for. -/
namespace Zqrpc

open Numeral Steps

namespace Network

variable {Msg : Type} (pb : Protobuf Msg) (map : RpcMethodMapT)

def identity (net : Network Msg) (k : Nat) : Option Bytes := (net.channels k).map (·.identity)

/-- The request as it left its channel, behind whatever the socket held before it. -/
def Requested (net : Network Msg) (r : Request) (frames : FramesT) : Prop :=
  r ∈ net.issued ∧ ∃ first pending, net.identity r.channel = some first ∧
    frames = first :: (pending ++ requestFrames r.id r.opcode r.buffer)

/-- What a worker replies to a request: the response of a handler call made for it, or
a `ZError` of the worker, or one that a handler called for it threw. -/
def Justified (net : Network Msg) (r : Request) (code data : Bytes) : Prop :=
  (∃ call ∈ net.invocations, call.request = r ∧
    map.lookup r.opcode = some call.rpcMethod ∧
    pb.parse call.rpcMethod.request r.buffer = some call.argument ∧
    ∃ response, call.result = .returned response ∧ pb.serialize response = some data) ∨
  ∃ error : ZError, code = decimalInt error.icode ∧
    (error.ecode ≠ 0 ∨ ∃ call ∈ net.invocations, call.result = .threw (.zerror error))

/-- A message of five frames is a reply to the request. -/
def Answered (net : Network Msg) (r : Request) (frames : FramesT) : Prop :=
  r ∈ net.issued ∧ ∃ first, net.identity r.channel = some first ∧
    (frames.length = 5 → ∃ code data, frames = [first, [], decimal r.id, code, data] ∧
      Justified pb map net r code data)

/-- The ROUTER has stripped the first frame of a message it has routed. -/
def Returning (net : Network Msg) (p : Packet) : Prop :=
  match p.place with
  | none => Answered pb map net p.request p.frames
  | some k => ∃ first, net.identity k = some first ∧
      Answered pb map net p.request (first :: p.frames)

structure Sound (net : Network Msg) : Prop where
  issued : ∀ r ∈ net.issued, r.id < sizeMod ∧ ∃ first, net.identity r.channel = some first
  toServer : ∀ p ∈ net.toServer, net.Requested p.request p.frames
  toClients : ∀ p ∈ net.toClients, Returning pb map net p
  entries : ∀ k e id c, net.channels k = some e →
    e.session.client.channel.replylist.lookup id = some c →
    ∃ r ∈ net.issued, r.channel = k ∧ r.controller = c ∧ r.id = id

/-- Requests, calls and identities stay once they are there. -/
structure Grows (net next : Network Msg) : Prop where
  identity : ∀ k first, net.identity k = some first → next.identity k = some first
  issued : net.issued ⊆ next.issued
  invocations : net.invocations ⊆ next.invocations

variable {pb map} {net next : Network Msg}

theorem Requested.mono (grows : Grows net next) (requested : net.Requested r frames) :
    next.Requested r frames := by
  obtain ⟨known, first, pending, named, shape⟩ := requested
  exact ⟨grows.issued known, first, pending, grows.identity _ _ named, shape⟩

theorem Justified.mono (grows : Grows net next) (justified : Justified pb map net r code data) :
    Justified pb map next r code data := by
  rcases justified with ⟨call, member, rest⟩ | ⟨error, same, nonzero | ⟨call, member, threw⟩⟩
  · exact .inl ⟨call, grows.invocations member, rest⟩
  · exact .inr ⟨error, same, .inl nonzero⟩
  · exact .inr ⟨error, same, .inr ⟨call, grows.invocations member, threw⟩⟩

theorem Answered.mono (grows : Grows net next) (answered : Answered pb map net r frames) :
    Answered pb map next r frames := by
  obtain ⟨known, first, named, reply⟩ := answered
  refine ⟨grows.issued known, first, grows.identity _ _ named, fun five => ?_⟩
  obtain ⟨code, data, shape, justified⟩ := reply five
  exact ⟨code, data, shape, justified.mono grows⟩

theorem Returning.mono (grows : Grows net next) (returning : Returning pb map net p) :
    Returning pb map next p := by
  unfold Returning at returning ⊢
  split at returning
  · exact returning.mono grows
  · obtain ⟨first, named, answered⟩ := returning
    exact ⟨first, grows.identity _ _ named, answered.mono grows⟩

/-- Only what a step adds needs to be looked at. -/
theorem Sound.grow (sound : Sound pb map net) (grows : Grows net next)
    (issued : ∀ r ∈ next.issued, r ∈ net.issued ∨
      r.id < sizeMod ∧ ∃ first, next.identity r.channel = some first)
    (toServer : ∀ p ∈ next.toServer,
      (∃ q ∈ net.toServer, q.request = p.request ∧ q.frames = p.frames) ∨
      next.Requested p.request p.frames)
    (toClients : ∀ p ∈ next.toClients, p ∈ net.toClients ∨ Returning pb map next p)
    (entries : ∀ k e id c, next.channels k = some e →
      e.session.client.channel.replylist.lookup id = some c →
      (∃ e', net.channels k = some e' ∧
        e'.session.client.channel.replylist.lookup id = some c) ∨
      ∃ r ∈ next.issued, r.channel = k ∧ r.controller = c ∧ r.id = id) :
    Sound pb map next where
  issued r member := by
    rcases issued r member with old | new
    · obtain ⟨fits, first, named⟩ := sound.issued r old
      exact ⟨fits, first, grows.identity _ _ named⟩
    · exact new
  toServer p member := by
    rcases toServer p member with ⟨q, old, request, frames⟩ | new
    · rw [← request, ← frames]
      exact (sound.toServer q old).mono grows
    · exact new
  toClients p member := by
    rcases toClients p member with old | new
    · exact (sound.toClients p old).mono grows
    · exact new
  entries k e id c channel entry := by
    rcases entries k e id c channel entry with ⟨e', old, entry'⟩ | new
    · obtain ⟨r, member, rest⟩ := sound.entries k e' id c old entry'
      exact ⟨r, grows.issued member, rest⟩
    · exact new

theorem Grows.of_same (channels : next.channels = net.channels) (issued : next.issued = net.issued)
    (invocations : net.invocations ⊆ next.invocations) : Grows net next where
  identity k first named := by rwa [Network.identity, channels]
  issued := by rw [issued]; exact fun _ h => h
  invocations := invocations

theorem identity_set (net : Network Msg) (k k' : Nat) (e : ChannelEnd) :
    (net.setChannel k e).identity k' = if k' = k then some e.identity else net.identity k' := by
  by_cases same : k' = k
  · simp [identity, setChannel, same]
  · simp [identity, setChannel, same]

/-- A step that writes one channel and keeps its identity. -/
theorem Grows.of_channel {e : ChannelEnd} (channel : net.channels k = some e) (e' : ChannelEnd)
    (same : e'.identity = e.identity)
    (channels : next.channels = (net.setChannel k e').channels)
    (issued : net.issued ⊆ next.issued) (invocations : net.invocations ⊆ next.invocations) :
    Grows net next where
  identity k' first named := by
    rw [Network.identity, channels, ← Network.identity, identity_set]
    split
    · rename_i own
      rw [own, Network.identity, channel] at named
      rw [same]
      exact named
    · exact named
  issued := issued
  invocations := invocations

theorem Rearranges.grows (moved : Rearranges input net next) : Grows net next where
  identity k first named := by
    obtain ⟨e, channel, rfl⟩ := Option.map_eq_some_iff.mp named
    obtain ⟨e', there, same⟩ := moved.kept k e channel
    rw [Network.identity, there, ← same]
    rfl
  issued := by rw [moved.issued]; exact fun _ h => h
  invocations := by rw [moved.invocations]; exact fun _ h => h

theorem step_grows (fired : net.step pb map input = some (next, accepted)) : Grows net next := by
  cases input with
  | send k c fullName request outcome =>
    obtain ⟨e, session, events, live, _, _, ⟨_, _, _, _, _, rfl⟩ | ⟨_, _, _, rfl⟩⟩ :=
      step_send fired
    · exact .of_channel (live_some live).1 { e with session } rfl rfl
        (List.subset_append_left _ _) fun _ h => h
    · exact .of_channel (live_some live).1 { e with session } rfl rfl (fun _ h => h) fun _ h => h
  | tick k now poll taking =>
    obtain ⟨e, session, _, _, live, _, ⟨rfl, _⟩ | ⟨_, _, _, _, _, _, rfl, _⟩⟩ := step_tick fired
    · exact .of_channel (live_some live).1 { e with session } rfl rfl (fun _ h => h) fun _ h => h
    · exact .of_channel (live_some live).1 { e with session } rfl rfl (fun _ h => h) fun _ h => h
  | work i handler reply errorReply =>
    obtain ⟨j, r, frames, packet, _, worker, events, it, rfl⟩ := step_work fired
    exact .of_same rfl rfl (List.subset_append_left _ _)
  | _ =>
    obtain ⟨_, moved⟩ := step_moves (by trivial) fired
    exact moved.grows

theorem sound_initial : Sound pb map ({} : Network Msg) :=
  ⟨by simp, by simp, by simp, by simp⟩

/-- The entries after a step that writes one channel. -/
theorem entries_set {New : Nat → Ptr → Prop} {e e' : ChannelEnd}
    (channel : net.channels k = some e)
    (kept : ∀ id c, e'.session.client.channel.replylist.lookup id = some c →
      e.session.client.channel.replylist.lookup id = some c ∨ New id c) :
    ∀ k' e'' id c, (net.setChannel k e').channels k' = some e'' →
      e''.session.client.channel.replylist.lookup id = some c →
      (∃ old, net.channels k' = some old ∧
        old.session.client.channel.replylist.lookup id = some c) ∨ (k' = k ∧ New id c) := by
  intro k' e'' id c channel' entry
  by_cases own : k' = k
  · subst k'
    simp only [setChannel, Function.update_self, Option.some.injEq] at channel'
    subst channel'
    rcases kept id c entry with old | new
    · exact .inl ⟨e, channel, old⟩
    · exact .inr ⟨rfl, new⟩
  · simp only [setChannel, Function.update_of_ne own] at channel'
    exact .inl ⟨e'', channel', entry⟩

/-- A step inside one channel that makes no entry and lets nothing out. -/
theorem Sound.of_channel {e e' : ChannelEnd} (sound : Sound pb map net)
    (channel : net.channels k = some e) (same : e'.identity = e.identity)
    (kept : ∀ id c, e'.session.client.channel.replylist.lookup id = some c →
      e.session.client.channel.replylist.lookup id = some c)
    (fewer : clients ⊆ net.toClients) :
    Sound pb map { net.setChannel k e' with toClients := clients } := by
  refine sound.grow (.of_channel channel e' same rfl (fun _ h => h) fun _ h => h)
    (fun r h => .inl h)
    (fun p h => .inl ⟨p, h, rfl, rfl⟩) (fun p h => .inl (fewer h)) fun k' e'' id c there entry => ?_
  have none (id : Nat) (c : Ptr) (h : e'.session.client.channel.replylist.lookup id = some c) :
      e.session.client.channel.replylist.lookup id = some c ∨ False := .inl (kept id c h)
  rcases entries_set channel none k' e'' id c there entry with old | ⟨_, new⟩
  · exact .inl old
  · exact new.elim

/-- A channel lets out a request and makes its entry. -/
theorem Sound.of_issue {e : ChannelEnd} (sound : Sound pb map net)
    (channel : net.channels k = some e) (e' : ChannelEnd) (r : Request)
    (same : e'.identity = e.identity) (own : r.channel = k)
    (fits : r.id < sizeMod)
    (kept : ∀ id c, e'.session.client.channel.replylist.lookup id = some c →
      e.session.client.channel.replylist.lookup id = some c ∨ (id = r.id ∧ c = r.controller))
    (pending : FramesT) :
    Sound pb map { net.setChannel k e' with
      toServer := net.toServer ++
        [⟨none, r, e.identity :: (pending ++ requestFrames r.id r.opcode r.buffer)⟩]
      issued := net.issued ++ [r] } := by
  have grows : Grows net { net.setChannel k e' with
      toServer := net.toServer ++
        [⟨none, r, e.identity :: (pending ++ requestFrames r.id r.opcode r.buffer)⟩]
      issued := net.issued ++ [r] } :=
    .of_channel channel e' same rfl (List.subset_append_left _ _) fun _ h => h
  have named := grows.identity k e.identity (by rw [identity, channel]; rfl)
  refine sound.grow grows (fun r' h => ?_) (fun p h => ?_) (fun p h => .inl h)
    fun k' e'' id c there entry => ?_
  · rcases List.mem_append.mp h with old | new
    · exact .inl old
    · obtain rfl := List.mem_singleton.mp new
      exact .inr ⟨fits, e.identity, own ▸ named⟩
  · rcases List.mem_append.mp h with old | new
    · exact .inl ⟨p, old, rfl, rfl⟩
    · obtain rfl := List.mem_singleton.mp new
      exact .inr ⟨by simp, e.identity, pending, own ▸ named, rfl⟩
  · rcases entries_set channel kept k' e'' id c there entry with old | ⟨rfl, rfl, rfl⟩
    · exact .inl old
    · exact .inr ⟨r, by simp, own, rfl, rfl⟩

theorem sound_send (sound : Sound pb map net)
    (fired : net.step pb map (.send k c fullName request outcome) = some (next, accepted)) :
    Sound pb map next := by
  obtain ⟨e, session, events, live, _, _, ⟨buffer, rfl, _, same, _, rfl⟩ | ⟨_, _, entries, rfl⟩⟩ :=
    step_send fired
  · refine sound.of_issue (live_some live).1 { e with session }
      ⟨k, c, e.session.client.nextid, fullName, buffer⟩ rfl rfl (Nat.mod_lt _ (by decide))
      (fun id c' entry => ?_) _
    simp only [same] at entry
    rcases Client.outstanding_entry entry with ⟨rfl, rfl⟩ | ⟨_, old⟩
    · exact .inr ⟨rfl, rfl⟩
    · exact .inl old
  · exact sound.of_channel (live_some live).1 rfl (fun id c h => by rwa [entries] at h) fun _ h => h

theorem sound_tick (sound : Sound pb map net)
    (fired : net.step pb map (.tick k now poll taking) = some (next, accepted)) :
    Sound pb map next := by
  obtain ⟨e, session, events, recv, live, stepped, shape⟩ := step_tick fired
  have kept : ∀ id c, session.client.channel.replylist.lookup id = some c →
      e.session.client.channel.replylist.lookup id = some c := by
    intro id c entry
    obtain ⟨_, _, _, ⟨same, _⟩ | ⟨_, _, _, ⟨id', c', _, _, _, same⟩ | ⟨_, same⟩⟩⟩ :=
      e.session.step_tick session _ events stepped
    · rwa [same] at entry
    · rw [same] at entry
      exact (Client.ready_entry entry).2
    · rwa [same] at entry
  rcases shape with ⟨rfl, _⟩ | ⟨i, p, _, _, _, _, rfl, _⟩
  · exact sound.of_channel (live_some live).1 rfl kept fun _ h => h
  · exact sound.of_channel (live_some live).1 rfl kept List.eraseIdx_subset

theorem sound_work (sound : Sound pb map net)
    (fired : net.step pb map (.work i handler reply errorReply) = some (next, accepted)) :
    Sound pb map next := by
  have grows := step_grows fired
  obtain ⟨j, r, frames, packet, _, worker, events, it, rfl⟩ := step_work fired
  obtain ⟨known, first, pending, named, shape⟩ := sound.toServer _ (List.mem_of_getElem? packet)
  refine sound.grow grows (fun r h => .inl h)
    (fun p h => .inl ⟨p, List.eraseIdx_subset h, rfl, rfl⟩) (fun p h => ?_)
    fun k e id c channel entry => .inl ⟨e, channel, entry⟩
  rcases List.mem_append.mp h with old | new
  · exact .inl old
  · right
    obtain ⟨m, sent, rfl⟩ := List.mem_map.mp new
    refine ⟨known, first, named, fun five => ?_⟩
    rcases iteration_events pb ⟨map, false⟩ frames (net.workers j)
      ⟨.message frames, handler, reply, errorReply⟩ rfl with
      ⟨_, silent⟩ | ⟨a, b, id, opcode, buffer, request, replies, all, fiveFrames⟩
    · rw [it] at silent
      simp [show events = [] from silent, messages] at sent
    · rw [it] at all
      obtain rfl : events = _ := all
      obtain ⟨rfl, rest⟩ := List.cons.inj (request.symm.trans shape)
      have lengths := congrArg List.length rest
      simp only [requestFrames, List.length_cons, List.length_append, List.length_nil] at lengths
      obtain rfl : pending = [] := List.eq_nil_of_length_eq_zero (by omega)
      obtain ⟨rfl, rfl, rfl, rfl, _⟩ : b = [] ∧ id = decimal r.id ∧ opcode = r.opcode ∧
        buffer = r.buffer ∧ True := by simpa [requestFrames] using rest
      rw [messages_append, process_messages, List.nil_append] at sent
      obtain ⟨code, data, rfl, ends⟩ := fiveFrames m (by simpa using sent) five
      refine ⟨code, data, rfl, ?_⟩
      have invoked {rpcMethod : RpcMethod} {argument : Msg} {result : HandlerEnd Msg}
          (called : .called rpcMethod argument result ∈
            (process pb map handler r.opcode r.buffer).1) :
          ⟨r, rpcMethod, argument, result⟩ ∈ net.invocations ++
            List.filterMap (invocationOf r)
              ((process pb map handler r.opcode r.buffer).1 ++ replies.map .sent) :=
        List.mem_append_right _ (List.mem_filterMap.mpr
          ⟨_, List.mem_append_left _ called, rfl⟩)
      rcases process_reply pb map ends with ⟨rpcMethod, argument, response, entry, parsed, called,
        serialized⟩ | ⟨error, same, nonzero | ⟨rpcMethod, argument, called⟩⟩
      · exact .inl ⟨_, invoked called, rfl, entry, parsed, response, rfl, serialized⟩
      · exact .inr ⟨error, same, .inl nonzero⟩
      · exact .inr ⟨error, same, .inr ⟨_, invoked called, rfl⟩⟩

theorem sound_moves (sound : Sound pb map net) (moved : Rearranges input net next) :
    Sound pb map next := by
  refine sound.grow moved.grows (fun r h => .inl (moved.issued ▸ h)) (fun p h => ?_) (fun p h => ?_)
    fun k e' id c there entry => ?_
  · obtain ⟨q, old, same⟩ := List.mem_map.mp (moved.toServer.subset (List.mem_map_of_mem h))
    exact .inl ⟨q, old, (Prod.mk.inj same).1, (Prod.mk.inj same).2⟩
  · rcases moved.toClients p h with old | ⟨q, old, unrouted, request, k, e, placed, channel, frames⟩
    · exact .inl old
    · right
      have before := sound.toClients q old
      rw [Returning, unrouted, request, frames] at before
      obtain ⟨e', there, same⟩ := moved.kept k e channel
      rw [Returning, placed]
      exact ⟨e.identity, by rw [identity, there, ← same]; rfl, before.mono moved.grows⟩
  · left
    rcases moved.channels k e' there with ⟨_, _, _, rfl⟩ | ⟨e, channel, _, same | ⟨_, _, _, called⟩⟩
    · simp at entry
    · exact ⟨e, channel, by rwa [same] at entry⟩
    · obtain ⟨_, same, _⟩ := e.session.step_recv e'.session _ _ _ _ called
      exact ⟨e, channel, by rwa [same] at entry⟩

theorem sound_step (sound : Sound pb map net)
    (fired : net.step pb map input = some (next, accepted)) :
    Sound pb map next := by
  cases input with
  | send k c fullName request outcome => exact sound_send sound fired
  | tick k now poll taking => exact sound_tick sound fired
  | work i handler reply errorReply => exact sound_work sound fired
  | _ => exact sound_moves sound (step_moves (by trivial) fired).2

/-- In every run every message is what its place says it is. -/
theorem run_sound (run : Path (Fires (Network.step pb map)) {} inputs accepted net) :
    Sound pb map net :=
  run.state_invariant (Sound pb map) (fun _ _ _ _ sound fired => sound_step sound fired)
    sound_initial

end Network

end Zqrpc
