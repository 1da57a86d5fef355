import Zqrpc.Network

/-! What each step of the network can do, one rule a kind of step. -/
namespace Zqrpc

open Numeral

/-- A message under an entry stores the response there or throws. -/
theorem deliver_accepted (frames : FramesT) (s : Client) (id : Nat) (c : Ptr)
    (accepted : s.accepts frames = some (id, c)) :
    frames.length = 4 ∧ Reads id frames ∧ s.channel.replylist.lookup id = some c ∧
    deliver frames s = if atoi (cStr (frames.getD 2 [])) = 0
      then .ok (s.ready id c (frames.getD 3 [])) else .error .outOfRange := by
  unfold Client.accepts at accepted
  split at accepted
  · cases accepted
  · rename_i four
    rw [not_not] at four
    split at accepted
    · cases accepted
    · rename_i id' read
      split at accepted
      · cases accepted
      · rename_i known
        obtain ⟨c', entry, same⟩ := Option.map_eq_some_iff.mp accepted
        obtain ⟨rfl, rfl⟩ := Prod.mk.inj same
        refine ⟨four, read, entry, ?_⟩
        have fifth : frames[4]? = none := List.getElem?_eq_none (by omega)
        unfold deliver
        rw [if_neg (not_not.mpr four), read]
        simp only [known, if_false, entry, fifth]
        by_cases zero : atoi (cStr (frames.getD 2 [])) = 0
        · rw [if_pos zero, if_neg (not_not.mpr zero)]
          rfl
        · rw [if_neg zero, if_pos zero]

namespace Network

variable {Msg : Type} {pb : Protobuf Msg} {map : RpcMethodMapT} {net next : Network Msg}
  {accepted : List Acceptance}

@[simp] theorem setChannel_same (net : Network Msg) (k : Nat) (e : ChannelEnd) :
    (net.setChannel k e).channels k = some e := by simp [setChannel]

@[simp] theorem setChannel_other (net : Network Msg) (k k' : Nat) (e : ChannelEnd)
    (different : k' ≠ k) : (net.setChannel k e).channels k' = net.channels k' := by
  simp [setChannel, different]

theorem live_some (live : net.live k = some e) : net.channels k = some e ∧ e.isOpen = true :=
  Option.filter_eq_some_iff.mp live

/-- A request that succeeds enters the network, one that fails leaves no trace there. -/
theorem step_send
    (fired : net.step pb map (.send k c fullName request outcome) = some (next, accepted)) :
    ∃ e session events, net.live k = some e ∧
      e.session.step (.send c fullName request outcome) = some (session, events) ∧
      accepted = [] ∧
      ((∃ buffer, request = .bytes buffer ∧ Accepts outcome 4 ∧
          session.client = e.session.client.outstanding c ∧
          events = [.wire (e.session.client.channel.pending ++
            requestFrames e.session.client.nextid fullName buffer),
            .sent c e.session.client.nextid] ∧
          next = { net.setChannel k { e with session } with
            toServer := net.toServer ++ [⟨none, ⟨k, c, e.session.client.nextid, fullName, buffer⟩,
              e.identity :: (e.session.client.channel.pending ++
                requestFrames e.session.client.nextid fullName buffer)⟩]
            issued := net.issued ++ [⟨k, c, e.session.client.nextid, fullName, buffer⟩] }) ∨
        (¬Succeeds request outcome ∧ events = [.failed c] ∧
          session.client.channel.replylist = e.session.client.channel.replylist ∧
          next = net.setChannel k { e with session })) := by
  simp only [step] at fired
  split at fired
  · cases fired
  · rename_i e live
    split at fired
    · cases fired
    · rename_i session events stepped
      obtain ⟨rfl, rfl⟩ := Prod.mk.inj (Option.some.inj fired)
      refine ⟨e, session, events, live, stepped, rfl, ?_⟩
      obtain ⟨_, _, ⟨buffer, rfl, accepts, same, rfl⟩ |
        ⟨fails, rfl, channel, code, same, entries, _⟩⟩ :=
        e.session.step_send session c fullName request outcome events stepped
      · exact .inl ⟨buffer, rfl, accepts, same, rfl, rfl⟩
      · refine .inr ⟨fails, rfl, by rw [same, Client.fail_channel, entries], ?_⟩
        simp [departures, setChannel]

theorem incoming_message (incoming : net.incoming k taking = some (recv, packet))
    (taken : recv = .message frames) : ∃ i p, taking = .packet i ∧ net.toClients[i]? = some p ∧
      p.place = some k ∧ frames = p.frames ∧ packet = some p := by
  cases taking with
  | empty =>
    obtain ⟨rfl, _⟩ := Prod.mk.inj (Option.some.inj incoming)
    cases taken
  | threw =>
    obtain ⟨rfl, _⟩ := Prod.mk.inj (Option.some.inj incoming)
    cases taken
  | packet i =>
    simp only [Network.incoming] at incoming
    split at incoming
    · cases incoming
    · rename_i p there
      split at incoming
      · rename_i placed
        obtain ⟨rfl, rfl⟩ := Prod.mk.inj (Option.some.inj incoming)
        exact ⟨i, p, rfl, there, placed, (RecvResult.message.inj taken).symm, rfl⟩
      · cases incoming

/-- A receive step reads no message, or one that was routed to its channel. -/
theorem step_tick (fired : net.step pb map (.tick k now poll taking) = some (next, accepted)) :
    ∃ e session events recv, net.live k = some e ∧
      e.session.step (.tick ⟨now, poll, recv⟩) = some (session, events) ∧
      ((next = net.setChannel k { e with session } ∧ accepted = [] ∧
          ∀ frames, .consumed frames ∉ events) ∨
        ∃ i p, net.toClients[i]? = some p ∧ p.place = some k ∧ recv = .message p.frames ∧
          .consumed p.frames ∈ events ∧
          next = { net.setChannel k { e with session } with
            toClients := net.toClients.eraseIdx i } ∧
          accepted = ((e.session.client.accepts p.frames).map fun entry =>
            ⟨k, entry.1, entry.2, p.request⟩).toList) := by
  simp only [step] at fired
  split at fired
  · rename_i e recv packet live incoming
    split at fired
    · cases fired
    · rename_i session events stepped
      refine ⟨e, session, events, recv, live, stepped, ?_⟩
      by_cases read : events.any Event.isConsumed = true
      · have consumed : ∃ frames, .consumed frames ∈ events := by
          obtain ⟨event, member, is⟩ := List.any_eq_true.mp read
          cases event with
          | consumed frames => exact ⟨frames, member⟩
          | _ => cases is
        obtain ⟨frames, member⟩ := consumed
        have taken := (e.session.step_consumed session _ events frames stepped member).1
        obtain ⟨i, p, rfl, there, placed, rfl, rfl⟩ := incoming_message incoming taken
        simp only [afterTick, read, if_true] at fired
        obtain ⟨rfl, rfl⟩ := Prod.mk.inj (Option.some.inj fired)
        exact .inr ⟨i, p, there, placed, taken, member, rfl, rfl⟩
      · simp only [afterTick, read, if_false, Bool.false_eq_true] at fired
        obtain ⟨rfl, rfl⟩ := Prod.mk.inj (Option.some.inj fired)
        exact .inl ⟨rfl, rfl, fun frames member => read (List.any_eq_true.mpr ⟨_, member, rfl⟩)⟩
  · cases fired

/-- A worker takes a message out of the network for good. -/
theorem step_work
    (fired : net.step pb map (.work i handler reply errorReply) = some (next, accepted)) :
    ∃ j request frames, net.toServer[i]? = some ⟨some j, request, frames⟩ ∧ accepted = [] ∧
      ∃ worker events,
        (net.workers j).iteration pb ⟨map, false⟩ ⟨.message frames, handler, reply, errorReply⟩ =
          (worker, events) ∧
        next = { net with
          workers := Function.update net.workers j worker
          toServer := net.toServer.eraseIdx i
          toClients := net.toClients ++ (messages events).map (⟨none, request, ·⟩)
          invocations := net.invocations ++ events.filterMap (invocationOf request) } := by
  simp only [step] at fired
  split at fired
  · rename_i j request frames packet
    split at fired
    · obtain ⟨rfl, rfl⟩ := Prod.mk.inj (Option.some.inj fired)
      exact ⟨j, request, frames, packet, rfl, _, _, rfl, rfl⟩
    · cases fired
  · cases fired

/-- One iteration calls the handler once at most. -/
theorem iteration_invocations (pb : Protobuf Msg) (config : RpcWorker) (round : Round Msg)
    (w : Worker)
    (taken : round.recv = .message frames) (r : Request) :
    (w.iteration pb config round).2.filterMap (invocationOf r) = [] ∨
    ∃ rpcMethod argument, (w.iteration pb config round).2.filterMap (invocationOf r) =
      [⟨r, rpcMethod, argument, round.handler rpcMethod argument⟩] := by
  rcases iteration_events pb config frames w round taken with
    ⟨_, none⟩ | ⟨a, b, id, opcode, buffer, _, sent, events, _⟩
  · exact .inl (by rw [none]; rfl)
  · have silent : (sent.map .sent).filterMap (invocationOf r : WorkerEvent Msg → _) = [] := by
      apply List.filterMap_eq_nil_iff.mpr
      rintro e member
      obtain ⟨m, _, rfl⟩ := List.mem_map.mp member
      rfl
    rw [events, List.filterMap_append, silent, List.append_nil]
    rcases process_cases pb config.rpcMethodMap round.handler opcode buffer with
      ⟨_, same⟩ | ⟨rpcMethod, _, ⟨_, same⟩ | ⟨request, _, _, same, _⟩⟩
    · exact .inl (by rw [same]; rfl)
    · exact .inl (by rw [same]; rfl)
    · exact .inr ⟨rpcMethod, request, by rw [same]; rfl⟩

/-- A step in which no channel sends or reads and no worker runs: channels come, go
and enter calls, and messages move on or are lost. -/
structure Rearranges (input : NetworkInput Msg) (net next : Network Msg) : Prop where
  issued : next.issued = net.issued
  invocations : next.invocations = net.invocations
  kept : ∀ k e, net.channels k = some e →
    ∃ e', next.channels k = some e' ∧ e'.identity = e.identity
  channels : ∀ k e', next.channels k = some e' →
    (net.channels k = none ∧ ∃ first, input = .opened k first ∧ e' = { identity := first }) ∨
    ∃ e, net.channels k = some e ∧ e'.identity = e.identity ∧
      (e'.session = e.session ∨ ∃ c timeout start,
        e.session.step (.recv c timeout start) = some (e'.session, []))
  toServer : List.Sublist (next.toServer.map fun p => (p.request, p.frames))
    (net.toServer.map fun p => (p.request, p.frames))
  toClients : ∀ p ∈ next.toClients, p ∈ net.toClients ∨
    ∃ q ∈ net.toClients, q.place = none ∧ q.request = p.request ∧
      ∃ k e, p.place = some k ∧ net.channels k = some e ∧ q.frames = e.identity :: p.frames

def Moves : NetworkInput Msg → Prop
  | .send .. | .tick .. | .work .. => False
  | _ => True

theorem Rearranges.of_packets (input : NetworkInput Msg) (net : Network Msg)
    (toServer toClients : List Packet)
    (fewer : List.Sublist (toServer.map fun p => (p.request, p.frames))
      (net.toServer.map fun p => (p.request, p.frames)))
    (routed : ∀ p ∈ toClients, p ∈ net.toClients ∨
      ∃ q ∈ net.toClients, q.place = none ∧ q.request = p.request ∧
        ∃ k e, p.place = some k ∧ net.channels k = some e ∧ q.frames = e.identity :: p.frames) :
    Rearranges input net { net with toServer, toClients } where
  issued := rfl
  invocations := rfl
  kept _ e channel := ⟨e, channel, rfl⟩
  channels _ e channel := .inr ⟨e, channel, rfl, .inl rfl⟩
  toServer := fewer
  toClients := routed

theorem Rearranges.of_channel {e : ChannelEnd} (channel : net.channels k = some e)
    (e' : ChannelEnd) (named : e'.identity = e.identity)
    (calling : e'.session = e.session ∨ ∃ c timeout start,
      e.session.step (.recv c timeout start) = some (e'.session, []))
    (toClients : List Packet) (fewer : toClients ⊆ net.toClients) :
    Rearranges input net { net.setChannel k e' with toClients } where
  issued := rfl
  invocations := rfl
  kept k' old there := by
    by_cases own : k' = k
    · subst k'
      obtain rfl := Option.some.inj (channel.symm.trans there)
      exact ⟨e', by simp [setChannel], named⟩
    · exact ⟨old, by simpa [setChannel, own] using there, rfl⟩
  channels k' new there := by
    by_cases own : k' = k
    · subst k'
      obtain rfl : e' = new := by simpa [setChannel] using there
      exact .inr ⟨e, channel, named, calling⟩
    · exact .inr ⟨new, by simpa [setChannel, own] using there, rfl, .inl rfl⟩
  toServer := List.Sublist.refl _
  toClients p member := .inl (fewer member)

theorem rearranges_opened {k : Nat} {first : Bytes}
    (fired : net.step pb map (.opened k first) = some (next, accepted)) :
    accepted = [] ∧ Rearranges (.opened k first) net next := by
  simp only [step] at fired
  split at fired
  · cases fired
  · rename_i fresh
    obtain ⟨rfl, rfl⟩ := Prod.mk.inj (Option.some.inj fired)
    refine ⟨rfl, rfl, rfl, fun k' e there => ?_, fun k' e there => ?_, List.Sublist.refl _,
      fun p member => .inl member⟩
    · have other : k' ≠ k := by
        rintro rfl
        rw [fresh] at there
        cases there
      exact ⟨e, by simpa [setChannel, other] using there, rfl⟩
    · by_cases own : k' = k
      · subst k'
        obtain rfl : { identity := first } = e := by simpa [setChannel] using there
        exact .inl ⟨fresh, first, rfl, rfl⟩
      · exact .inr ⟨e, by simpa [setChannel, own] using there, rfl, .inl rfl⟩

/-- A packet that is dealt gets a place, and keeps its request and its frames. -/
theorem rearranges_deal {i j : Nat}
    (fired : net.step pb map (.deal i j) = some (next, accepted)) :
    accepted = [] ∧ Rearranges (.deal i j) net next := by
  simp only [step] at fired
  split at fired
  · rename_i r frames packet
    obtain ⟨rfl, rfl⟩ := Prod.mk.inj (Option.some.inj fired)
    refine ⟨rfl, .of_packets _ net _ net.toClients ?_ fun p member => .inl member⟩
    obtain ⟨bound, same⟩ := List.getElem?_eq_some_iff.mp packet
    have kept := List.set_getElem_self
      (show i < (net.toServer.map fun p => (p.request, p.frames)).length by simpa using bound)
    rw [List.getElem_map, same] at kept
    rw [List.map_set, kept]
  · cases fired

/-- The ROUTER takes the identity off and finds the channel by it. -/
theorem rearranges_route {i k : Nat}
    (fired : net.step pb map (.route i k) = some (next, accepted)) :
    accepted = [] ∧ Rearranges (.route i k) net next := by
  simp only [step] at fired
  split at fired
  · rename_i r first frames e packet live
    split at fired
    · rename_i named
      obtain ⟨rfl, rfl⟩ := Prod.mk.inj (Option.some.inj fired)
      refine ⟨rfl, .of_packets _ net net.toServer _ (List.Sublist.refl _) fun p member => ?_⟩
      rcases List.mem_or_eq_of_mem_set member with old | rfl
      · exact .inl old
      · exact .inr ⟨_, List.mem_of_getElem? packet, rfl, rfl, k, e, rfl, (live_some live).1,
          by rw [named]⟩
    · cases fired
  · cases fired

theorem step_moves (moves : Moves input) (fired : net.step pb map input = some (next, accepted)) :
    accepted = [] ∧ Rearranges input net next := by
  cases input with
  | send => exact moves.elim
  | tick => exact moves.elim
  | work => exact moves.elim
  | opened k first => exact rearranges_opened fired
  | closed k =>
    simp only [step] at fired
    split at fired
    · cases fired
    · rename_i e live
      split at fired
      · cases fired
      · obtain ⟨rfl, rfl⟩ := Prod.mk.inj (Option.some.inj fired)
        exact ⟨rfl, .of_channel (live_some live).1 { e with isOpen := false } rfl (.inl rfl) _
          (List.filter_subset_self _)⟩
  | recv k c timeout start =>
    simp only [step] at fired
    split at fired
    · cases fired
    · rename_i e live
      split at fired
      · cases fired
      · rename_i session events stepped
        obtain ⟨rfl, rfl⟩ := Prod.mk.inj (Option.some.inj fired)
        obtain ⟨_, _, rfl⟩ := e.session.step_recv session c timeout start events stepped
        exact ⟨rfl, .of_channel (live_some live).1 { e with session } rfl
          (.inr ⟨c, timeout, start, stepped⟩) net.toClients fun _ h => h⟩
  | deal i j => exact rearranges_deal fired
  | route i k => exact rearranges_route fired
  | loseRequest i =>
    obtain ⟨rfl, rfl⟩ := Prod.mk.inj (Option.some.inj fired)
    exact ⟨rfl, .of_packets _ net _ net.toClients ((List.eraseIdx_sublist _ _).map _)
      fun p member => .inl member⟩
  | loseReply i =>
    obtain ⟨rfl, rfl⟩ := Prod.mk.inj (Option.some.inj fired)
    exact ⟨rfl, .of_packets _ net net.toServer _ (List.Sublist.refl _)
      fun p member => .inl (List.eraseIdx_subset member)⟩

end Network

end Zqrpc
