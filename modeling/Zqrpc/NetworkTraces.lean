import Zqrpc.NetworkRuns
import Zqrpc.ChannelReplies

/-! A run of the network seen from one channel: its own run, the requests it has let
out and the messages it has read. -/
namespace Zqrpc

open Numeral Steps

def sentPair : Event → Option (Ptr × Nat)
  | .sent c id => some (c, id)
  | _ => none

/-- The requests left outstanding, as controller and id. -/
def sentPairs (events : List Event) : List (Ptr × Nat) := events.filterMap sentPair

theorem sentIds_eq (events : List Event) : sentIds events = (sentPairs events).map (·.2) := by
  rw [sentIds, sentPairs, List.map_filterMap]
  congr
  funext e
  cases e <;> rfl

@[simp] theorem sentPairs_sent (frames : FramesT) (c : Ptr) (id : Nat) :
    sentPairs [.wire frames, .sent c id] = [(c, id)] := rfl

theorem sentPairs_append (events more : List Event) :
    sentPairs (events ++ more) = sentPairs events ++ sentPairs more := List.filterMap_append

theorem sentPairs_quiet (events : List Event) (quiet : sentIds events = []) :
    sentPairs events = [] := by
  rw [sentIds_eq] at quiet
  exact List.map_eq_nil_iff.mp quiet

namespace Network

variable {Msg : Type} {pb : Protobuf Msg} {map : RpcMethodMapT} {net next : Network Msg}
  {inputs : List (NetworkInput Msg)} {input : NetworkInput Msg} {accepted : List Acceptance}

def senderOn (k : Nat) : NetworkInput Msg → Option Ptr
  | .send k' c .. => if k' = k then some c else none
  | _ => none

/-- The controllers passed to `ZSendMethod` on a channel. -/
def sendersOn (k : Nat) (inputs : List (NetworkInput Msg)) : List Ptr :=
  inputs.filterMap (senderOn k)

/-- The requests of a channel, as controller and id. -/
def issuedBy (net : Network Msg) (k : Nat) : List (Ptr × Nat) :=
  (net.issued.filter fun r => r.channel = k).map fun r => (r.controller, r.id)

/-- What the run of the network so far means for one channel. -/
def Follows (pb : Protobuf Msg) (map : RpcMethodMapT) (inputs : List (NetworkInput Msg))
    (net : Network Msg) (k : Nat) (e : ChannelEnd) : Prop :=
  ∃ past events, Path (Fires Session.step) {} past events e.session ∧
    senders past = sendersOn k inputs ∧
    net.issuedBy k = sentPairs events ∧
    ∀ m, .consumed m ∈ events → ∃ r, Answered pb map net r (e.identity :: m)

structure Traced (pb : Protobuf Msg) (map : RpcMethodMapT) (inputs : List (NetworkInput Msg))
    (net : Network Msg) : Prop where
  fresh : ∀ k, net.channels k = none → sendersOn k inputs = [] ∧ ∀ r ∈ net.issued, r.channel ≠ k
  follows : ∀ k e, net.channels k = some e → Follows pb map inputs net k e
  issued : ∀ r ∈ net.issued, ∃ outcome,
    .send r.channel r.controller r.opcode (.bytes r.buffer) outcome ∈ inputs
  called : ∀ call ∈ net.invocations, call.request ∈ net.issued ∧
    ∃ i handler reply errorReply, .work i handler reply errorReply ∈ inputs ∧
      call.result = handler call.rpcMethod call.argument
  named : ∀ k e, net.channels k = some e → .opened k e.identity ∈ inputs

theorem issuedBy_fresh (fresh : ∀ r ∈ net.issued, r.channel ≠ k) : net.issuedBy k = [] := by
  have none : net.issued.filter (fun r => decide (r.channel = k)) = [] := by
    apply List.filter_eq_nil_iff.mpr
    intro r member
    simpa using fresh r member
  rw [issuedBy, none, List.map_nil]

theorem sendersOn_append (k : Nat) (inputs more : List (NetworkInput Msg)) :
    sendersOn k (inputs ++ more) = sendersOn k inputs ++ sendersOn k more :=
  List.filterMap_append

/-- The steps of other channels and of the rest of the network. -/
theorem Follows.transport (follows : Follows pb map inputs net k e) (grows : Grows net next)
    (issued : next.issuedBy k = net.issuedBy k) (sender : sendersOn k [input] = [])
    (identity : e'.identity = e.identity) (session : e'.session = e.session) :
    Follows pb map (inputs ++ [input]) next k e' := by
  obtain ⟨past, events, run, sends, pairs, consumed⟩ := follows
  refine ⟨past, events, session ▸ run, ?_, issued ▸ pairs, fun m member => ?_⟩
  · rw [sendersOn_append, sender, List.append_nil, sends]
  · obtain ⟨r, answered⟩ := consumed m member
    exact ⟨r, identity ▸ answered.mono grows⟩

/-- A step of the channel itself. -/
theorem Follows.snoc (follows : Follows pb map inputs net k e) (grows : Grows net next)
    (e' : ChannelEnd) (stepped : e.session.step own = some (e'.session, emitted))
    (issued : next.issuedBy k = net.issuedBy k ++ sentPairs emitted)
    (sender : sendersOn k [input] = senders [own]) (identity : e'.identity = e.identity)
    (reads : ∀ m, .consumed m ∈ emitted → ∃ r, Answered pb map net r (e.identity :: m)) :
    Follows pb map (inputs ++ [input]) next k e' := by
  obtain ⟨past, events, run, sends, pairs, consumed⟩ := follows
  refine ⟨past ++ [own], events ++ emitted, run.snoc stepped, ?_, ?_, fun m member => ?_⟩
  · rw [senders_append, sendersOn_append, sends, sender]
  · rw [issued, pairs, sentPairs_append]
  · rw [identity]
    rcases List.mem_append.mp member with old | new
    · obtain ⟨r, answered⟩ := consumed m old
      exact ⟨r, answered.mono grows⟩
    · obtain ⟨r, answered⟩ := reads m new
      exact ⟨r, answered.mono grows⟩

theorem traced_initial : Traced pb map [] ({} : Network Msg) :=
  ⟨by simp [sendersOn], by simp, by simp, by simp, by simp⟩

theorem Traced.sent_before (traced : Traced pb map inputs net) (known : r ∈ net.issued)
    (more : List (NetworkInput Msg)) : ∃ outcome,
    .send r.channel r.controller r.opcode (.bytes r.buffer) outcome ∈ inputs ++ more := by
  obtain ⟨outcome, sent⟩ := traced.issued r known
  exact ⟨outcome, List.mem_append_left _ sent⟩

theorem Traced.called_before (traced : Traced pb map inputs net) (grows : Grows net next)
    {call : Invocation Msg} (member : call ∈ net.invocations) (more : List (NetworkInput Msg)) :
    call.request ∈ next.issued ∧ ∃ i handler reply errorReply,
      .work i handler reply errorReply ∈ inputs ++ more ∧
      call.result = handler call.rpcMethod call.argument := by
  obtain ⟨known, i, handler, reply, errorReply, worked, result⟩ := traced.called call member
  exact ⟨grows.issued known, i, handler, reply, errorReply, List.mem_append_left _ worked, result⟩

/-- A step that writes the channel `k`: the others follow as before. -/
theorem Traced.of_channel {e : ChannelEnd} (traced : Traced pb map inputs net)
    (grows : Grows net next) (channel : net.channels k = some e) (e' : ChannelEnd)
    (channels : next.channels = (net.setChannel k e').channels)
    (identity : e'.identity = e.identity) (invocations : next.invocations = net.invocations)
    (others : ∀ k' ≠ k, sendersOn k' [input] = [])
    (issued : next.issued = net.issued ++ more)
    (new : ∀ r ∈ more, r.channel = k ∧ ∃ outcome,
      input = .send r.channel r.controller r.opcode (.bytes r.buffer) outcome)
    (follows : Follows pb map (inputs ++ [input]) next k e') :
    Traced pb map (inputs ++ [input]) next := by
  have elsewhere (k' : Nat) (other : k' ≠ k) : next.channels k' = net.channels k' := by
    rw [channels, setChannel_other _ _ _ _ other]
  have here : next.channels k = some e' := by rw [channels, setChannel_same]
  have same (k' : Nat) (other : k' ≠ k) : next.issuedBy k' = net.issuedBy k' := by
    have none : more.filter (fun r => decide (r.channel = k')) = [] := by
      apply List.filter_eq_nil_iff.mpr
      intro r member
      simpa [(new r member).1] using other.symm
    rw [issuedBy, issued, List.filter_append, none, List.append_nil, issuedBy]
  refine ⟨fun k' absent => ?_, fun k' e'' there => ?_, fun r member => ?_, fun call member => ?_,
    fun k' e'' there => ?_⟩
  · have other : k' ≠ k := by
      rintro rfl
      rw [here] at absent
      cases absent
    obtain ⟨unsent, apart⟩ := traced.fresh k' (elsewhere k' other ▸ absent)
    refine ⟨by rw [sendersOn_append, unsent, others k' other, List.append_nil], fun r member => ?_⟩
    rw [issued] at member
    rcases List.mem_append.mp member with old | last
    · exact apart r old
    · rw [(new r last).1]
      exact other.symm
  · by_cases own : k' = k
    · subst k'
      obtain rfl := Option.some.inj (here.symm.trans there)
      exact follows
    · rw [elsewhere k' own] at there
      exact (traced.follows k' e'' there).transport grows (same k' own) (others k' own) rfl rfl
  · rw [issued] at member
    rcases List.mem_append.mp member with old | last
    · exact traced.sent_before old _
    · obtain ⟨_, outcome, rfl⟩ := new r last
      exact ⟨outcome, List.mem_append_right _ (List.mem_singleton_self _)⟩
  · rw [invocations] at member
    exact traced.called_before grows member _
  · by_cases own : k' = k
    · subst k'
      obtain rfl := Option.some.inj (here.symm.trans there)
      rw [identity]
      exact List.mem_append_left _ (traced.named k e channel)
    · rw [elsewhere k' own] at there
      exact List.mem_append_left _ (traced.named k' e'' there)

theorem traced_send (traced : Traced pb map inputs net)
    (fired : net.step pb map (.send k c fullName request outcome) = some (next, accepted)) :
    Traced pb map (inputs ++ [.send k c fullName request outcome]) next := by
  have grows := step_grows fired
  have others (k' : Nat) (other : k' ≠ k) :
      sendersOn k' [(.send k c fullName request outcome : NetworkInput Msg)] = [] := by
    simp [sendersOn, senderOn, other.symm]
  have sender : sendersOn k [(.send k c fullName request outcome : NetworkInput Msg)] =
      senders [.send c fullName request outcome] := by
    simp [sendersOn, senderOn, senders, Input.sender]
  obtain ⟨e, session, events, live, stepped, _, ⟨buffer, rfl, _, _, rfl, shape⟩ |
    ⟨_, rfl, _, shape⟩⟩ := step_send fired
  · have issued : next.issued = net.issued ++
        [⟨k, c, e.session.client.nextid, fullName, buffer⟩] := by rw [shape]
    refine traced.of_channel grows (live_some live).1 { e with session } (by rw [shape]) rfl
      (by rw [shape]; rfl) others issued (fun r member => ?_) ?_
    · obtain rfl := List.mem_singleton.mp member
      exact ⟨rfl, outcome, rfl⟩
    · apply (traced.follows k e (live_some live).1).snoc grows { e with session } stepped
      · rw [issuedBy, issued, List.filter_append, List.map_append, sentPairs_sent, issuedBy]
        simp
      · exact sender
      · rfl
      · simp
  · have issued : next.issued = net.issued ++ [] := by rw [shape, List.append_nil]; rfl
    refine traced.of_channel grows (live_some live).1 { e with session } (by rw [shape]) rfl
      (by rw [shape]; rfl) others issued (by simp) ?_
    apply (traced.follows k e (live_some live).1).snoc grows { e with session } stepped
    · rw [issuedBy, issued, List.append_nil, sentPairs_quiet _ (sentIds_failed c),
        List.append_nil, issuedBy]
    · exact sender
    · rfl
    · simp

theorem traced_tick (traced : Traced pb map inputs net) (sound : Sound pb map net)
    (fired : net.step pb map (.tick k now poll taking) = some (next, accepted)) :
    Traced pb map (inputs ++ [.tick k now poll taking]) next := by
  have grows := step_grows fired
  obtain ⟨e, session, events, recv, live, stepped, shape⟩ := step_tick fired
  have quiet : sentIds events = [] := by
    obtain ⟨before, after, around, ⟨_, rfl⟩ | ⟨frames, _, rfl, _⟩⟩ :=
      e.session.step_tick session _ events stepped
    · exact sentIds_around _ around
    · exact sentIds_reading frames around
  have reads : ∀ m, .consumed m ∈ events → ∃ r, Answered pb map net r (e.identity :: m) := by
    intro m member
    rcases shape with ⟨_, _, unread⟩ | ⟨i, p, there, placed, taken, _, _⟩
    · exact absurd member (unread m)
    · have same := (e.session.step_consumed session _ events m stepped member).1
      obtain rfl := RecvResult.message.inj (same.symm.trans taken)
      have returning := sound.toClients p (List.mem_of_getElem? there)
      rw [Returning, placed] at returning
      obtain ⟨first, named, answered⟩ := returning
      rw [identity, (live_some live).1] at named
      obtain rfl := Option.some.inj named
      exact ⟨p.request, answered⟩
  have others (k' : Nat) (_ : k' ≠ k) :
      sendersOn k' [(.tick k now poll taking : NetworkInput Msg)] = [] := rfl
  have written : next.channels = (net.setChannel k { e with session }).channels ∧
      next.issued = net.issued ∧ next.invocations = net.invocations := by
    rcases shape with ⟨rfl, _⟩ | ⟨_, _, _, _, _, _, rfl, _⟩ <;> exact ⟨rfl, rfl, rfl⟩
  obtain ⟨channels, issued, invocations⟩ := written
  refine traced.of_channel grows (live_some live).1 { e with session } channels rfl invocations
    others (issued.trans (List.append_nil _).symm) (by simp) ?_
  apply (traced.follows k e (live_some live).1).snoc grows { e with session } stepped
  · rw [sentPairs_quiet events quiet, List.append_nil, issuedBy, issued, issuedBy]
  · rfl
  · rfl
  · exact reads

theorem traced_work (traced : Traced pb map inputs net) (sound : Sound pb map net)
    (fired : net.step pb map (.work i handler reply errorReply) = some (next, accepted)) :
    Traced pb map (inputs ++ [.work i handler reply errorReply]) next := by
  have grows := step_grows fired
  obtain ⟨j, r, frames, packet, _, worker, events, it, shape⟩ := step_work fired
  have known : r ∈ net.issued := (sound.toServer _ (List.mem_of_getElem? packet)).1
  have channels : next.channels = net.channels := by rw [shape]
  have issued : next.issued = net.issued := by rw [shape]
  have same (k : Nat) : next.issuedBy k = net.issuedBy k := by rw [issuedBy, issued, issuedBy]
  refine ⟨fun k absent => ?_, fun k e there => ?_, fun r member => ?_, fun call member => ?_,
    fun k e there => ?_⟩
  · obtain ⟨unsent, apart⟩ := traced.fresh k (channels ▸ absent)
    refine ⟨?_, fun r member => apart r (issued ▸ member)⟩
    rw [sendersOn_append, unsent]
    rfl
  · exact (traced.follows k e (channels ▸ there)).transport grows (same k) rfl rfl rfl
  · exact traced.sent_before (issued ▸ member) _
  · rw [shape] at member
    rcases List.mem_append.mp member with old | new
    · exact traced.called_before grows old _
    · have invoked := iteration_invocations pb ⟨map, false⟩
        ⟨.message frames, handler, reply, errorReply⟩ (net.workers j) rfl r
      rw [it] at invoked
      rcases invoked with none | ⟨rpcMethod, argument, one⟩
      · rw [none] at new
        cases new
      · rw [one] at new
        obtain rfl := List.mem_singleton.mp new
        exact ⟨grows.issued known, i, handler, reply, errorReply,
          List.mem_append_right _ (List.mem_singleton_self _), rfl⟩
  · exact List.mem_append_left _ (traced.named k e (channels ▸ there))

theorem traced_moves (traced : Traced pb map inputs net) (moves : Moves input)
    (fired : net.step pb map input = some (next, accepted)) :
    Traced pb map (inputs ++ [input]) next := by
  have grows := step_grows fired
  obtain ⟨_, moved⟩ := step_moves moves fired
  have others (k : Nat) : sendersOn k [input] = [] := by
    cases input <;> first | rfl | exact moves.elim
  have same (k : Nat) : next.issuedBy k = net.issuedBy k := by
    rw [issuedBy, moved.issued, issuedBy]
  refine ⟨fun k absent => ?_, fun k e' there => ?_, fun r member => ?_, fun call member => ?_,
    fun k e' there => ?_⟩
  · have before : net.channels k = none := by
      by_contra some
      obtain ⟨e, there⟩ := Option.ne_none_iff_exists'.mp some
      obtain ⟨e', after, _⟩ := moved.kept k e there
      rw [absent] at after
      cases after
    obtain ⟨unsent, apart⟩ := traced.fresh k before
    exact ⟨by rw [sendersOn_append, unsent, others, List.append_nil],
      fun r member => apart r (moved.issued ▸ member)⟩
  · rcases moved.channels k e' there with ⟨fresh, first, _, rfl⟩ | ⟨e, channel, named, session |
      ⟨c, timeout, start, called⟩⟩
    · obtain ⟨unsent, apart⟩ := traced.fresh k fresh
      refine ⟨[], [], .nil, ?_, ?_, by simp⟩
      · rw [sendersOn_append, unsent, others]
        rfl
      · rw [same, issuedBy_fresh apart]
        rfl
    · exact (traced.follows k e channel).transport grows (same k) (others k) named session
    · apply (traced.follows k e channel).snoc grows e' called
      · rw [same]
        exact (List.append_nil _).symm
      · exact others k
      · exact named
      · simp
  · rw [moved.issued] at member
    exact traced.sent_before member _
  · rw [moved.invocations] at member
    exact traced.called_before grows member _
  · rcases moved.channels k e' there with ⟨_, first, rfl, rfl⟩ | ⟨e, channel, named, _⟩
    · exact List.mem_append_right _ (List.mem_singleton_self _)
    · rw [named]
      exact List.mem_append_left _ (traced.named k e channel)

theorem traced_step (traced : Traced pb map inputs net) (sound : Sound pb map net)
    (fired : net.step pb map input = some (next, accepted)) :
    Traced pb map (inputs ++ [input]) next := by
  cases input with
  | send k c fullName request outcome => exact traced_send traced fired
  | tick k now poll taking => exact traced_tick traced sound fired
  | work i handler reply errorReply => exact traced_work traced sound fired
  | _ => exact traced_moves traced (by trivial) fired

theorem run_traced (run : Path (Fires (Network.step pb map)) {} inputs accepted net) :
    Traced pb map inputs net ∧ Sound pb map net :=
  run.invariant (fun inputs _ net => Traced pb map inputs net ∧ Sound pb map net)
    (fun _ _ _ _ _ _ held fired => ⟨traced_step held.1 held.2 fired, sound_step held.2 fired⟩)
    ⟨traced_initial, sound_initial⟩

/-- No request is on its way twice, or on its way once a handler was called for it. -/
def Once (net : Network Msg) : Prop :=
  (net.toServer.map (·.request) ++ net.invocations.map (·.request)).Nodup

/-- The ids of a channel are distinct when each of its controllers is sent once and the
counter does not come round. -/
theorem Traced.ids_nodup (traced : Traced pb map inputs net) (k : Nat)
    (own : (sendersOn k inputs).Nodup) (fewer : (sendersOn k inputs).length < sizeMod) :
    ((net.issuedBy k).map (·.2)).Nodup := by
  cases channel : net.channels k with
  | none =>
    rw [issuedBy_fresh (traced.fresh k channel).2]
    exact List.nodup_nil
  | some e =>
    obtain ⟨past, events, run, sends, pairs, _⟩ := traced.follows k e channel
    rw [← sends] at own fewer
    obtain ⟨meets, _⟩ := once_unburdened run own fewer
    rw [pairs, ← sentIds_eq]
    exact (run_tracks (meets.mono fun _ _ _ _ h => ⟨h.1.1, h.2⟩)).distinct

/-- A request that leaves its channel is not one of those that left before. -/
theorem fresh_request (traced : Traced pb map (inputs ++ [input]) next)
    (own : ∀ k, (sendersOn k (inputs ++ [input])).Nodup)
    (fewer : ∀ k, (sendersOn k (inputs ++ [input])).length < sizeMod)
    (issued : next.issued = net.issued ++ [r]) : r ∉ net.issued := by
  intro known
  have ids := traced.ids_nodup r.channel (own _) (fewer _)
  rw [issuedBy, issued, List.filter_append, List.map_append, List.map_append] at ids
  refine (List.nodup_append.mp ids).2.2 r.id ?_ r.id (by simp) rfl
  exact List.mem_map.mpr ⟨(r.controller, r.id), List.mem_map.mpr
    ⟨r, List.mem_filter.mpr ⟨known, by simp⟩, rfl⟩, rfl⟩

theorem once_step (traced : Traced pb map inputs net) (sound : Sound pb map net)
    (own : ∀ k, (sendersOn k (inputs ++ [input])).Nodup)
    (fewer : ∀ k, (sendersOn k (inputs ++ [input])).length < sizeMod) (once : net.Once)
    (fired : net.step pb map input = some (next, accepted)) : next.Once := by
  have after := traced_step traced sound fired
  cases input with
  | send k c fullName request outcome =>
    obtain ⟨e, session, _, _, _, _, ⟨buffer, rfl, _, _, _, shape⟩ | ⟨_, _, _, shape⟩⟩ :=
      step_send fired
    · have new := fresh_request after own fewer (by rw [shape])
      rw [Once, shape, List.map_append, List.append_assoc]
      refine (List.perm_middle.nodup_iff).mpr (List.nodup_cons.mpr ⟨fun member => ?_, once⟩)
      rcases List.mem_append.mp member with onWay | called
      · obtain ⟨p, there, same⟩ := List.mem_map.mp onWay
        have known := (sound.toServer p there).1
        rw [same] at known
        exact new known
      · obtain ⟨call, there, same⟩ := List.mem_map.mp called
        have known := (traced.called call there).1
        rw [same] at known
        exact new known
    · rw [shape]
      exact once
  | tick k now poll taking =>
    obtain ⟨e, session, _, _, _, _, ⟨shape, _⟩ | ⟨_, _, _, _, _, _, shape, _⟩⟩ := step_tick fired
    · rw [shape]
      exact once
    · rw [shape]
      exact once
  | work i handler reply errorReply =>
    obtain ⟨j, r, frames, packet, _, worker, events, it, shape⟩ := step_work fired
    have taken : (r :: (net.toServer.eraseIdx i).map (·.request)).Perm
        (net.toServer.map (·.request)) := by
      obtain ⟨bound, same⟩ := List.getElem?_eq_some_iff.mp packet
      have perm := (List.getElem_cons_eraseIdx_perm bound).map Packet.request
      rwa [same, List.map_cons] at perm
    have before : (r :: ((net.toServer.eraseIdx i).map (·.request) ++
        net.invocations.map (·.request))).Nodup :=
      ((taken.append_right _).nodup_iff).mpr once
    have invoked := iteration_invocations pb ⟨map, false⟩
      ⟨.message frames, handler, reply, errorReply⟩ (net.workers j) rfl r
    rw [it] at invoked
    rw [Once, shape]
    rcases invoked with none | ⟨rpcMethod, argument, one⟩
    · rw [none, List.append_nil]
      exact (List.nodup_cons.mp before).2
    · rw [one, List.map_append, ← List.append_assoc]
      exact ((List.perm_append_singleton r _).nodup_iff).mpr before
  | _ =>
    obtain ⟨_, moved⟩ := step_moves (by trivial) fired
    have fewerPackets : (next.toServer.map (·.request)).Sublist (net.toServer.map (·.request)) := by
      simpa [Function.comp_def] using moved.toServer.map Prod.fst
    rw [Once, moved.invocations]
    exact List.Nodup.sublist (fewerPackets.append_right _) once

theorem run_once (run : Path (Fires (Network.step pb map)) {} inputs accepted net)
    (own : ∀ k, (sendersOn k inputs).Nodup)
    (fewer : ∀ k, (sendersOn k inputs).length < sizeMod) : net.Once := by
  induction run with
  | nil => exact List.nodup_nil
  | snoc earlier last ih =>
    obtain ⟨traced, sound⟩ := run_traced earlier
    refine once_step traced sound own fewer (ih (fun k => ?_) fun k => ?_) last
    · have all := own k
      rw [sendersOn_append] at all
      exact (List.nodup_append.mp all).1
    · have all := fewer k
      rw [sendersOn_append, List.length_append] at all
      omega

end Network

end Zqrpc
