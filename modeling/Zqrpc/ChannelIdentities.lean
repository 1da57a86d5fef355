import Zqrpc.NetworkRuns
import Zqrpc.WorkerRuns

/-! Several channels over time. A reply finds its way back by the identity of the
thread and an id that every channel counts from zero, so two channels of one thread
can be taken for each other. -/
namespace Zqrpc

open Numeral Steps

namespace Network

variable {Msg : Type} {pb : Protobuf Msg} {map : RpcMethodMapT} {net next : Network Msg}

/-- Identity and id tell apart any two requests of different channels. -/
def Distinguished (net : Network Msg) : Prop :=
  ∀ r ∈ net.issued, ∀ r' ∈ net.issued, r.channel ≠ r'.channel →
    net.identity r.channel = net.identity r'.channel → r.id ≠ r'.id

/-- No thread sends over a second channel: where `ZSendMethod` succeeds, the requests that
were sent under the identity before went over the same channel. -/
def OneSender (net : Network Msg) : NetworkInput Msg → Prop
  | .send k _ _ request outcome => Succeeds request outcome → ∀ e, net.live k = some e →
      ∀ r ∈ net.issued, net.identity r.channel = some e.identity → r.channel = k
  | _ => True

/-- No `ZSendMethod` fails. -/
def Delivers : NetworkInput Msg → Prop
  | .send _ _ _ request outcome => Succeeds request outcome
  | _ => True

/-- A request that is known keeps the identity of its channel. -/
theorem identity_known (sound : Sound pb map net) (grows : Grows net next)
    (known : r ∈ net.issued) : next.identity r.channel = net.identity r.channel := by
  obtain ⟨_, first, named⟩ := sound.issued r known
  rw [named]
  exact grows.identity _ _ named

theorem Distinguished.earlier (sound : Sound pb map net) (grows : Grows net next)
    (distinguished : next.Distinguished) : net.Distinguished := by
  intro r known r' known' apart same
  refine distinguished r (grows.issued known) r' (grows.issued known') apart ?_
  rwa [identity_known sound grows known, identity_known sound grows known']

/-- Only a request that leaves its channel is new. -/
theorem issued_cases (fired : net.step pb map input = some (next, accepted)) :
    next.issued = net.issued ∨ ∃ k c fullName buffer outcome e,
      input = .send k c fullName (.bytes buffer) outcome ∧ Accepts outcome 4 ∧
      net.live k = some e ∧
      next.issued = net.issued ++ [⟨k, c, e.session.client.nextid, fullName, buffer⟩] := by
  cases input with
  | send k c fullName request outcome =>
    obtain ⟨e, _, _, live, _, _, ⟨buffer, rfl, accepts, _, _, rfl⟩ | ⟨_, _, _, rfl⟩⟩ :=
      step_send fired
    · exact .inr ⟨k, c, fullName, buffer, outcome, e, rfl, accepts, live, rfl⟩
    · exact .inl rfl
  | tick k now poll taking =>
    obtain ⟨_, _, _, _, _, _, ⟨rfl, _⟩ | ⟨_, _, _, _, _, _, rfl, _⟩⟩ := step_tick fired
    · exact .inl rfl
    · exact .inl rfl
  | work i handler reply errorReply =>
    obtain ⟨_, _, _, _, _, _, _, _, rfl⟩ := step_work fired
    exact .inl rfl
  | _ => exact .inl (step_moves (by trivial) fired).2.issued

theorem distinguished_step (sound : Sound pb map net) (distinguished : net.Distinguished)
    (single : OneSender net input) (fired : net.step pb map input = some (next, accepted)) :
    next.Distinguished := by
  have grows := step_grows fired
  have old {r r' : Request} (known : r ∈ net.issued) (known' : r' ∈ net.issued)
      (apart : r.channel ≠ r'.channel)
      (same : next.identity r.channel = next.identity r'.channel) : r.id ≠ r'.id := by
    rw [identity_known sound grows known, identity_known sound grows known'] at same
    exact distinguished r known r' known' apart same
  rcases issued_cases fired with same |
    ⟨k, c, fullName, buffer, outcome, e, rfl, accepts, live, more⟩
  · intro r known r' known'
    rw [same] at known known'
    exact old known known'
  · have named := grows.identity k e.identity (by rw [identity, (live_some live).1]; rfl)
    -- the new request against one that was there before
    have new {r : Request} (known : r ∈ net.issued) (apart : r.channel ≠ k)
        (same : next.identity r.channel = next.identity k) : r.id ≠ e.session.client.nextid := by
      rw [named, identity_known sound grows known] at same
      exact absurd (single ⟨⟨buffer, rfl⟩, accepts⟩ e live r known same) apart
    intro r known r' known' apart same
    rw [more] at known known'
    rcases List.mem_append.mp known with before | last
    · rcases List.mem_append.mp known' with before' | last'
      · exact old before before' apart same
      · obtain rfl := List.mem_singleton.mp last'
        exact new before apart same
    · obtain rfl := List.mem_singleton.mp last
      rcases List.mem_append.mp known' with before' | last'
      · exact (new before' apart.symm same.symm).symm
      · obtain rfl := List.mem_singleton.mp last'
        exact absurd rfl apart

/-- A channel that has sent has given the id 1 to its first request. -/
structure Numbered (net : Network Msg) : Prop where
  fresh : ∀ k e, net.channels k = some e → e.session.client.channel.nextreply = 0 ∨
    ∃ r ∈ net.issued, r.channel = k ∧ r.id = 1
  first : ∀ r ∈ net.issued, ∃ r' ∈ net.issued, r'.channel = r.channel ∧ r'.id = 1

/-- A step that lets no request out and leaves the counters as they are. -/
theorem Numbered.of_same (numbered : Numbered net) (issued : next.issued = net.issued)
    (channels : ∀ k e', next.channels k = some e' → e'.session.client.channel.nextreply = 0 ∨
      ∃ e, net.channels k = some e ∧
        e'.session.client.channel.nextreply = e.session.client.channel.nextreply) :
    Numbered next where
  fresh k e' there := by
    rcases channels k e' there with zero | ⟨e, before, same⟩
    · exact .inl zero
    · rw [same, issued]
      exact numbered.fresh k e before
  first := by
    rw [issued]
    exact numbered.first

theorem numbered_send (numbered : Numbered net) (succeeds : Succeeds request outcome)
    (fired : net.step pb map (.send k c fullName request outcome) = some (next, accepted)) :
    Numbered next := by
  obtain ⟨e, session, _, live, _, _, ⟨buffer, _, _, client, _, rfl⟩ | ⟨fails, _⟩⟩ :=
    step_send fired
  · -- the new request is the first one of its channel, or there is a first one already
    have own : ∃ r ∈ net.issued ++ [⟨k, c, e.session.client.nextid, fullName, buffer⟩],
        r.channel = k ∧ r.id = 1 := by
      rcases numbered.fresh k e (live_some live).1 with zero | ⟨r, known, rest⟩
      · refine ⟨_, List.mem_append_right _ List.mem_cons_self, rfl, ?_⟩
        change (e.session.client.channel.nextreply + 1) % sizeMod = 1
        rw [zero]
        decide
      · exact ⟨r, List.mem_append_left _ known, rest⟩
    refine ⟨fun k' e' there => ?_, fun r known => ?_⟩
    · by_cases same : k' = k
      · subst same
        exact .inr own
      · rw [setChannel_other _ _ _ _ same] at there
        rcases numbered.fresh k' e' there with zero | ⟨r, known, rest⟩
        · exact .inl zero
        · exact .inr ⟨r, List.mem_append_left _ known, rest⟩
    · rcases List.mem_append.mp known with before | last
      · obtain ⟨r', known', rest⟩ := numbered.first r before
        exact ⟨r', List.mem_append_left _ known', rest⟩
      · obtain rfl := List.mem_singleton.mp last
        exact own
  · exact absurd succeeds fails

theorem numbered_tick (numbered : Numbered net)
    (fired : net.step pb map (.tick k now poll taking) = some (next, accepted)) :
    Numbered next := by
  obtain ⟨e, session, events, _, live, stepped, shape⟩ := step_tick fired
  have counter : session.client.channel.nextreply = e.session.client.channel.nextreply := by
    obtain ⟨_, _, _, ⟨same, _⟩ | ⟨_, _, _, ⟨_, _, _, _, _, same⟩ | ⟨_, same⟩⟩⟩ :=
      e.session.step_tick session _ events stepped
    · rw [same]
    · rw [same]
      rfl
    · rw [same]
  have others : ∀ k' e', (net.setChannel k { e with session }).channels k' = some e' →
      ∃ old, net.channels k' = some old ∧
        e'.session.client.channel.nextreply = old.session.client.channel.nextreply := by
    intro k' e' there
    by_cases same : k' = k
    · subst same
      rw [setChannel_same] at there
      obtain rfl := Option.some.inj there
      exact ⟨e, (live_some live).1, counter⟩
    · rw [setChannel_other _ _ _ _ same] at there
      exact ⟨e', there, rfl⟩
  rcases shape with ⟨rfl, _⟩ | ⟨_, _, _, _, _, _, rfl, _⟩
  · exact numbered.of_same rfl fun k' e' there => .inr (others k' e' there)
  · exact numbered.of_same rfl fun k' e' there => .inr (others k' e' there)

theorem numbered_step (numbered : Numbered net) (delivers : Delivers input)
    (fired : net.step pb map input = some (next, accepted)) : Numbered next := by
  cases input with
  | send k c fullName request outcome => exact numbered_send numbered delivers fired
  | tick k now poll taking => exact numbered_tick numbered fired
  | work i handler reply errorReply =>
    obtain ⟨_, _, _, _, _, _, _, _, rfl⟩ := step_work fired
    exact numbered.of_same rfl fun k e there => .inr ⟨e, there, rfl⟩
  | _ =>
    obtain ⟨_, moved⟩ := step_moves (by trivial) fired
    refine numbered.of_same moved.issued fun k e' there => ?_
    rcases moved.channels k e' there with ⟨_, _, _, rfl⟩ | ⟨e, before, _, same | ⟨_, _, _, called⟩⟩
    · exact .inl rfl
    · exact .inr ⟨e, before, by rw [same]⟩
    · obtain ⟨_, same, _⟩ := e.session.step_recv e'.session _ _ _ _ called
      exact .inr ⟨e, before, by rw [same]⟩

/-- Two channels of one thread that have sent have both used the id 1. -/
theorem oneSender_of_distinguished (sound : Sound pb map net) (numbered : Numbered next)
    (distinguished : next.Distinguished)
    (fired : net.step pb map input = some (next, accepted)) : OneSender net input := by
  have grows := step_grows fired
  cases input with
  | send k c fullName request outcome =>
    intro succeeds e live r known same
    by_contra apart
    obtain ⟨e', _, _, live', _, _, ⟨buffer, rfl, _, _, _, shape⟩ | ⟨fails, _⟩⟩ := step_send fired
    · obtain rfl := Option.some.inj (live.symm.trans live')
      have named := grows.identity k e.identity (by rw [identity, (live_some live).1]; rfl)
      have last : ⟨k, c, e.session.client.nextid, fullName, buffer⟩ ∈ next.issued := by
        simp [shape]
      obtain ⟨own, ownKnown, ownChannel, ownId⟩ := numbered.first _ last
      obtain ⟨other, otherKnown, otherChannel, otherId⟩ := numbered.first r (grows.issued known)
      refine distinguished other otherKnown own ownKnown ?_ ?_ (otherId.trans ownId.symm)
      · rw [otherChannel, ownChannel]
        exact apart
      · rw [otherChannel, ownChannel, identity_known sound grows known, same, named]
    · exact absurd succeeds fails
  | _ => trivial

/-- A reply that is accepted was made for the accepting channel's own request. -/
theorem accepted_own (sound : Sound pb map net) (distinguished : net.Distinguished)
    (fired : net.step pb map input = some (next, accepted)) :
    ∀ a ∈ accepted, a.request.channel = a.channel := by
  cases input with
  | send =>
    obtain ⟨_, _, _, _, _, rfl, _⟩ := step_send fired
    simp
  | work =>
    obtain ⟨_, _, _, _, rfl, _⟩ := step_work fired
    simp
  | tick k now poll taking =>
    obtain ⟨e, _, _, _, live, _, ⟨_, rfl, _⟩ | ⟨i, p, there, placed, _, _, _, rfl⟩⟩ :=
      step_tick fired
    · simp
    · intro a member
      obtain ⟨entry, accepts, rfl⟩ := Option.map_eq_some_iff.mp (Option.mem_toList.mp member)
      obtain ⟨four, reads, entered, _⟩ := deliver_accepted p.frames e.session.client entry.1 entry.2
        accepts
      have returning := sound.toClients p (List.mem_of_getElem? there)
      rw [Returning, placed] at returning
      obtain ⟨first, named, known, first', named', reply⟩ := returning
      obtain ⟨code, data, shape, _⟩ := reply (by simp [four])
      obtain ⟨rfl, frames⟩ := List.cons.inj shape
      -- the id of the entry is the id of the request the reply was made for
      have id : entry.1 = p.request.id := by
        rw [frames] at reads
        exact Option.some.inj (reads.symm.trans
          (lexicalCast_decimal _ (sound.issued _ known).1))
      obtain ⟨r, issued, own, _, same⟩ :=
        sound.entries k e entry.1 entry.2 (live_some live).1 entered
      by_contra apart
      refine distinguished p.request known r issued ?_ ?_ ?_
      · rw [own]
        exact apart
      · rw [named', own, named]
      · rw [same, id]
  | _ =>
    obtain ⟨rfl, _⟩ := step_moves (by trivial) fired
    simp

/-- Where no thread sends over a second channel, no reply reaches another channel. Where every
`ZSendMethod` succeeds, a thread that does uses a pair of identity and id again. -/
theorem own_replies (run : Path (Fires (Network.step pb map)) {} inputs accepted net) :
    (Path (Meeting OneSender (Fires (Network.step pb map))) {} inputs accepted net →
      net.Distinguished ∧ ∀ a ∈ accepted, a.request.channel = a.channel) ∧
    ((∀ input ∈ inputs, Delivers input) → net.Distinguished →
      Path (Meeting OneSender (Fires (Network.step pb map))) {} inputs accepted net) := by
  constructor
  · intro meets
    have own := meets.invariant (fun _ accepted net => Sound pb map net ∧ net.Distinguished ∧
        ∀ a ∈ accepted, a.request.channel = a.channel)
      (fun _ accepted net input emitted next held fired => by
        obtain ⟨sound, distinguished, own⟩ := held
        refine ⟨sound_step sound fired.2, distinguished_step sound distinguished fired.1 fired.2,
          fun a member => ?_⟩
        rcases List.mem_append.mp member with before | last
        · exact own a before
        · exact accepted_own sound distinguished fired.2 a last)
      ⟨sound_initial, by simp [Distinguished], by simp⟩
    exact own.2
  · intro delivers
    have delivered : Path (Meeting (fun _ => Delivers) (Fires (Network.step pb map))) {} inputs
        accepted net := run.meeting fun input asked _ => delivers input asked
    clear delivers run
    have numbered {inputs accepted net} (path : Path (Meeting (fun _ => Delivers)
        (Fires (Network.step pb map))) {} inputs accepted net) : Numbered net :=
      path.state_invariant Numbered
        (fun _ _ _ _ numbered fired => numbered_step numbered fired.1 fired.2)
        ⟨by simp, by simp⟩
    induction delivered with
    | nil => exact fun _ => .nil
    | snoc earlier last ih =>
      intro distinguished
      have sound := run_sound (earlier.mono fun _ _ _ _ fired => fired.2)
      apply Path.snoc (ih (distinguished.earlier sound (step_grows last.2)))
      exact ⟨oneSender_of_distinguished sound (numbered (earlier.snoc last)) distinguished last.2,
        last.2⟩

/-- Two threads ask over a channel each. -/
def twoThreads : List (NetworkInput Bytes) :=
  [.opened 0 (ascii "t1"), .opened 1 (ascii "t2"), .send 0 0 (ascii "m") (.bytes [1]) acceptAll,
    .send 1 0 (ascii "m") (.bytes [2]) acceptAll, .recv 1 0 100 0, .deal 1 0,
    .work 1 echo acceptAll acceptAll, .deal 0 0, .work 0 echo acceptAll acceptAll, .route 0 1,
    .route 1 0, .tick 1 0 .readable (.packet 0), .recv 0 0 100 0,
    .tick 0 0 .readable (.packet 0)]

theorem own_replies_twoThreads : ∃ accepted net,
    Path (Fires (Network.step rawBytes oneMethod)) {} twoThreads accepted net ∧
    accepted.length = 2 ∧ net.Distinguished ∧ ∀ a ∈ accepted, a.request.channel = a.channel := by
  have run : ∃ net accepted, execute (Network.step rawBytes oneMethod) twoThreads {} =
      some (net, accepted) ∧ accepted.length = 2 ∧
      net.issued.map (fun r => (r.channel, net.identity r.channel)) =
        [(0, some (ascii "t1")), (1, some (ascii "t2"))] := ⟨_, _, rfl, rfl, rfl⟩
  obtain ⟨net, accepted, run, two, issued⟩ := run
  have delivers : ∀ input ∈ twoThreads, Delivers input := by
    simp [twoThreads, Delivers, Succeeds, Accepts, acceptAll]
  have threads (r : Request) (known : r ∈ net.issued) :
      (r.channel, net.identity r.channel) ∈ [(0, some (ascii "t1")), (1, some (ascii "t2"))] :=
    issued ▸ List.mem_map_of_mem known
  have distinguished : net.Distinguished := by
    intro r known r' known' apart same
    have one := threads r known
    have two := threads r' known'
    rw [← same] at two
    simp only [List.mem_cons, List.not_mem_nil, or_false, Prod.mk.injEq] at one two
    rcases one with ⟨first, named⟩ | ⟨first, named⟩
    · rcases two with ⟨second, _⟩ | ⟨_, named'⟩
      · exact absurd (first.trans second.symm) apart
      · exact absurd (named.symm.trans named') (by decide)
    · rcases two with ⟨_, named'⟩ | ⟨second, _⟩
      · exact absurd (named.symm.trans named') (by decide)
      · exact absurd (first.trans second.symm) apart
  obtain ⟨enough, needed⟩ := own_replies (execute_path run)
  exact ⟨accepted, net, execute_path run, two, enough (needed delivers distinguished)⟩

/-- One thread asks over one channel, closes it and asks again over another. -/
def reopened : List (NetworkInput Bytes) :=
  [.opened 0 (ascii "t1"), .send 0 0 (ascii "m") (.bytes [1]) acceptAll, .closed 0,
    .opened 1 (ascii "t1"), .send 1 0 (ascii "m") (.bytes [2]) acceptAll, .recv 1 0 100 0,
    .deal 0 0, .work 0 echo acceptAll acceptAll, .route 0 1, .tick 1 0 .readable (.packet 0)]

theorem reopened_run : ∃ net,
    execute (Network.step rawBytes oneMethod) reopened {} =
      some (net, [⟨1, 1, 0, ⟨0, 0, 1, ascii "m", [1]⟩⟩]) := ⟨_, rfl⟩

/-- The reply to the closed channel's request is taken for the open channel's. -/
theorem reopened_misdelivers : ¬∀ (pb : Protobuf Bytes) (map : RpcMethodMapT)
    (inputs : List (NetworkInput Bytes)) (accepted : List Acceptance) (net : Network Bytes),
    Path (Fires (Network.step pb map)) {} inputs accepted net →
    net.Distinguished ∧ ∀ a ∈ accepted, a.request.channel = a.channel := by
  intro claim
  obtain ⟨net, run⟩ := reopened_run
  have own := (claim rawBytes oneMethod reopened _ net (execute_path run)).2 _ List.mem_cons_self
  cases own

end Network

end Zqrpc
