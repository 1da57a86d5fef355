import Zqrpc.NetworkTraces
import Zqrpc.WorkerRuns

/-! From the call of `ZSendMethod` to the response in its controller, through every
party and in any order of their steps. -/
namespace Zqrpc

open Numeral Steps

namespace Network

variable {Msg : Type} {pb : Protobuf Msg} {map : RpcMethodMapT} {net next : Network Msg}
  {inputs : List (NetworkInput Msg)} {accepted : List Acceptance}

def openedAs : NetworkInput Msg → Option Bytes
  | .opened _ identity => some identity
  | _ => none

/-- The identities channels are opened with. -/
def identities (inputs : List (NetworkInput Msg)) : List Bytes := inputs.filterMap openedAs

/-- The handler of the step returns or throws a `ZError` with a nonzero code. -/
def Mannered : NetworkInput Msg → Prop
  | .work _ handler .. => ∀ rpcMethod argument, (∃ response,
      handler rpcMethod argument = .returned response) ∨
      ∃ error, handler rpcMethod argument = .threw (.zerror error) ∧ error.ecode ≠ 0
  | _ => True

theorem identities_injective {k k' : Nat} {name : Bytes} (distinct : (identities inputs).Nodup)
    (one : .opened k name ∈ inputs) (other : .opened k' name ∈ inputs) : k = k' := by
  induction inputs with
  | nil => cases one
  | cons input inputs ih =>
    have later (k : Nat) (member : .opened k name ∈ inputs) : name ∈ identities inputs :=
      List.mem_filterMap.mpr ⟨_, member, rfl⟩
    rcases List.mem_cons.mp one with here | there
    · subst input
      rcases List.mem_cons.mp other with same | there'
      · exact (NetworkInput.opened.inj same).1.symm
      · exact absurd (later k' there') (List.nodup_cons.mp distinct).1
    · rcases List.mem_cons.mp other with here' | there'
      · subst input
        exact absurd (later k there) (List.nodup_cons.mp distinct).1
      · refine ih (List.Nodup.sublist ?_ distinct) there there'
        exact (List.sublist_cons_self input inputs).filterMap openedAs

/-- A controller that is ready holds the response to its own request, and the handler
is called once for a request at most. -/
theorem end_to_end (run : Path (Fires (Network.step pb map)) {} inputs accepted net)
    (distinct : (identities inputs).Nodup) (own : ∀ k, (sendersOn k inputs).Nodup)
    (fewer : ∀ k, (sendersOn k inputs).length < 2 ^ 64)
    (mannered : ∀ input ∈ inputs, Mannered input) :
    (∀ k e c, net.channels k = some e → (e.session.client.memory c).rcode = .ready →
      ∃ call ∈ net.invocations, ∃ outcome response,
        .send k c call.request.opcode (.bytes call.request.buffer) outcome ∈ inputs ∧
        map.lookup call.request.opcode = some call.rpcMethod ∧
        pb.parse call.rpcMethod.request call.request.buffer = some call.argument ∧
        call.result = .returned response ∧
        pb.serialize response = some (e.session.client.memory c).payload) ∧
    (net.invocations.map (·.request)).Nodup := by
  obtain ⟨traced, sound⟩ := run_traced run
  refine ⟨fun k e c channel ready => ?_, (List.nodup_append.mp (run_once run own fewer)).2.1⟩
  obtain ⟨past, events, session, sends, pairs, consumed⟩ := traced.follows k e channel
  obtain ⟨id, messages, m, sent, history, first, payload⟩ :=
    (reply_matching session (sends ▸ own k) (sends ▸ fewer k)).1 c ready
  have answers : Answers id m := by simpa using List.find?_some first
  obtain ⟨r, known, name, named, reply⟩ :=
    consumed m (history_consumed events c id messages history m (List.mem_of_find?_eq_some first))
  obtain ⟨code, data, shape, justified⟩ := reply (by simp [answers.1])
  obtain ⟨rfl, rfl⟩ := List.cons.inj shape
  have channels : r.channel = k := by
    obtain ⟨e', there, same⟩ := Option.map_eq_some_iff.mp named
    exact identities_injective distinct (same ▸ traced.named r.channel e' there)
      (traced.named k e channel)
  have ids : r.id = id := Option.some.inj
    ((lexicalCast_decimal r.id (sound.issued r known).1).symm.trans answers.2.1)
  have controllers : r.controller = c := by
    have mine : (r.controller, r.id) ∈ net.issuedBy k :=
      List.mem_map.mpr ⟨r, List.mem_filter.mpr ⟨known, by simp [channels]⟩, rfl⟩
    have there : (c, id) ∈ net.issuedBy k := by
      rw [pairs]
      exact List.mem_filterMap.mpr ⟨_, sent, rfl⟩
    exact congrArg Prod.fst
      (List.inj_on_of_nodup_map (traced.ids_nodup k (own k) (fewer k)) mine there ids)
  obtain ⟨outcome, asked⟩ := traced.issued r known
  rw [channels, controllers] at asked
  rcases justified with ⟨call, member, rfl, entry, parsed, response, result, serialized⟩ |
    ⟨error, rfl, why⟩
  · exact ⟨call, member, outcome, response, asked, entry, parsed, result, payload ▸ serialized⟩
  · -- an error reply with a nonzero code does not answer
    have zero : error.ecode = 0 := (atoi_decimalInt error.ecode).symm.trans answers.2.2
    rcases why with nonzero | ⟨call, member, threw⟩
    · exact absurd zero nonzero
    · obtain ⟨_, i, handler, reply, errorReply, worked, result⟩ := traced.called call member
      rcases mannered _ worked call.rpcMethod call.argument with ⟨response, returned⟩ |
        ⟨error', threw', nonzero⟩
      · rw [result, returned] at threw
        cases threw
      · rw [result, threw'] at threw
        obtain rfl := Exn.zerror.inj (HandlerEnd.threw.inj threw)
        exact absurd zero nonzero

/-- One request, answered. -/
def roundTrip : List (NetworkInput Bytes) :=
  [.opened 0 (ascii "t1"), .send 0 0 (ascii "m") (.bytes [1]) acceptAll, .recv 0 0 100 0,
    .deal 0 0, .work 0 echo acceptAll acceptAll, .route 0 0, .tick 0 0 .readable (.packet 0)]

theorem mannered_echo (i : Nat) (reply errorReply : Nat → SendOutcome) :
    Mannered (.work i echo reply errorReply) := fun _ argument => .inl ⟨argument, rfl⟩

theorem end_to_end_roundTrip : ∃ accepted net e,
    Path (Fires (Network.step rawBytes oneMethod)) {} roundTrip accepted net ∧
    net.channels 0 = some e ∧ ∃ call ∈ net.invocations, ∃ outcome response,
      .send 0 0 call.request.opcode (.bytes call.request.buffer) outcome ∈ roundTrip ∧
      oneMethod.lookup call.request.opcode = some call.rpcMethod ∧
      rawBytes.parse call.rpcMethod.request call.request.buffer = some call.argument ∧
      call.result = .returned response ∧
      rawBytes.serialize response = some (e.session.client.memory 0).payload := by
  have run : ∃ accepted net e,
      execute (Network.step rawBytes oneMethod) roundTrip {} = some (net, accepted) ∧
      net.channels 0 = some e ∧ (e.session.client.memory 0).rcode = .ready :=
    ⟨_, _, _, rfl, rfl, rfl⟩
  obtain ⟨accepted, net, e, run, channel, ready⟩ := run
  have senders (k : Nat) : sendersOn k roundTrip = if 0 = k then [0] else [] := by
    simp only [sendersOn, roundTrip, List.filterMap_cons, senderOn]
    split_ifs <;> rfl
  refine ⟨accepted, net, e, execute_path run, channel, (end_to_end (execute_path run) (by decide)
    (fun k => ?_) (fun k => ?_) ?_).1 0 e 0 channel ready⟩
  · rw [senders]
    split_ifs <;> simp
  · rw [senders]
    split_ifs <;> simp
  · simp only [roundTrip, List.forall_mem_cons]
    exact ⟨trivial, trivial, trivial, trivial, mannered_echo 0 _ _, trivial, trivial,
      List.forall_mem_nil _⟩

/-- One request on its way over one channel, whose counter and memory are these. -/
def asking (a : Nat) (memory : Ptr → ZController) : Network Bytes where
  channels := Function.update
    (Function.update (fun _ => none) 0 (some { identity := ascii "t1" })) 0
    (some ⟨ascii "t1", true, ⟨⟨⟨[], Finmap.insert 1 0 ∅, a⟩, memory⟩, none⟩⟩)
  toServer := [⟨none, ⟨0, 0, 1, ascii "m", [1]⟩, ascii "t1" :: requestFrames 1 (ascii "m") [1]⟩]
  issued := [⟨0, 0, 1, ascii "m", [1]⟩]

def interrupted (c : Ptr) : NetworkInput Bytes := .send 0 c (ascii "m") (.bytes []) fun _ => .threw

theorem asking_interrupted (a : Nat) (memory : Ptr → ZController) (c : Ptr) :
    (asking a memory).step rawBytes oneMethod (interrupted c) =
      some (asking ((a + 1) % sizeMod) (Function.update memory c
        { memory c with zerror := ⟨.connectionError, cStr []⟩, rcode := .error }), []) := by
  have stepped : (asking a memory).step rawBytes oneMethod (interrupted c) =
      some ((asking a memory).setChannel 0 ⟨ascii "t1", true,
        ⟨⟨⟨[], Finmap.insert 1 0 ∅, (a + 1) % sizeMod⟩, Function.update memory c
          { memory c with zerror := ⟨.connectionError, cStr []⟩, rcode := .error }⟩, none⟩⟩,
        []) := rfl
  rw [stepped, setChannel, asking, asking, Function.update_idem]

/-- Sends that are interrupted use up one id each. -/
theorem asking_all_interrupted (n start a : Nat) (fits : a < sizeMod) (memory : Ptr → ZController) :
    ∃ memory', Path (Fires (Network.step rawBytes oneMethod)) (asking a memory)
      ((List.range' start n).map interrupted) [] (asking ((a + n) % sizeMod) memory') := by
  induction n generalizing start a memory with
  | zero =>
    rw [Nat.add_zero, Nat.mod_eq_of_lt fits]
    exact ⟨memory, .nil⟩
  | succ n ih =>
    obtain ⟨memory', later⟩ := ih (start + 1) ((a + 1) % sizeMod) (Nat.mod_lt _ (by decide))
      (Function.update memory start
        { memory start with zerror := ⟨.connectionError, cStr []⟩, rcode := .error })
    rw [Nat.mod_add_mod, Nat.add_assoc, Nat.add_comm 1 n] at later
    exact ⟨memory', .cons (asking_interrupted a memory start) later⟩

/-- The counter comes round while the first request is on its way; its reply is then
stored for the controller that was given its id a second time. -/
def comeRound (n : Nat) : List (NetworkInput Bytes) :=
  [.opened 0 (ascii "t1"), .send 0 0 (ascii "m") (.bytes [1]) acceptAll] ++
    (List.range' 2 n).map interrupted ++
    [.send 0 1 (ascii "m") (.bytes [2]) acceptAll, .recv 0 1 100 0, .deal 0 0,
      .work 0 echo acceptAll acceptAll, .route 0 0, .tick 0 0 .readable (.packet 0)]

theorem comeRound_run : ∃ accepted net e,
    Path (Fires (Network.step rawBytes oneMethod)) {} (comeRound (2 ^ 64 - 1)) accepted net ∧
    net.channels 0 = some e ∧ (e.session.client.memory 1).rcode = .ready ∧
    net.invocations = [⟨⟨0, 0, 1, ascii "m", [1]⟩, ⟨0, 1, 2, 3⟩, [1], .returned [1]⟩] := by
  have first : ∃ accepted memory, execute (Network.step rawBytes oneMethod)
      [.opened 0 (ascii "t1"), .send 0 0 (ascii "m") (.bytes [1]) acceptAll] {} =
        some (asking 1 memory, accepted) := ⟨_, _, rfl⟩
  obtain ⟨_, memory, first⟩ := first
  obtain ⟨memory', middle⟩ := asking_all_interrupted (2 ^ 64 - 1) 2 1 (by decide) memory
  have last : ∃ e net accepted, execute (Network.step rawBytes oneMethod)
      [.send 0 1 (ascii "m") (.bytes [2]) acceptAll, .recv 0 1 100 0, .deal 0 0,
        .work 0 echo acceptAll acceptAll, .route 0 0, .tick 0 0 .readable (.packet 0)]
      (asking 0 memory') = some (net, accepted) ∧ net.channels 0 = some e ∧
      (e.session.client.memory 1).rcode = .ready ∧
      net.invocations = [⟨⟨0, 0, 1, ascii "m", [1]⟩, ⟨0, 1, 2, 3⟩, [1], .returned [1]⟩] :=
    ⟨_, _, _, rfl, rfl, rfl, rfl⟩
  obtain ⟨e, net, _, last, rest⟩ := last
  exact ⟨_, net, e, ((execute_path first).append middle).append (execute_path last), rest⟩

theorem sendersOn_comeRound (k n : Nat) :
    sendersOn k (comeRound n) = if 0 = k then 0 :: List.range' 2 n ++ [1] else [] := by
  have middle (cs : List Ptr) : sendersOn k (cs.map interrupted) = if 0 = k then cs else [] := by
    rw [sendersOn, List.filterMap_map]
    by_cases own : 0 = k
    · have same : senderOn k ∘ interrupted = some := by
        funext c
        simp [interrupted, senderOn, own]
      rw [if_pos own, same]
      exact List.filterMap_some
    · rw [if_neg own]
      exact List.filterMap_eq_nil_iff.mpr fun c _ => by simp [interrupted, senderOn, own]
  rw [comeRound, sendersOn_append, sendersOn_append, middle]
  simp only [sendersOn, List.filterMap_cons, List.filterMap_nil, senderOn]
  split_ifs <;> simp

theorem sendersOn_comeRound_nodup (k n : Nat) : (sendersOn k (comeRound n)).Nodup := by
  rw [sendersOn_comeRound]
  split_ifs
  · refine List.nodup_append.mpr ⟨List.nodup_cons.mpr ⟨?_, List.nodup_range'⟩, by simp, ?_⟩
    · simp [List.mem_range'_1]
    · intro c member c' last
      obtain rfl := List.mem_singleton.mp last
      rcases List.mem_cons.mp member with rfl | member
      · decide
      · rintro rfl
        exact absurd (List.mem_range'_1.mp member).1 (by decide)
  · exact List.nodup_nil

theorem mannered_comeRound (n : Nat) : ∀ input ∈ comeRound n, Mannered input := by
  simp only [comeRound, List.forall_mem_append, List.forall_mem_cons, List.forall_mem_map]
  exact ⟨⟨⟨trivial, trivial, List.forall_mem_nil _⟩, fun _ _ => trivial⟩, trivial, trivial, trivial,
    mannered_echo 0 _ _, trivial, trivial, List.forall_mem_nil _⟩

theorem identities_comeRound (n : Nat) : identities (comeRound n) = [ascii "t1"] := by
  have middle (cs : List Ptr) : identities (cs.map interrupted) = [] :=
    List.filterMap_eq_nil_iff.mpr fun input member => by
      obtain ⟨c, _, rfl⟩ := List.mem_map.mp member
      rfl
  have split (one other : List (NetworkInput Bytes)) :
      identities (one ++ other) = identities one ++ identities other := List.filterMap_append
  rw [comeRound, split, split, middle]
  rfl

/-- The second request is not sent with the bytes of the first. -/
theorem comeRound_asks (n : Nat) (outcome : Nat → SendOutcome) :
    .send 0 1 (ascii "m") (.bytes [1]) outcome ∉ comeRound n := by
  intro asked
  simp only [comeRound, List.mem_append, List.mem_cons, List.mem_map, interrupted] at asked
  simp at asked

/-- With no bound on the number of requests the statement fails. -/
theorem comeRound_mismatches : ¬∀ (pb : Protobuf Bytes) (map : RpcMethodMapT)
    (inputs : List (NetworkInput Bytes)) (accepted : List Acceptance) (net : Network Bytes),
    Path (Fires (Network.step pb map)) {} inputs accepted net →
    (identities inputs).Nodup → (∀ k, (sendersOn k inputs).Nodup) →
    (∀ input ∈ inputs, Mannered input) →
    (∀ k e c, net.channels k = some e → (e.session.client.memory c).rcode = .ready →
      ∃ call ∈ net.invocations, ∃ outcome response,
        .send k c call.request.opcode (.bytes call.request.buffer) outcome ∈ inputs ∧
        map.lookup call.request.opcode = some call.rpcMethod ∧
        pb.parse call.rpcMethod.request call.request.buffer = some call.argument ∧
        call.result = .returned response ∧
        pb.serialize response = some (e.session.client.memory c).payload) ∧
    (net.invocations.map (·.request)).Nodup := by
  intro claim
  obtain ⟨accepted, net, e, run, channel, ready, invocations⟩ := comeRound_run
  have holds := claim rawBytes oneMethod (comeRound (2 ^ 64 - 1)) accepted net run
    (by rw [identities_comeRound]; exact List.nodup_singleton _)
    (fun k => sendersOn_comeRound_nodup k _) (mannered_comeRound _)
  obtain ⟨call, member, outcome, _, asked, _⟩ := holds.1 0 e 1 channel ready
  rw [invocations] at member
  obtain rfl := List.mem_singleton.mp member
  exact comeRound_asks _ outcome asked

end Network

end Zqrpc
