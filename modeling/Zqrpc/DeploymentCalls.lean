import Zqrpc.DeploymentReplies

/-! What the callers are told. Where nothing is lost and every reply has been read, the status
of each controller is a function of its own request, whatever the order of the steps was. -/
namespace Zqrpc

open Numeral Steps

variable {Msg : Type}

/-- The channel, the controller, the opcode and the bytes of a request. -/
abbrev Asked := Nat × Ptr × Bytes × Bytes

def Request.asked (r : Request) : Asked := (r.channel, r.controller, r.opcode, r.buffer)

namespace DeploymentInput

def asks : DeploymentInput Msg → Option Asked
  | .send k c fullName (.bytes buffer) _ => some (k, c, fullName, buffer)
  | _ => none

def openedAs : DeploymentInput Msg → Option Bytes
  | .opened _ identity => some identity
  | _ => none

/-- The sockets take what is sent, the handlers return or throw a `ZError`, and no channel,
no worker and no reply goes away. -/
def Lossless (behaviour : Behaviour Msg) : DeploymentInput Msg → Prop
  | .send _ _ _ request outcome => Succeeds request outcome
  | .pool .workerStop => False
  | .pool input => Pool.Behaves behaviour input
  | .closed _ => False
  | .loseReply _ => False
  | _ => True

end DeploymentInput

namespace Deployment

open DeploymentInput

/-- Nothing is lost, the channels have distinct identities, each request has a controller of its
own on its channel, and the request ids do not come round. -/
structure Faultless (behaviour : Behaviour Msg) (inputs : List (DeploymentInput Msg)) : Prop where
  lossless : ∀ input ∈ inputs, Lossless behaviour input
  names : (inputs.filterMap openedAs).Nodup
  own : ((inputs.filterMap asks).map fun q => (q.1, q.2.1)).Nodup
  fewer : (inputs.filterMap asks).length < 2 ^ 64

/-- The reply to a request that came behind this identity. -/
def replyFor (pb : Protobuf Msg) (map : RpcMethodMapT) (behaviour : Behaviour Msg)
    (identity : Bytes) (r : Request) : FramesT :=
  [identity, [], decimal r.id, decimalInt (codeAndData pb map behaviour r.opcode r.buffer).1,
    (codeAndData pb map behaviour r.opcode r.buffer).2]

/-- What the controller of a request tells, when its reply was read and when it was not. A
reply with an error code makes `ZRecvMethod` throw, and tells the controller nothing. -/
structure Tells (pb : Protobuf Msg) (map : RpcMethodMapT) (behaviour : Behaviour Msg)
    (s : Client) (r : Request) (read : Prop) : Prop where
  ready : read → (codeAndData pb map behaviour r.opcode r.buffer).1 = 0 →
    (s.memory r.controller).rcode = .ready ∧
    (s.memory r.controller).payload = (codeAndData pb map behaviour r.opcode r.buffer).2
  waiting : ¬(read ∧ (codeAndData pb map behaviour r.opcode r.buffer).1 = 0) →
    (s.memory r.controller).rcode = .working ∧
    s.channel.replylist.lookup r.id = some r.controller

/-- A request as it left its channel, and what its controller tells. -/
structure Recorded (pb : Protobuf Msg) (map : RpcMethodMapT) (behaviour : Behaviour Msg)
    (heards : List FramesT) (p : Packet) (e : ChannelEnd) : Prop where
  frames : p.frames = e.identity :: requestFrames p.request.id p.request.opcode p.request.buffer
  counted : p.request.id ≤ e.session.client.channel.nextreply
  tells : Tells pb map behaviour e.session.client p.request
    (replyFor pb map behaviour e.identity p.request ∈ heards)

structure Told (pb : Protobuf Msg) (map : RpcMethodMapT) (behaviour : Behaviour Msg)
    (inputs : List (DeploymentInput Msg)) (sent : List Packet) (heards : List FramesT)
    (d : Deployment) : Prop where
  asked : sent.map (·.request.asked) = inputs.filterMap asks
  ids : (sent.map fun p => (p.request.channel, p.request.id)).Nodup
  told : ∀ p ∈ sent, ∃ e, d.channels p.request.channel = some e ∧
    Recorded pb map behaviour heards p e
  counters : ∀ k e, d.channels k = some e →
    e.session.client.channel.nextreply ≤ sent.length ∧ e.session.client.channel.pending = []
  names : ∀ k e, d.channels k = some e → .opened k e.identity ∈ inputs

variable {pb : Protobuf Msg} {map : RpcMethodMapT} {behaviour : Behaviour Msg}
  {inputs : List (DeploymentInput Msg)} {sent : List Packet} {heards : List FramesT}
  {d next : Deployment} {events : List (WorkerEvent Msg)} {n : Nat}

theorem Faultless.of_sublist {front : List (DeploymentInput Msg)}
    (faultless : Faultless behaviour inputs) (part : front.Sublist inputs) :
    Faultless behaviour front where
  lossless input member := faultless.lossless input (part.subset member)
  names := (part.filterMap openedAs).nodup faultless.names
  own := ((part.filterMap asks).map _).nodup faultless.own
  fewer := (part.filterMap asks).length_le.trans_lt faultless.fewer

theorem Faultless.front {input : DeploymentInput Msg}
    (faultless : Faultless behaviour (inputs ++ [input])) : Faultless behaviour inputs :=
  faultless.of_sublist (List.sublist_append_left inputs [input])

theorem Faultless.behaves (faultless : Faultless behaviour inputs) (input : PoolInput Msg)
    (member : .pool input ∈ inputs) : Pool.Behaves behaviour input := by
  have lossless := faultless.lossless _ member
  cases input <;> first | exact lossless | exact trivial

theorem codeAndData_code (opcode buffer : Bytes) :
    ∃ code : ErrorCodeE, (codeAndData pb map behaviour opcode buffer).1 = code.toInt := by
  unfold codeAndData
  split
  · exact ⟨3, rfl⟩
  · split
    · exact ⟨6, rfl⟩
    · split
      · rename_i e _
        exact ⟨e.ecode, rfl⟩
      · split
        · exact ⟨6, rfl⟩
        · exact ⟨0, rfl⟩

/-- A reply is taken for an answer exactly when its code is zero. -/
theorem replyFor_answers {identity : Bytes} {r : Request} {frames : FramesT}
    (fits : r.id < sizeMod) (same : identity :: frames = replyFor pb map behaviour identity r) :
    Answers r.id frames ↔ (codeAndData pb map behaviour r.opcode r.buffer).1 = 0 := by
  obtain ⟨-, rfl⟩ := List.cons.inj same
  obtain ⟨code, is⟩ := @codeAndData_code _ pb map behaviour r.opcode r.buffer
  have reads : Reads r.id [[], decimal r.id,
      decimalInt (codeAndData pb map behaviour r.opcode r.buffer).1,
      (codeAndData pb map behaviour r.opcode r.buffer).2] := lexicalCast_decimal r.id fits
  have number : atoi (cStr (decimalInt (codeAndData pb map behaviour r.opcode r.buffer).1)) =
      code := by
    rw [is, atoi_decimalInt]
  constructor
  · rintro ⟨-, -, zero⟩
    have none' : code = 0 := number.symm.trans zero
    rw [is, none']
    rfl
  · intro zero
    refine ⟨rfl, reads, number.trans ?_⟩
    exact Int32.toInt_inj.mp (is.symm.trans zero)

theorem eq_of_filterMap_nodup {α β : Type*} {f : α → Option β} {l : List α} {a b : α} {x : β}
    (nodup : (l.filterMap f).Nodup) (one : a ∈ l) (other : b ∈ l) (fa : f a = some x)
    (fb : f b = some x) : a = b := by
  by_contra different
  have apart := List.pairwise_filterMap.mp nodup
  have symmetric : Std.Symm fun a b => ∀ x, f a = some x → ∀ y, f b = some y → x ≠ y :=
    ⟨fun _ _ distinct x fx y fy => (distinct y fy x fx).symm⟩
  exact apart.forall one other different x fa x fb rfl

section Told

variable (told : Told pb map behaviour inputs sent heards d)

include told

theorem Told.same_channel (faultless : Faultless behaviour inputs) {k k' : Nat}
    {e e' : ChannelEnd} (channel : d.channels k = some e) (channel' : d.channels k' = some e')
    (same : e.identity = e'.identity) : k = k' := by
  have one := told.names k e channel
  rw [same] at one
  have input := eq_of_filterMap_nodup faultless.names one (told.names k' e' channel') rfl rfl
  exact (DeploymentInput.opened.inj input).1

theorem Told.same_packet {p q : Packet} (one : p ∈ sent) (other : q ∈ sent)
    (channels : p.request.channel = q.request.channel) (ids : p.request.id = q.request.id) :
    p = q :=
  List.inj_on_of_nodup_map told.ids one other (Prod.ext channels ids)

/-- Two requests with one reply are one request. -/
theorem Told.same_reply (faultless : Faultless behaviour inputs) {p q : Packet} {e e' : ChannelEnd}
    (one : p ∈ sent) (other : q ∈ sent) (channel : d.channels p.request.channel = some e)
    (channel' : d.channels q.request.channel = some e')
    (same : replyFor pb map behaviour e.identity p.request =
      replyFor pb map behaviour e'.identity q.request) : p = q := by
  obtain ⟨identities, rest⟩ := List.cons.inj same
  obtain ⟨-, rest⟩ := List.cons.inj rest
  have ids := congrArg value (List.cons.inj rest).1
  rw [value_decimal, value_decimal] at ids
  exact told.same_packet one other
    (told.same_channel faultless channel channel' identities) ids

/-- No two requests of a channel are made with one controller. -/
theorem Told.same_controller (faultless : Faultless behaviour inputs) {p q : Packet}
    (one : p ∈ sent) (other : q ∈ sent) (channels : p.request.channel = q.request.channel)
    (controllers : p.request.controller = q.request.controller) : p = q := by
  have own := faultless.own
  rw [← told.asked, List.map_map] at own
  exact List.inj_on_of_nodup_map own one other (Prod.ext channels controllers)

theorem Told.length_lt (faultless : Faultless behaviour inputs) : sent.length < 2 ^ 64 := by
  have lengths := congrArg List.length told.asked
  rw [List.length_map] at lengths
  rw [lengths]
  exact faultless.fewer

theorem Told.fits (faultless : Faultless behaviour inputs) {p : Packet} (member : p ∈ sent) :
    p.request.id < sizeMod := by
  obtain ⟨e, channel, recorded⟩ := told.told p member
  have few := told.length_lt faultless
  exact lt_of_le_of_lt (recorded.counted.trans (told.counters _ e channel).1) few

/-- The answers to the requests are their replies, and no two of them are the same. -/
theorem Told.answers : ∃ replies : List FramesT,
    (sent.flatMap fun p => answer pb map (p.frames, behaviour)) = replies ∧
    (Faultless behaviour inputs → replies.Nodup) ∧
    ∀ reply, reply ∈ replies ↔ ∃ p ∈ sent, ∃ e, d.channels p.request.channel = some e ∧
      reply = replyFor pb map behaviour e.identity p.request := by
  have single (p : Packet) (member : p ∈ sent) :
      answer pb map (p.frames, behaviour) = [replyFor pb map behaviour (p.frames.headD [])
        p.request] := by
    obtain ⟨e, _, recorded⟩ := told.told p member
    rw [recorded.frames]
    rfl
  have head {p : Packet} {e : ChannelEnd} (member : p ∈ sent)
      (channel : d.channels p.request.channel = some e) : p.frames.headD [] = e.identity := by
    obtain ⟨e', channel', recorded⟩ := told.told p member
    rw [recorded.frames, Option.some.inj (channel.symm.trans channel')]
    rfl
  refine ⟨sent.map fun p => replyFor pb map behaviour (p.frames.headD []) p.request, ?_, ?_, ?_⟩
  · rw [List.map_eq_flatMap]
    exact List.flatMap_congr single
  · intro faultless
    refine List.Nodup.map_on (fun p one q other same => ?_) (List.Nodup.of_map _ told.ids)
    obtain ⟨e, channel, _⟩ := told.told p one
    obtain ⟨e', channel', _⟩ := told.told q other
    rw [head one channel, head other channel'] at same
    exact told.same_reply faultless one other channel channel' same
  · intro reply
    rw [List.mem_map]
    constructor
    · rintro ⟨p, member, rfl⟩
      obtain ⟨e, channel, _⟩ := told.told p member
      exact ⟨p, member, e, channel, by rw [head member channel]⟩
    · rintro ⟨p, member, e, channel, rfl⟩
      exact ⟨p, member, by rw [head member channel]⟩

end Told

/-- The replies a channel has read are among the answers to its requests, and so is a reply
that it can read. -/
theorem read_known (run : Path (Fires (step pb map)) (start n) inputs events d)
    (faultless : Faultless behaviour inputs) :
    ((repliesRead pb map inputs n : Multiset FramesT) + d.returning) ≤
      ((requested pb map inputs n).flatMap fun p => answer pb map (p.frames, behaviour) :
        List FramesT) := by
  have path := pool_path run
  have balance := (Pool.run_balanced path).balance
  rw [requested_answers run, ← answered_coe, serverTraffic, balance, answered_add, answered_add,
    answered_coe, ← (Pool.run_answered path (poolInputs_behave faultless.behaves)).replies,
    (run_returned run).balance]
  refine le_trans ?_ (le_trans (Multiset.le_add_right _ _) (Multiset.le_add_right _ _))
  rw [add_right_comm]
  exact Multiset.le_add_right _ _

section Steps

variable {input : DeploymentInput Msg}

/-- A step that changes no client, at the most opens a channel. -/
theorem Told.still (told : Told pb map behaviour inputs sent heards d) (silent : input.asks = none)
    (kept : ∀ k e, d.channels k = some e → ∃ e', next.channels k = some e' ∧
      e'.identity = e.identity ∧ e'.session.client = e.session.client)
    (origin : ∀ k e', next.channels k = some e' →
      (∃ e, d.channels k = some e ∧ e'.identity = e.identity ∧
        e'.session.client = e.session.client) ∨
      (input = .opened k e'.identity ∧ e'.session.client = {})) :
    Told pb map behaviour (inputs ++ [input]) sent heards next where
  asked := by
    rw [told.asked, List.filterMap_append, List.filterMap_cons_none silent, List.filterMap_nil,
      List.append_nil]
  ids := told.ids
  told p member := by
    obtain ⟨e, channel, recorded⟩ := told.told p member
    obtain ⟨e', channel', identity, client⟩ := kept _ e channel
    exact ⟨e', channel', identity ▸ recorded.frames, client ▸ recorded.counted,
      identity ▸ client ▸ recorded.tells⟩
  counters k e' channel' := by
    rcases origin k e' channel' with ⟨e, channel, _, client⟩ | ⟨_, client⟩
    · rw [client]
      exact told.counters k e channel
    · rw [client]
      exact ⟨Nat.zero_le _, rfl⟩
  names k e' channel' := by
    rcases origin k e' channel' with ⟨e, channel, identity, _⟩ | ⟨opened, _⟩
    · rw [identity]
      exact List.mem_append_left _ (told.names k e channel)
    · rw [opened]
      simp

/-- A step that changes at most the call a channel is in. -/
theorem Told.of_channel (told : Told pb map behaviour inputs sent heards d) {k : Nat}
    {e : ChannelEnd} (channel : d.channels k = some e) (e' : ChannelEnd)
    (silent : input.asks = none) (identity : e'.identity = e.identity)
    (client : e'.session.client = e.session.client)
    (channels : next.channels = (d.setChannel k e').channels) :
    Told pb map behaviour (inputs ++ [input]) sent heards next := by
  refine told.still silent (fun k' e₁ there => ?_) fun k' e₁ there => ?_
  · by_cases own : k' = k
    · subst own
      obtain rfl := Option.some.inj (channel.symm.trans there)
      exact ⟨e', by rw [channels, setChannel_self], identity, client⟩
    · exact ⟨e₁, by rw [channels, setChannel_ne d e' own, there], rfl, rfl⟩
  · rw [channels] at there
    by_cases own : k' = k
    · subst own
      rw [setChannel_self] at there
      obtain rfl := Option.some.inj there
      exact .inl ⟨e, channel, identity, client⟩
    · rw [setChannel_ne d e' own] at there
      exact .inl ⟨e₁, there, rfl, rfl⟩

/-- A step that leaves the channels alone. -/
theorem Told.of_same (told : Told pb map behaviour inputs sent heards d)
    (silent : input.asks = none) (channels : next.channels = d.channels) :
    Told pb map behaviour (inputs ++ [input]) sent heards next :=
  told.still silent (fun k e there => ⟨e, by rw [channels]; exact there, rfl, rfl⟩)
    fun k e there => .inl ⟨e, by rw [← channels]; exact there, rfl, rfl⟩

/-- What the other controllers tell stays, when one more reply is read. -/
theorem Tells.other {s s' : Client} {r : Request} {read read' : Prop}
    (tells : Tells pb map behaviour s r read) (same : read' ↔ read)
    (memory : s'.memory r.controller = s.memory r.controller)
    (entry : s.channel.replylist.lookup r.id = some r.controller →
      s'.channel.replylist.lookup r.id = some r.controller) :
    Tells pb map behaviour s' r read' := by
  constructor
  · rw [same, memory]
    exact tells.ready
  · rw [same, memory]
    exact fun unread => ⟨(tells.waiting unread).1, entry (tells.waiting unread).2⟩

/-- The reply that is read for the first time ends the wait of its controller, if its code is
zero. -/
theorem tells_read {s s' : Client} {r : Request} {identity : Bytes} {frames : FramesT}
    (tells : Tells pb map behaviour s r False) (fits : r.id < sizeMod)
    (counted : r.id ≤ s.channel.nextreply)
    (reply : identity :: frames = replyFor pb map behaviour identity r)
    (changes : (∃ id c, Answers id frames ∧ id ≤ s.channel.nextreply ∧
        s.channel.replylist.lookup id = some c ∧ s' = s.ready id c (frames.getD 3 [])) ∨
      (∀ id c, Answers id frames → id ≤ s.channel.nextreply →
        s.channel.replylist.lookup id ≠ some c) ∧ s' = s) :
    Tells pb map behaviour s' r True ∧
    ∀ c id, c ≠ r.controller → id ≠ r.id → s'.memory c = s.memory c ∧
      (s.channel.replylist.lookup id = some c → s'.channel.replylist.lookup id = some c) := by
  obtain ⟨working, entry⟩ := tells.waiting (fun read => read.1)
  have answers := replyFor_answers fits reply
  rcases changes with ⟨id, c, answer, _, mine, rfl⟩ | ⟨silent, rfl⟩
  · have zero : (codeAndData pb map behaviour r.opcode r.buffer).1 = 0 := by
      have reads : Reads r.id frames := by
        obtain ⟨-, rfl⟩ := List.cons.inj reply
        exact lexicalCast_decimal r.id fits
      have same : id = r.id := Option.some.inj (answer.2.1.symm.trans reads)
      exact answers.mp (same ▸ answer)
    obtain rfl := Answers.unique (answers.mpr zero) answer
    obtain rfl := Option.some.inj (entry.symm.trans mine)
    have payload : frames.getD 3 [] = (codeAndData pb map behaviour r.opcode r.buffer).2 := by
      obtain ⟨-, rfl⟩ := List.cons.inj reply
      rfl
    refine ⟨⟨fun _ _ => ?_, fun unread => absurd ⟨trivial, zero⟩ unread⟩,
      fun c id other apart => ?_⟩
    · rw [Client.ready_same, payload]
      exact ⟨rfl, rfl⟩
    · refine ⟨Client.ready_other _ _ _ _ _ other, fun there => ?_⟩
      rw [Client.ready_replylist, Finmap.lookup_erase_ne apart, there]
  · have nonzero : (codeAndData pb map behaviour r.opcode r.buffer).1 ≠ 0 := fun zero =>
      silent r.id r.controller (answers.mpr zero) counted entry
    exact ⟨⟨fun _ zero => absurd zero nonzero, fun _ => ⟨working, entry⟩⟩,
      fun _ _ _ _ => ⟨rfl, id⟩⟩

theorem told_read (told : Told pb map behaviour inputs sent heards d)
    (faultless : Faultless behaviour inputs) (silent : input.asks = none) {k i : Nat}
    {e : ChannelEnd} {session : Session} {frames : FramesT} (channel : d.channels k = some e)
    {p : Packet} (member : p ∈ sent) (mine : p.request.channel = k)
    (reply : e.identity :: frames = replyFor pb map behaviour e.identity p.request)
    (fresh : e.identity :: frames ∉ heards)
    (changes : (∃ id c, Answers id frames ∧ id ≤ e.session.client.channel.nextreply ∧
        e.session.client.channel.replylist.lookup id = some c ∧
        session.client = e.session.client.ready id c (frames.getD 3 [])) ∨
      (∀ id c, Answers id frames → id ≤ e.session.client.channel.nextreply →
        e.session.client.channel.replylist.lookup id ≠ some c) ∧
        session.client = e.session.client) :
    Told pb map behaviour (inputs ++ [input]) sent (heards ++ [e.identity :: frames])
      { d.setChannel k { e with session } with toClients := d.toClients.eraseIdx i } := by
  have counter : session.client.channel.nextreply = e.session.client.channel.nextreply ∧
      session.client.channel.pending = e.session.client.channel.pending := by
    rcases changes with ⟨_, _, _, _, _, same⟩ | ⟨_, same⟩ <;> rw [same] <;> exact ⟨rfl, rfl⟩
  have recorded : Recorded pb map behaviour heards p e := by
    obtain ⟨e', channel', recorded⟩ := told.told p member
    rw [mine, channel] at channel'
    exact Option.some.inj channel' ▸ recorded
  have unread : replyFor pb map behaviour e.identity p.request ∉ heards := reply ▸ fresh
  obtain ⟨now, others⟩ := tells_read (by simpa [unread] using recorded.tells)
    (told.fits faultless member) recorded.counted reply changes
  refine ⟨?_, told.ids, fun q there => ?_, fun k' e' channel' => ?_, fun k' e' channel' => ?_⟩
  · rw [told.asked, List.filterMap_append, List.filterMap_cons_none silent, List.filterMap_nil,
      List.append_nil]
  · obtain ⟨e', channel', recorded'⟩ := told.told q there
    by_cases same : q = p
    · subst same
      refine ⟨{ e with session }, by rw [mine]; exact setChannel_self d k _, recorded.frames,
        counter.1 ▸ recorded.counted, ?_⟩
      have read : replyFor pb map behaviour e.identity q.request ∈ heards ++
          [e.identity :: frames] := by simp [reply]
      rw [eq_true read]
      exact now
    · have read : replyFor pb map behaviour e'.identity q.request ∈ heards ++
          [e.identity :: frames] ↔ replyFor pb map behaviour e'.identity q.request ∈ heards := by
        have other : replyFor pb map behaviour e'.identity q.request ≠ e.identity :: frames := by
          rw [reply]
          exact fun equal => same
            (told.same_reply faultless there member channel' (mine ▸ channel) equal)
        simp [other]
      by_cases own : q.request.channel = k
      · rw [own, channel] at channel'
        obtain rfl := Option.some.inj channel'
        have apart : q.request.controller ≠ p.request.controller := fun equal =>
          same (told.same_controller faultless there member (own.trans mine.symm) equal)
        have ids : q.request.id ≠ p.request.id := fun equal =>
          same (told.same_packet there member (own.trans mine.symm) equal)
        obtain ⟨memory, entry⟩ := others _ _ apart ids
        exact ⟨{ e with session }, by rw [own]; exact setChannel_self d k _, recorded'.frames,
          counter.1 ▸ recorded'.counted, recorded'.tells.other read memory entry⟩
      · exact ⟨e', (setChannel_ne d _ own).trans channel', recorded'.frames, recorded'.counted,
          recorded'.tells.other read rfl id⟩
  · by_cases own : k' = k
    · subst own
      obtain rfl := Option.some.inj ((setChannel_self d k' _).symm.trans channel')
      rw [counter.1, counter.2]
      exact told.counters k' e channel
    · exact told.counters k' e' ((setChannel_ne d _ own).symm.trans channel')
  · by_cases own : k' = k
    · subst own
      obtain rfl := Option.some.inj ((setChannel_self d k' _).symm.trans channel')
      exact List.mem_append_left _ (told.names k' e channel)
    · exact List.mem_append_left _ (told.names k' e' ((setChannel_ne d _ own).symm.trans channel'))

/-- A request that is sent has an id of its own, and its controller waits. -/
theorem told_sent (told : Told pb map behaviour inputs sent heards d)
    (faultless : Faultless behaviour (inputs ++ [input]))
    (known : ∀ reply ∈ heards, ∃ p ∈ sent, ∃ e, d.channels p.request.channel = some e ∧
      reply = replyFor pb map behaviour e.identity p.request)
    {k : Nat} {c : Ptr} {fullName buffer : Bytes} {e : ChannelEnd} {session : Session}
    {pool : Pool} {p : Packet} (asks : input.asks = some (k, c, fullName, buffer))
    (channel : d.channels k = some e) (client : session.client = e.session.client.outstanding c)
    (request : p.request = ⟨k, c, e.session.client.nextid, fullName, buffer⟩)
    (frames : p.frames = e.identity :: (e.session.client.channel.pending ++
      requestFrames e.session.client.nextid fullName buffer)) :
    Told pb map behaviour (inputs ++ [input]) (sent ++ [p]) heards
      { d.setChannel k { e with session } with pool } := by
  obtain ⟨bound, pending⟩ := told.counters k e channel
  have asked : (sent ++ [p]).map (·.request.asked) =
      (inputs ++ [input]).filterMap DeploymentInput.asks := by
    rw [List.filterMap_append, List.filterMap_cons_some asks, List.filterMap_nil, ← told.asked,
      List.map_append, List.map_singleton, request]
    rfl
  have next : e.session.client.nextid = e.session.client.channel.nextreply + 1 := by
    have few := congrArg List.length asked
    rw [List.length_map, List.length_append, List.length_singleton] at few
    have fewer := faultless.fewer
    exact Nat.mod_eq_of_lt (by simp only [sizeMod]; omega)
  have larger {q : Packet} (there : q ∈ sent) (own : q.request.channel = k) :
      q.request.id < e.session.client.nextid := by
    obtain ⟨e', channel', recorded⟩ := told.told q there
    rw [own, channel] at channel'
    obtain rfl := Option.some.inj channel'
    rw [next]
    exact Nat.lt_succ_of_le recorded.counted
  have free {q : Packet} (there : q ∈ sent) (own : q.request.channel = k) :
      q.request.controller ≠ c := by
    intro same
    have apart := faultless.own
    rw [← asked, List.map_map, List.map_append] at apart
    refine (List.nodup_append.mp apart).2.2 (k, c) ?_ (k, c) ?_ rfl
    · exact List.mem_map.mpr ⟨q, there, Prod.ext own same⟩
    · simp [request, Request.asked]
  have unread : replyFor pb map behaviour e.identity p.request ∉ heards := by
    intro there
    obtain ⟨q, member, e', channel', same⟩ := known _ there
    obtain ⟨identities, rest⟩ := List.cons.inj same
    have ids := congrArg value (List.cons.inj (List.cons.inj rest).2).1
    rw [value_decimal, value_decimal, request] at ids
    have own := told.same_channel faultless.front channel' channel identities.symm
    exact absurd ids (larger member own).ne'
  refine ⟨asked, ?_, fun q there => ?_, fun k' e' channel' => ?_, fun k' e' channel' => ?_⟩
  · rw [List.map_append]
    refine List.nodup_append.mpr ⟨told.ids, List.nodup_singleton _, ?_⟩
    rintro _ old _ new rfl
    obtain ⟨q, there, same⟩ := List.mem_map.mp old
    rw [List.map_singleton, List.mem_singleton, request] at new
    obtain ⟨own, ids⟩ := Prod.mk.inj (same.trans new)
    exact absurd ids (larger there own).ne
  · rcases List.mem_append.mp there with old | new
    · obtain ⟨e', channel', recorded⟩ := told.told q old
      by_cases own : q.request.channel = k
      · rw [own, channel] at channel'
        obtain rfl := Option.some.inj channel'
        refine ⟨{ e with session }, by rw [own]; exact setChannel_self d k _, recorded.frames,
          ?_, ?_⟩
        · rw [client, Client.outstanding_nextreply, next]
          exact Nat.le_succ_of_le recorded.counted
        · refine recorded.tells.other Iff.rfl ?_ fun entry => ?_
          · rw [client, Client.outstanding_other _ _ _ (free old own)]
          · rw [client, Client.outstanding_replylist,
              Finmap.lookup_insert_of_ne _ (larger old own).ne, entry]
      · exact ⟨e', (setChannel_ne d _ own).trans channel', recorded⟩
    · obtain rfl := List.mem_singleton.mp new
      refine ⟨{ e with session }, by rw [request]; exact setChannel_self d k _, ?_, ?_, ?_⟩
      · rw [frames, pending, request]
        rfl
      · rw [client, Client.outstanding_nextreply, request]
      · refine ⟨fun read => absurd read unread, fun _ => ?_⟩
        rw [client, request]
        exact ⟨Client.outstanding_rcode _ _, by simp⟩
  · rw [List.length_append, List.length_singleton]
    by_cases own : k' = k
    · subst own
      obtain rfl := Option.some.inj ((setChannel_self d k' _).symm.trans channel')
      rw [client, Client.outstanding_nextreply, next]
      exact ⟨Nat.succ_le_succ bound, rfl⟩
    · obtain ⟨few, empty⟩ := told.counters k' e' ((setChannel_ne d _ own).symm.trans channel')
      exact ⟨Nat.le_succ_of_le few, empty⟩
  · by_cases own : k' = k
    · subst own
      obtain rfl := Option.some.inj ((setChannel_self d k' _).symm.trans channel')
      exact List.mem_append_left _ (told.names k' e channel)
    · exact List.mem_append_left _ (told.names k' e' ((setChannel_ne d _ own).symm.trans channel'))

end Steps

section Runs

/-- A reply a channel can read is that to one of its requests, which it has not read before. -/
theorem reply_fresh (run : Path (Fires (step pb map)) (start n) inputs events d)
    (faultless : Faultless behaviour inputs)
    (told : Told pb map behaviour inputs (requested pb map inputs n) (repliesRead pb map inputs n)
      d)
    {k : Nat} {e : ChannelEnd} {frames : FramesT} (channel : d.channels k = some e)
    (there : (some k, frames) ∈ d.toClients) :
    (∃ p ∈ requested pb map inputs n, p.request.channel = k ∧
      e.identity :: frames = replyFor pb map behaviour e.identity p.request) ∧
    e.identity :: frames ∉ repliesRead pb map inputs n := by
  obtain ⟨replies, same, nodup, known⟩ := told.answers
  have among := read_known run faultless
  rw [same] at among
  have mine : e.identity :: frames ∈ d.returning :=
    List.mem_filterMap.mpr ⟨_, there, by simp [addressed, channel]⟩
  constructor
  · obtain ⟨p, member, e', channel', reply⟩ := (known _).mp
      (Multiset.mem_of_le among (Multiset.mem_add.mpr (.inr mine)))
    have identities := (List.cons.inj reply).1
    have own := told.same_channel faultless channel' channel identities.symm
    exact ⟨p, member, own, identities ▸ reply⟩
  · intro read
    have apart := Multiset.nodup_of_le among (Multiset.coe_nodup.mpr (nodup faultless))
    exact Multiset.disjoint_left.mp (Multiset.nodup_add.mp apart).2.2 read mine

theorem run_told (run : Path (Fires (step pb map)) (start n) inputs events d)
    (faultless : Faultless behaviour inputs) :
    Told pb map behaviour inputs (requested pb map inputs n) (repliesRead pb map inputs n) d := by
  induction run with
  | nil =>
    exact ⟨rfl, List.nodup_nil, fun _ there => (nomatch there), fun _ _ there => (nomatch there),
      fun _ _ there => (nomatch there)⟩
  | @snoc inputs events d input emitted next earlier last ih =>
    have told := ih faultless.front
    have lossless := faultless.lossless input (by simp)
    have sends : requested pb map (inputs ++ [input]) n =
        requested pb map inputs n ++ d.departed input := earlier.along_snoc last
    have reads : repliesRead pb map (inputs ++ [input]) n =
        repliesRead pb map inputs n ++ d.heard input := earlier.along_snoc last
    rw [sends, reads]
    have quiet (departs : d.departed input = []) (hears : d.heard input = [])
        (held : Told pb map behaviour (inputs ++ [input]) (requested pb map inputs n)
          (repliesRead pb map inputs n) next) :
        Told pb map behaviour (inputs ++ [input]) (requested pb map inputs n ++ d.departed input)
          (repliesRead pb map inputs n ++ d.heard input) next := by
      rw [departs, hears, List.append_nil, List.append_nil]
      exact held
    cases input with
    | closed k => exact lossless.elim
    | loseReply i => exact lossless.elim
    | opened k identity =>
      obtain ⟨fresh, rfl, -⟩ := step_opened last
      refine quiet rfl rfl (told.still rfl (fun k' e there => ?_) fun k' e there => ?_)
      · have other : k' ≠ k := by
          rintro rfl
          rw [fresh] at there
          cases there
        exact ⟨e, (setChannel_ne d _ other).trans there, rfl, rfl⟩
      · by_cases own : k' = k
        · subst own
          obtain rfl := Option.some.inj ((setChannel_self d k' _).symm.trans there)
          exact .inr ⟨rfl, rfl⟩
        · exact .inl ⟨e, (setChannel_ne d _ own).symm.trans there, rfl, rfl⟩
    | send k c fullName request outcome =>
      obtain ⟨e, session, emitted, live, stepped, rfl, -⟩ := step_send last
      obtain ⟨-, -, ⟨buffer, rfl, -, client, rfl⟩ | ⟨fails, -⟩⟩ :=
        e.session.step_send session c fullName request outcome emitted stepped
      · obtain ⟨replies, same, -, known⟩ := told.answers
        have among := read_known earlier faultless.front
        rw [same] at among
        have departs : d.departed (.send k c fullName (.bytes buffer) outcome :
            DeploymentInput Msg) =
            [⟨none, ⟨k, c, e.session.client.nextid, fullName, buffer⟩, e.identity ::
              (e.session.client.channel.pending ++
                requestFrames e.session.client.nextid fullName buffer)⟩] := by
          simp only [departed, emits_of live stepped]
          rfl
        rw [departs, show d.heard (.send k c fullName (.bytes buffer) outcome :
          DeploymentInput Msg) = [] from rfl, List.append_nil]
        exact told_sent told faultless
          (fun reply read => (known reply).mp (Multiset.mem_of_le among
            (Multiset.mem_add.mpr (.inl read)))) rfl (live_some live).1 client rfl rfl
      · exact absurd lossless fails
    | recv k c timeout start =>
      obtain ⟨e, session, emitted, live, stepped, rfl, -⟩ := step_recv last
      obtain ⟨-, rfl, -⟩ := e.session.step_recv session c timeout start emitted stepped
      exact quiet rfl rfl (told.of_channel (live_some live).1
        { e with session := ⟨e.session.client, some (recvCall c timeout start)⟩ } rfl rfl rfl rfl)
    | tick k now poll taking =>
      obtain ⟨e, session, live, -, ⟨rfl, client, hears⟩ |
        ⟨i, frames, found, rfl, hears, changes⟩⟩ := tick_cases last
      · exact quiet rfl hears (told.of_channel (live_some live).1 { e with session } rfl rfl client
          rfl)
      · obtain ⟨⟨p, member, mine, reply⟩, fresh⟩ := reply_fresh earlier faultless.front told
          (live_some live).1 (List.mem_of_getElem? found)
        rw [hears, show d.departed (.tick k now poll taking : DeploymentInput Msg) = [] from rfl,
          List.append_nil]
        exact told_read told faultless.front rfl (live_some live).1 member mine reply fresh changes
    | pool input =>
      obtain ⟨p, _, _, rfl⟩ := step_pool last
      exact quiet rfl rfl (told.of_same rfl rfl)
    | route i k =>
      obtain ⟨_, _, _, _, rfl, -⟩ := step_route last
      exact quiet rfl rfl (told.of_same rfl rfl)

/-- Nothing is lost on the way to the channels. -/
theorem Faultless.kept (faultless : Faultless behaviour inputs) :
    repliesLost pb map inputs n = [] := by
  refine List.eq_nil_iff_forall_not_mem.mpr fun reply member => ?_
  obtain ⟨input, there, d, gone⟩ := mem_along member
  have lossless := faultless.lossless input there
  cases input <;> first | exact lossless.elim | cases gone

/-- Only `WorkerStop` brings stop orders. -/
theorem order_arrives {p : Pool} {input : PoolInput Msg} {movement : Movement} {m : Inbound}
    (here : movement ∈ Pool.moves p input) (arrival : movement.arrival = some m)
    (order : m.stopOrder = true) : input = .workerStop := by
  have quiet {ms : List Inbound} {made : Inbound → Movement}
      (silent : ∀ m, (made m).arrival = none) (there : movement ∈ ms.map made) :
      input = .workerStop := by
    obtain ⟨m', _, rfl⟩ := List.mem_map.mp there
    rw [silent] at arrival
    cases arrival
  cases input with
  | workerStop => rfl
  | arrive identity frames =>
    obtain rfl := List.mem_singleton.mp here
    obtain rfl := Option.some.inj arrival
    cases order
  | deal i =>
    simp only [Pool.moves] at here
    split at here
    · obtain rfl := List.mem_singleton.mp here
      cases arrival
    · cases here
  | work j interrupted handler reply errorReply =>
    cases interrupted with
    | true => cases here
    | false => exact quiet (fun _ => rfl) here
  | close j => exact quiet (fun _ => rfl) here
  | connect j => cases here

/-- No stop order comes to the frontend, and a request is none. -/
theorem Faultless.served (run : Path (Fires (step pb map)) (start n) inputs events d)
    (faultless : Faultless behaviour inputs) (m : Inbound)
    (member : m ∈ (serverTraffic pb map inputs n).filterMap Movement.arrival) :
    isStop m.frames = false := by
  obtain ⟨clients, _⟩ := run_brings run
  cases order : m.stopOrder with
  | false =>
    have sent : m ∈ (requested pb map inputs n).map (fun p => (⟨false, p.frames⟩ : Inbound)) := by
      rw [← clients]
      exact List.mem_filter.mpr ⟨member, by simp [order]⟩
    obtain ⟨p, there, rfl⟩ := List.mem_map.mp sent
    obtain ⟨e, _, recorded⟩ := (run_told run faultless).told p there
    rw [recorded.frames]
    rfl
  | true =>
    obtain ⟨movement, moved, arrival⟩ := List.mem_filterMap.mp member
    obtain ⟨input, there, p, here⟩ := mem_along moved
    obtain ⟨origin, asked, d, made⟩ := mem_along there
    obtain rfl := order_arrives here arrival order
    have stops : origin = .pool .workerStop := by
      cases origin with
      | pool input => rw [List.mem_singleton.mp made]
      | send k c fullName request outcome =>
        simp only [poolInputs] at made
        split at made
        · cases made
        · obtain ⟨_, _, same⟩ := List.mem_map.mp made
          cases same
      | _ => cases made
    subst stops
    exact (faultless.lossless _ asked).elim

/-- Once nothing can move in the server and every reply has been read, each controller tells
what it tells after its reply. -/
theorem rest_tells (run : Path (Fires (step pb map)) (start n) inputs events d)
    (faultless : Faultless behaviour inputs) (connected : d.pool.turns ≠ [])
    (rest : Pool.AtRest pb map d.pool) (read : d.toClients = []) {p : Packet}
    (member : p ∈ requested pb map inputs n) :
    ∃ e, d.channels p.request.channel = some e ∧
      Tells pb map behaviour e.session.client p.request True := by
  have told := run_told run faultless
  obtain ⟨e, channel, recorded⟩ := told.told p member
  have all : (messages events).Perm (repliesRead pb map inputs n) := by
    have balance := (run_returned run).balance
    rw [faultless.kept, returning, read] at balance
    exact Multiset.coe_eq_coe.mp (by simpa using balance)
  have heard : replyFor pb map behaviour e.identity p.request ∈ repliesRead pb map inputs n := by
    obtain ⟨replies, same, _, known⟩ := told.answers
    have settled := Pool.rest_replies (pool_path run) (poolInputs_behave faultless.behaves)
      (faultless.served run) connected rest
    have requests := @requested_answers _ pb map _ _ behaviour _ _ run
    rw [← all.mem_iff, settled.mem_iff]
    change _ ∈ Pool.answers pb map behaviour
      ((serverTraffic pb map inputs n).filterMap Movement.arrival)
    rw [← requests, same]
    exact (known _).mpr ⟨p, member, e, channel, rfl⟩
  exact ⟨e, channel, eq_true heard ▸ recorded.tells⟩

/-- The controller of a request is ready with the response to it if that is a success, and
otherwise still waits, since the error was thrown. -/
def Settled (pb : Protobuf Msg) (map : RpcMethodMapT) (behaviour : Behaviour Msg)
    (d : Deployment) : Asked → Prop
  | (k, c, opcode, buffer) =>
    ∃ e, d.channels k = some e ∧
      ((codeAndData pb map behaviour opcode buffer).1 = 0 →
        (e.session.client.memory c).rcode = .ready ∧
        (e.session.client.memory c).payload = (codeAndData pb map behaviour opcode buffer).2) ∧
      ((codeAndData pb map behaviour opcode buffer).1 ≠ 0 →
        (e.session.client.memory c).rcode = .working)

theorem settled_of_tells
    (tells : ∀ p ∈ requested pb map inputs n, ∃ e, d.channels p.request.channel = some e ∧
      Tells pb map behaviour e.session.client p.request True)
    (asked : (requested pb map inputs n).map (·.request.asked) = inputs.filterMap asks)
    (q : Asked) (member : q ∈ inputs.filterMap asks) : Settled pb map behaviour d q := by
  rw [← asked] at member
  obtain ⟨p, there, rfl⟩ := List.mem_map.mp member
  obtain ⟨e, channel, told⟩ := tells p there
  exact ⟨e, channel, told.ready trivial, fun failed =>
    (told.waiting fun success => failed success.2).1⟩

theorem twoCallers_faultless : Faultless (fun _ request => .ok request) twoCallers where
  lossless := by
    simp [twoCallers, Lossless, Succeeds, Accepts, acceptAll, Pool.Behaves, Behaviour.handler, echo,
      funext_iff]
  names := by decide
  own := by decide
  fewer := by decide

end Runs

end Deployment

end Zqrpc
