import Zqrpc.ReplyList

/-! The error a controller carries: what a failed `ZSendMethod` stores, and what is
left of it when the controller is used again. -/
namespace Zqrpc

open Numeral Steps

/-- The request serializes and the socket returns `false` for the first frame it does
not take. -/
def Refused (request : Serialized) (outcome : Nat → SendOutcome) : Prop :=
  (∃ buffer, request = .bytes buffer) ∧ ∃ k < 4, Accepts outcome k ∧ outcome k = .refused

/-- The request serializes and the socket does not take all of its frames. -/
def Untaken (request : Serialized) (outcome : Nat → SendOutcome) : Prop :=
  (∃ buffer, request = .bytes buffer) ∧ ¬Accepts outcome 4

/-- The call has succeeded: the new id is the only change of `replylist_`. -/
def Sent (s : Client) (c : Ptr) (request : Serialized) (outcome : Nat → SendOutcome)
    (s' : Client) : Prop :=
  Succeeds request outcome ∧ (s'.memory c).rcode = .working ∧
    s.channel.replylist.lookup s.nextid = none ∧
    s'.channel.replylist = s.channel.replylist.insert s.nextid c

/-- The call has failed with the right code, and a receive call on the controller
returns at once and keeps it. -/
structure FailedSend (s : Client) (c : Ptr) (request : Serialized)
    (outcome : Nat → SendOutcome) (s' : Client) : Prop where
  error : (s'.memory c).rcode = .error
  kept : s'.channel.replylist = s.channel.replylist
  header : (s'.memory c).zerror.ecode = .invalidHeader ↔ request = .failed
  connection : (s'.memory c).zerror.ecode = .connectionError ↔ Untaken request outcome
  unread : ∀ timeout start t, ∃ call,
    Session.step ⟨s', none⟩ (.recv c timeout start) = some (⟨s', some call⟩, []) ∧
    Session.step ⟨s', some call⟩ (.tick t) = some (⟨s', none⟩, [.returned c none])

/-- What a `ZSendMethod` call should do, whatever goes wrong. -/
structure AtomicSend (fullName : Bytes) (s : Client) (c : Ptr) (request : Serialized)
    (outcome : Nat → SendOutcome) : Prop where
  unthrown : (zSendMethod fullName c request outcome s).2.2 = none
  result : Sent s c request outcome (zSendMethod fullName c request outcome s).1 ∨
    FailedSend s c request outcome (zSendMethod fullName c request outcome s).1

/-- A call for a controller in error leaves its loop before it looks at the socket. -/
theorem error_unread (s : Client) (c : Ptr) (error : (s.memory c).rcode = .error)
    (timeout start : Int) (t : Tick) : ∃ call,
    Session.step ⟨s, none⟩ (.recv c timeout start) = some (⟨s, some call⟩, []) ∧
    Session.step ⟨s, some call⟩ (.tick t) = some (⟨s, none⟩, [.returned c none]) := by
  refine ⟨recvCall c timeout start, rfl, ?_⟩
  have leaves : iteration (recvCall c timeout start) t s = (s, .leave, []) := by
    simp [iteration, recvCall, error]
  simp only [Session.step, leaves]
  simp [recvCall, parsed, error]

theorem failedSend_iff (s : Client) (c : Ptr) (request : Serialized)
    (outcome : Nat → SendOutcome) (channel : RpcChannel) (code : ErrorCodeE)
    (kept : channel.replylist = s.channel.replylist) :
    FailedSend s c request outcome ({ s with channel }.fail c code) ↔
      ((code = .invalidHeader ↔ request = .failed) ∧
        (code = .connectionError ↔ Untaken request outcome)) := by
  have stored : (({ s with channel }.fail c code).memory c).zerror.ecode = code := by
    simp [Client.fail, ZError.reset]
  constructor
  · intro failed
    have header := failed.header
    have connection := failed.connection
    rw [stored] at header connection
    exact ⟨header, connection⟩
  · rintro ⟨header, connection⟩
    constructor
    · exact Client.fail_rcode _ _ _
    · exact kept
    · rwa [stored]
    · rwa [stored]
    · intro timeout start t
      exact error_unread _ c (Client.fail_rcode _ _ _) timeout start t

theorem first_failure_unique {outcome : Nat → SendOutcome} {j k : Nat} (one : Accepts outcome j)
    (stops : outcome j ≠ .accepted) (two : Accepts outcome k) (halts : outcome k ≠ .accepted) :
    j = k := by
  rcases Nat.lt_trichotomy j k with less | same | greater
  · exact absurd (two j less) stops
  · exact same
  · exact absurd (one k greater) halts

theorem atomicSend_iff {fullName : Bytes} {s s' : Client} {c : Ptr} {request : Serialized}
    {outcome : Nat → SendOutcome} {events : List Event}
    (result : zSendMethod fullName c request outcome s = (s', events, none)) :
    AtomicSend fullName s c request outcome ↔
      Sent s c request outcome s' ∨ FailedSend s c request outcome s' := by
  constructor
  · intro atomic
    have either := atomic.result
    rwa [result] at either
  · intro either
    exact ⟨by rw [result], by rwa [result]⟩

theorem atomic_send_taken (fullName : Bytes) (s : Client) (c : Ptr) (buffer : Bytes)
    (outcome : Nat → SendOutcome) (accepts : Accepts outcome 4) :
    AtomicSend fullName s c (.bytes buffer) outcome ↔
      s.channel.replylist.lookup s.nextid = none := by
  rw [atomicSend_iff (zSendMethod_succeeds fullName c buffer outcome s accepts)]
  constructor
  · rintro (⟨_, _, fresh, _⟩ | failed)
    · exact fresh
    · have working := failed.error
      rw [Client.outstanding_rcode] at working
      cases working
  · intro fresh
    exact .inl ⟨⟨⟨buffer, rfl⟩, accepts⟩, by simp, fresh, rfl⟩

theorem atomic_send_untaken (fullName : Bytes) (s : Client) (c : Ptr) (buffer : Bytes)
    (outcome : Nat → SendOutcome) (k : Nat) (bound : k < 4) (before : Accepts outcome k)
    (fails : outcome k ≠ .accepted) :
    AtomicSend fullName s c (.bytes buffer) outcome ↔ outcome k ≠ .refused := by
  have notAll : ¬Accepts outcome 4 := fun all => fails (all k bound)
  rw [atomicSend_iff (zSendMethod_unsent fullName c buffer outcome s k bound before fails)]
  have stored := failedSend_iff s c (.bytes buffer) outcome
    ⟨s.channel.pending ++ (requestFrames s.nextid fullName buffer).take k,
      s.channel.replylist, s.nextid⟩ (outcome k).code rfl
  constructor
  · rintro (sent | failed) refused
    · exact notAll sent.1.2
    · have code := (stored.mp failed).1.mp (by rw [refused]; rfl)
      cases code
  · intro other
    have threw : outcome k = .threw := by
      cases h : outcome k with
      | accepted => exact absurd h fails
      | refused => exact absurd h other
      | threw => rfl
    refine .inr (stored.mpr ⟨?_, ?_⟩)
    · rw [threw]
      simp [SendOutcome.code, ErrorCodeE.connectionError, ErrorCodeE.invalidHeader]
    · rw [threw]
      simp [SendOutcome.code, Untaken, notAll]

/-- `ZSendMethod` does what it should unless the socket refuses a frame, which is
reported as a bad header, or the new id is still that of another request. -/
theorem atomic_send (fullName : Bytes) (s : Client) (c : Ptr) (request : Serialized)
    (outcome : Nat → SendOutcome) : AtomicSend fullName s c request outcome ↔
      ¬Refused request outcome ∧
      (Succeeds request outcome → s.channel.replylist.lookup s.nextid = none) := by
  cases request with
  | threw =>
    have stored := failedSend_iff s c .threw outcome s.channel .clientError rfl
    have result : zSendMethod fullName c .threw outcome s =
        (s.fail c .clientError, [.failed c], none) := rfl
    rw [atomicSend_iff result]
    refine iff_of_true (.inr (stored.mpr ⟨?_, ?_⟩)) ⟨?_, ?_⟩
    · simp [ErrorCodeE.clientError, ErrorCodeE.invalidHeader]
    · simp [ErrorCodeE.clientError, ErrorCodeE.connectionError, Untaken]
    · simp [Refused]
    · simp [Succeeds]
  | failed =>
    have stored := failedSend_iff s c .failed outcome s.channel .invalidHeader rfl
    have result : zSendMethod fullName c .failed outcome s =
        (s.fail c .invalidHeader, [.failed c], none) := rfl
    rw [atomicSend_iff result]
    refine iff_of_true (.inr (stored.mpr ⟨?_, ?_⟩)) ⟨?_, ?_⟩
    · simp
    · simp [ErrorCodeE.invalidHeader, ErrorCodeE.connectionError, Untaken]
    · simp [Refused]
    · simp [Succeeds]
  | bytes buffer =>
    rcases accepts_or_first_failure outcome 4 with all | ⟨k, bound, before, fails⟩
    · rw [atomic_send_taken fullName s c buffer outcome all]
      have taken : ¬Refused (.bytes buffer) outcome := by
        rintro ⟨_, k, bound, _, refused⟩
        rw [all k bound] at refused
        cases refused
      constructor
      · exact fun fresh => ⟨taken, fun _ => fresh⟩
      · exact fun condition => condition.2 ⟨⟨buffer, rfl⟩, all⟩
    · rw [atomic_send_untaken fullName s c buffer outcome k bound before fails]
      constructor
      · intro other
        refine ⟨?_, fun succeeds => absurd (succeeds.2 k bound) fails⟩
        rintro ⟨_, j, _, earlier, refused⟩
        have stops : outcome j ≠ .accepted := by simp [refused]
        obtain rfl := first_failure_unique earlier stops before fails
        exact other refused
      · rintro ⟨unrefused, _⟩ refused
        exact unrefused ⟨⟨buffer, rfl⟩, k, bound, before, refused⟩

/-- A socket that refuses the first frame of a new channel: the error code is that of a
request that did not serialize. -/
theorem refused_send_bad_header : ¬∀ fullName (s : Client) c request outcome,
    ¬s.Refers c → AtomicSend fullName s c request outcome := by
  intro claim
  have atomic := claim (ascii "m") {} 0 (.bytes []) (fun _ => .refused) (by simp [Client.Refers])
  have unrefused := ((atomic_send _ _ _ _ _).mp atomic).1
  exact unrefused ⟨⟨[], rfl⟩, 0, by decide, by simp [Accepts], rfl⟩

/-- A controller is in error exactly when it carries one. -/
def Agree (s : Client) : Prop :=
  ∀ c, (s.memory c).rcode = .error ↔ (s.memory c).zerror.ecode ≠ .success

/-- A send that succeeds finds no error on its controller. -/
def Clean (s : Session) : Input → Prop
  | .send c _ request outcome =>
    Succeeds request outcome → (s.client.memory c).zerror.ecode = .success
  | _ => True

/-- Every way to fail stores an error. -/
theorem failed_send_code (fullName : Bytes) (s : Client) (c : Ptr) (request : Serialized)
    (outcome : Nat → SendOutcome) (fails : ¬Succeeds request outcome) :
    ((zSendMethod fullName c request outcome s).1.memory c).zerror.ecode ≠ .success := by
  cases request with
  | threw =>
    simp [zSendMethod, sendTry, sendCatch, Exn.isStd, Client.fail, ZError.reset,
      ErrorCodeE.clientError, ErrorCodeE.success]
  | failed =>
    simp [zSendMethod, sendTry, sendCatch, Client.fail, ZError.reset,
      ErrorCodeE.invalidHeader, ErrorCodeE.success]
  | bytes buffer =>
    rcases accepts_or_first_failure outcome 4 with all | ⟨k, bound, before, stops⟩
    · exact absurd ⟨⟨buffer, rfl⟩, all⟩ fails
    · rw [zSendMethod_unsent fullName c buffer outcome s k bound before stops]
      cases outcome k <;> simp [Client.fail, ZError.reset, SendOutcome.code,
        ErrorCodeE.invalidHeader, ErrorCodeE.connectionError, ErrorCodeE.success]

theorem agree_send {s next : Session} {c : Ptr} {fullName : Bytes} {request : Serialized}
    {outcome : Nat → SendOutcome} {emitted : List Event} (agree : Agree s.client)
    (fired : s.step (.send c fullName request outcome) = some (next, emitted)) :
    Agree next.client ↔ Clean s (.send c fullName request outcome) := by
  obtain ⟨_, _, ⟨buffer, rfl, accepts, same, _⟩ | ⟨fails, _, channel, code, same, _⟩⟩ :=
    s.step_send next c fullName request outcome emitted fired
  · have kept : ((s.client.outstanding c).memory c).zerror = (s.client.memory c).zerror := by
      simp [Client.outstanding]
    rw [same]
    constructor
    · intro later _
      have own := later c
      rw [Client.outstanding_rcode, kept] at own
      by_contra carries
      cases own.mpr carries
    · intro clean other
      by_cases own : other = c
      · subst other
        rw [Client.outstanding_rcode, kept, clean ⟨⟨buffer, rfl⟩, accepts⟩]
        simp
      · rw [Client.outstanding_other _ _ _ own]
        exact agree other
  · refine iff_of_true (fun other => ?_) fun succeeds => absurd succeeds fails
    by_cases own : other = c
    · subst other
      have carries := failed_send_code fullName s.client c request outcome fails
      simp only [Session.step] at fired
      split at fired
      · cases fired
      · obtain ⟨rfl, _⟩ := Prod.mk.inj (Option.some.inj fired)
        refine iff_of_true ?_ carries
        rw [same, Client.fail_rcode]
    · rw [same, Client.fail_other _ _ _ _ own]
      exact agree other

theorem agree_tick {s next : Session} {t : Tick} {emitted : List Event} (held : Held s.client)
    (agree : Agree s.client) (fired : s.step (.tick t) = some (next, emitted)) :
    Agree next.client := by
  obtain ⟨_, _, _, ⟨same, _⟩ | ⟨_, _, _, ⟨id, c, _, _, entry, same⟩ | ⟨_, same⟩⟩⟩ :=
    s.step_tick next t emitted fired
  · exact same ▸ agree
  · rw [same]
    intro other
    by_cases own : other = c
    · -- the controller was waiting, so it had no error before the reply either
      subst other
      have clean : (s.client.memory c).zerror.ecode = .success := by
        by_contra carries
        have error := (agree c).mpr carries
        rw [held.working id c entry] at error
        cases error
      simp [clean]
    · rw [Client.ready_other _ _ _ _ _ own]
      exact agree other
  · exact same ▸ agree

/-- What one step does to the agreement of status and error. -/
theorem agree_step {s next : Session} {input : Input} {emitted : List Event}
    (held : Held s.client) (agree : Agree s.client)
    (fired : s.step input = some (next, emitted)) : Agree next.client ↔ Clean s input := by
  cases input with
  | send c fullName request outcome => exact agree_send agree fired
  | recv c timeout start =>
    obtain ⟨_, rfl, _⟩ := s.step_recv next c timeout start emitted fired
    exact iff_of_true agree trivial
  | tick t => exact iff_of_true (agree_tick held agree fired) trivial

theorem idle_of_unworked {s : Session} {input : Input} (held : Held s.client)
    (unworked : Unworked s input) : Idle s input := by
  cases input with
  | send c => exact held.not_refers unworked
  | _ => trivial

/-- Status and error agree between all calls of a run exactly when no send of the run
succeeds on a controller that carries the error of an earlier one. -/
theorem status_agrees_iff :
    Path (Reaching (fun s => s.call = none → Agree s.client)
      (Meeting Unworked (Fires Session.step))) {} inputs events s ↔
    Path (Meeting (fun s input => Unworked s input ∧ Clean s input)
      (Fires Session.step)) {} inputs events s := by
  rw [← Path.meeting_meeting]
  apply Path.reaching_iff_meeting fun s => Held s.client ∧ Agree s.client
  · rintro s input emitted next ⟨held, agree⟩ clean ⟨unworked, fired⟩
    exact ⟨held_step s next input emitted held (idle_of_unworked held unworked) fired,
      (agree_step held agree fired).mpr clean⟩
  · rintro s input emitted next ⟨held, agree⟩ ⟨_, fired⟩
    refine ⟨fun between => (agree_step held agree fired).mp ?_,
      fun clean _ => (agree_step held agree fired).mpr clean⟩
    cases input with
    | send c fullName request outcome =>
      exact between (s.step_send next c fullName request outcome emitted fired).2.1
    | recv => exact (agree_step held agree fired).mpr trivial
    | tick => exact (agree_step held agree fired).mpr trivial
  · exact ⟨⟨by simp, by simp⟩, fun c => by simp⟩

/-- A send the socket does not take, and one it takes, on the same controller. -/
def retried : List Input :=
  [.send 0 (ascii "m") (.bytes []) fun _ => .threw, .send 0 (ascii "m") (.bytes []) acceptAll,
    .recv 0 100 0, .tick ⟨0, .readable, .message [[], ascii "2", ascii "0", ascii "ok"]⟩,
    .tick ⟨0, .readable, .empty⟩, .tick ⟨0, .readable, .empty⟩]

/-- The reply to the second request arrives, and the controller still carries the error
of the first. -/
theorem retried_keeps_error : ¬∀ inputs events s,
    Path (Meeting Unworked (Fires Session.step)) {} inputs events s → s.call = none →
    Agree s.client := by
  intro claim
  have run : ∃ events s, execute (restrict Unworked Session.step) retried {} = some (s, events) ∧
      s.call = none ∧ (s.client.memory 0).rcode = .ready ∧
      (s.client.memory 0).zerror.ecode = .connectionError := ⟨_, _, rfl, rfl, rfl, rfl⟩
  obtain ⟨events, s, run, idle, ready, carries⟩ := run
  have error := (claim _ events s (restrict_path run) idle 0).mpr (by rw [carries]; decide)
  rw [ready] at error
  cases error

end Zqrpc
