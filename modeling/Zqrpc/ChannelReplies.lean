import Zqrpc.ChannelRelease

/-! What a call returns. A controller that is ready holds the first reply to its own
last request, whatever the peer sends and in whatever order. -/
namespace Zqrpc

open Numeral Steps

/-- The payload is that of the first message, since the last request of `c` was left
outstanding, that answers this request, and no other request has its id. -/
def FreshReply (events : List Event) (c : Ptr) (payload : Bytes) : Prop :=
  ∃ id messages m, history c events = some (id, messages) ∧
    messages.find? (fun m => Answers id m) = some m ∧ payload = m.getD 3 [] ∧
    (sentIds events).count id = 1

theorem history_sent (events : List Event) (c : Ptr) (id : Nat) (messages : List FramesT)
    (past : history c events = some (id, messages)) : .sent c id ∈ events := by
  induction events using List.reverseRecOn generalizing messages with
  | nil => simp [history] at past
  | append_singleton events e ih =>
    rw [history_append, List.foldl_cons, List.foldl_nil] at past
    apply List.mem_append.mpr
    cases e with
    | sent c' id' =>
      by_cases own : c' = c
      · simp only [note, if_pos own, Option.some.injEq, Prod.mk.injEq] at past
        exact .inr (by simp [own, past.1])
      · exact .inl (ih messages (by simpa [note, own] using past))
    | consumed frames =>
      obtain ⟨⟨id', messages'⟩, past', same⟩ := Option.map_eq_some_iff.mp past
      obtain rfl := (Prod.mk.inj same).1
      exact .inl (ih messages' past')
    | _ => exact .inl (ih messages past)

theorem history_consumed (events : List Event) (c : Ptr) (id : Nat) (messages : List FramesT)
    (past : history c events = some (id, messages)) : ∀ m ∈ messages, .consumed m ∈ events := by
  induction events using List.reverseRecOn generalizing messages with
  | nil => simp [history] at past
  | append_singleton events e ih =>
    rw [history_append, List.foldl_cons, List.foldl_nil] at past
    intro m member
    apply List.mem_append.mpr
    cases e with
    | sent c' id' =>
      by_cases own : c' = c
      · obtain ⟨_, rfl⟩ : id' = id ∧ [] = messages := by simpa [note, own] using past
        cases member
      · exact .inl (ih messages (by simpa [note, own] using past) m member)
    | consumed frames =>
      obtain ⟨⟨id', messages'⟩, past', same⟩ := Option.map_eq_some_iff.mp past
      obtain ⟨rfl, rfl⟩ := Prod.mk.inj same
      rcases List.mem_append.mp member with old | new
      · exact .inl (ih messages' past' m old)
      · exact .inr (by rw [List.mem_singleton.mp new]; exact List.mem_singleton_self _)
    | _ => exact .inl (ih messages past m member)

theorem mem_sentIds {id : Nat} (member : Event.sent c id ∈ events) : id ∈ sentIds events :=
  List.mem_filterMap.mpr ⟨_, member, rfl⟩

/-- In a run that sends no request over an outstanding one of the same controller,
what a call returns is the reply to the controller's last request. -/
theorem returned_reply_fresh
    (run : Path (Meeting Unburdened (Fires Session.step)) {} inputs
      (events ++ [.returned c (some payload)]) s) : FreshReply events c payload := by
  have fresh : ∀ inputs all s, Path (Meeting Unburdened (Fires Session.step)) {} inputs all s →
      ∀ events c payload, all = events ++ [Event.returned c (some payload)] →
        FreshReply events c payload := by
    intro inputs all s run
    induction run with
    | nil => simp
    | @snoc _ before s _ emitted next earlier last ih =>
      intro events c payload ends
      rcases List.eq_nil_or_concat emitted with rfl | ⟨front, e, rfl⟩
      · exact ih events c payload (by simpa using ends)
      · have tracks := tracks_step before s next _ _ (run_tracks earlier) last.1 last.2
        rw [List.concat_eq_append, ← List.append_assoc] at ends tracks
        obtain ⟨rfl, rfl⟩ := List.append_singleton_inj.mp ends
        obtain ⟨call, t, _, _, _, rfl, ready, _⟩ :=
          s.step_returned next _ _ c (some payload) last.2 (by simp)
        have past : history c (before ++ front ++ [.returned c (some payload)]) =
            history c (before ++ front) := by
          rw [history_append _ (before ++ front)]
          rfl
        have agrees := tracks.agrees c
        rw [past] at agrees
        unfold parsed at ready
        split at ready
        · rename_i isReady
          cases recorded : history c (before ++ front) with
          | none =>
            rw [recorded] at agrees
            exact absurd isReady agrees.2
          | some past' =>
            obtain ⟨id, messages⟩ := past'
            rw [recorded] at agrees
            rcases agrees with ⟨_, _, waiting, _⟩ | ⟨_, holds⟩
            · exact absurd isReady waiting
            · obtain ⟨m, found, payloadIs⟩ := holds isReady
              refine ⟨id, messages, m, recorded, found, ?_, ?_⟩
              · exact (Option.some.inj ready).trans payloadIs
              · apply List.count_eq_one_of_mem
                · have distinct := tracks.distinct
                  rw [sentIds_append] at distinct
                  exact (List.nodup_append.mp distinct).1
                · exact mem_sentIds (history_sent _ c id messages recorded)
        · cases ready
  exact fresh _ _ _ run events c payload rfl

theorem returned_reply_fresh_answered : ∃ events s,
    Path (Meeting Unburdened (Fires Session.step)) {} answered
      (events ++ [.returned 0 (some (ascii "ok"))]) s ∧ FreshReply events 0 (ascii "ok") := by
  have run : ∃ s, execute (restrict Unburdened Session.step) answered {} = some (s,
      [.wire [[], ascii "1", ascii "m", []], .sent 0 1, .polled 100,
        .consumed [[], ascii "1", ascii "0", ascii "ok"]] ++
        [.returned 0 (some (ascii "ok"))]) := ⟨_, rfl⟩
  obtain ⟨s, run⟩ := run
  exact ⟨_, s, restrict_path run, returned_reply_fresh (restrict_path run)⟩

/-- Each controller is sent again only after a call for it has returned; `busy` are
the controllers whose last request no call has returned for. -/
def ReusedWhenReturned (busy : List Ptr) : List Event → Prop
  | [] => True
  | .sent c _ :: events => c ∉ busy ∧ ReusedWhenReturned (c :: busy) events
  | .returned c _ :: events => ReusedWhenReturned (busy.filter (· ≠ c)) events
  | _ :: events => ReusedWhenReturned busy events

/-- Controller 0 times out, is sent again, and receives the late reply to its first
request as the reply to its second. -/
theorem stale_reply_returned : ¬∀ inputs events c payload s,
    Path (Fires Session.step) {} inputs (events ++ [.returned c (some payload)]) s →
    ReusedWhenReturned [] events → FreshReply events c payload := by
  intro claim
  have run : ∃ s, execute Session.step
      [.send 0 (ascii "m") (.bytes []) acceptAll, .recv 0 100 0, .tick ⟨0, .silent, .empty⟩,
        .send 0 (ascii "m") (.bytes []) acceptAll, .recv 0 100 0,
        .tick ⟨0, .readable, .message [[], ascii "1", ascii "0", ascii "late"]⟩,
        .tick ⟨0, .readable, .empty⟩, .tick ⟨0, .readable, .empty⟩] {} =
      some (s, [.wire [[], ascii "1", ascii "m", []], .sent 0 1, .polled 100, .returned 0 none,
        .wire [[], ascii "2", ascii "m", []], .sent 0 2, .polled 100,
        .consumed [[], ascii "1", ascii "0", ascii "late"]] ++
        [.returned 0 (some (ascii "late"))]) := ⟨_, rfl⟩
  obtain ⟨s, run⟩ := run
  obtain ⟨id, messages, m, past, found, _⟩ := claim _ _ _ _ _ (execute_path run)
    (by simp [ReusedWhenReturned])
  have recorded : some (2, [[[], ascii "1", ascii "0", ascii "late"]]) = some (id, messages) := past
  obtain ⟨rfl, rfl⟩ := Prod.mk.inj (Option.some.inj recorded)
  have none : [[[], ascii "1", ascii "0", ascii "late"]].find? (fun m => Answers 2 m) = none := rfl
  rw [none] at found
  cases found

def Input.sender : Input → Option Ptr
  | .send c .. => some c
  | _ => none

/-- The controllers passed to `ZSendMethod`, in the order of the calls. -/
def senders (inputs : List Input) : List Ptr := inputs.filterMap Input.sender

theorem senders_append (inputs more : List Input) :
    senders (inputs ++ more) = senders inputs ++ senders more := by
  simp [senders, List.filterMap_append]

theorem sender_of_sendsOn {c : Ptr} {input : Input} (sends : input.SendsOn c) :
    senders [input] = [c] := by
  cases input with
  | send c' => exact congrArg (fun c => [c]) sends
  | _ => exact sends.elim

theorem step_refers (s next : Session) (input : Input) (emitted : List Event) (c : Ptr)
    (fired : s.step input = some (next, emitted)) (refers : next.client.Refers c) :
    s.client.Refers c ∨ input.SendsOn c := by
  by_contra neither
  rw [not_or] at neither
  exact (step_free s next input emitted c neither.1 neither.2 fired).1 refers

theorem step_nextreply (s next : Session) (input : Input) (emitted : List Event)
    (fired : s.step input = some (next, emitted)) :
    next.client.channel.nextreply ≤ s.client.channel.nextreply + (senders [input]).length := by
  rcases step_effect s next input emitted fired with same | ⟨c, sends, _⟩ |
    ⟨id, c, payload, _, same⟩
  · rw [same]
    exact Nat.le_add_right _ _
  · have below : s.client.nextid ≤ s.client.channel.nextreply + 1 := Nat.mod_le _ _
    rw [sender_of_sendsOn sends]
    cases input with
    | send c' fullName request outcome =>
      obtain ⟨_, _, ⟨_, _, _, same, _⟩ | ⟨_, _, channel, code, same, _, counter⟩⟩ :=
        s.step_send next c' fullName request outcome emitted fired
      · rw [same]
        exact below
      · rw [same, Client.fail_channel]
        rcases counter with h | h <;> simp only [h, List.length_singleton] <;> omega
    | _ => exact sends.elim
  · rw [same]
    exact Nat.le_add_right _ _

/-- When every controller is sent once and the counter does not come round, no send
finds an entry for its controller. -/
theorem once_unburdened (run : Path (Fires Session.step) {} inputs events s)
    (once : (senders inputs).Nodup) (fewer : (senders inputs).length < sizeMod) :
    Path (Meeting (fun s input => Unburdened s input ∧ Idle s input) (Fires Session.step))
      {} inputs events s ∧
    (∀ c, s.client.Refers c → c ∈ senders inputs) ∧
    s.client.channel.nextreply ≤ (senders inputs).length := by
  induction run with
  | nil => exact ⟨.nil, by simp [Client.Refers], by simp⟩
  | @snoc inputs events s input emitted next _ last ih =>
    rw [senders_append] at once fewer
    rw [List.length_append] at fewer
    obtain ⟨earlier, known, counted⟩ := ih (List.nodup_append.mp once).1 (by omega)
    refine ⟨.snoc earlier ⟨?_, last⟩, fun c refers => ?_, ?_⟩
    · cases input with
      | send c fullName request outcome =>
        have free : ¬s.client.Refers c := fun refers =>
          (List.nodup_append.mp once).2.2 c (known c refers) c (by simp [senders, Input.sender]) rfl
        have fits : (senders inputs).length + 1 < sizeMod := fewer
        exact ⟨⟨by omega, fun _ => free⟩, free⟩
      | _ => exact ⟨trivial, trivial⟩
    · rw [senders_append]
      rcases step_refers s next input emitted c last refers with old | sends
      · exact List.mem_append_left _ (known c old)
      · exact List.mem_append_right _ (by simp [sender_of_sendsOn sends])
    · rw [senders_append, List.length_append]
      have := step_nextreply s next input emitted last
      omega

/-- Reply matching against an arbitrary peer, for controllers sent once. -/
theorem reply_matching (run : Path (Fires Session.step) {} inputs events s)
    (once : (senders inputs).Nodup) (fewer : (senders inputs).length < 2 ^ 64) :
    (∀ c, (s.client.memory c).rcode = .ready → ∃ id messages m,
      .sent c id ∈ events ∧ history c events = some (id, messages) ∧
      messages.find? (fun m => Answers id m) = some m ∧
      (s.client.memory c).payload = m.getD 3 []) ∧
    (∀ c t next emitted, (s.client.memory c).rcode = .ready ∨ (s.client.memory c).rcode = .error →
      s.step (.tick t) = some (next, emitted) → next.client.memory c = s.client.memory c) ∧
    (∀ c t next emitted frames, s.step (.tick t) = some (next, emitted) →
      .consumed frames ∈ emitted → (∀ id, .sent c id ∈ events → ¬Reads id frames) →
      next.client.memory c = s.client.memory c) := by
  obtain ⟨meets, _, _⟩ := once_unburdened run once fewer
  have tracks : Tracks events s := run_tracks (meets.mono fun _ _ _ _ h => ⟨h.1.1, h.2⟩)
  have held : Held s.client := run_held (⟨by simp, by simp⟩ : Held ({} : Session).client)
    (meets.mono fun _ _ _ _ h => ⟨h.1.2, h.2⟩)
  refine ⟨fun c ready => ?_, fun c t next emitted settled fired => ?_,
    fun c t next emitted frames fired member other => ?_⟩
  · have agrees := tracks.agrees c
    cases past : history c events with
    | none =>
      rw [past] at agrees
      exact absurd ready agrees.2
    | some past' =>
      obtain ⟨id, messages⟩ := past'
      rw [past] at agrees
      rcases agrees with ⟨_, _, waiting, _⟩ | ⟨_, holds⟩
      · exact absurd ready waiting
      · obtain ⟨m, found, payload⟩ := holds ready
        exact ⟨id, messages, m, history_sent _ _ _ _ past, rfl, found, payload⟩
  · have done : (s.client.memory c).rcode ≠ .working := by
      rcases settled with h | h <;> simp [h]
    exact (step_free s next _ emitted c (held.not_refers done) (by simp [Input.SendsOn]) fired).2
  · have taken := (s.step_consumed next t emitted frames fired member).1
    obtain ⟨_, _, _, ⟨same, _⟩ | ⟨frames', taken', _, ⟨id, c', answers, _, entry, same⟩ |
      ⟨_, same⟩⟩⟩ := s.step_tick next t emitted fired
    · rw [same]
    · obtain rfl : frames = frames' := RecvResult.message.inj (taken.symm.trans taken')
      rw [same]
      apply Client.ready_other
      rintro rfl
      have agrees := tracks.agrees c
      -- an entry for `c` is the one its last request made
      cases past : history c events with
      | none =>
        rw [past] at agrees
        exact agrees.1 ⟨id, entry⟩
      | some past' =>
        obtain ⟨id', messages⟩ := past'
        rw [past] at agrees
        rcases agrees with ⟨_, only, _⟩ | ⟨free, _⟩
        · obtain rfl := only id entry
          exact other id (history_sent _ _ _ _ past) answers.2.1
        · exact free ⟨id, entry⟩
    · rw [same]

theorem reply_matching_answered : ∃ events s,
    Path (Fires Session.step) {} answered events s ∧
    ∃ id messages m, .sent 0 id ∈ events ∧ history 0 events = some (id, messages) ∧
      messages.find? (fun m => Answers id m) = some m ∧
      (s.client.memory 0).payload = m.getD 3 [] := by
  have run : ∃ events s, execute Session.step answered {} = some (s, events) ∧
      (s.client.memory 0).rcode = .ready := ⟨_, _, rfl, rfl⟩
  obtain ⟨events, s, run, ready⟩ := run
  exact ⟨events, s, execute_path run,
    (reply_matching (execute_path run) (by decide) (by decide)).1 0 ready⟩

end Zqrpc
