import Zqrpc.SuccessReplies

/-! The status a call of `ZRecvMethod` leaves. The loop has three ways out that return,
and only one of them looks at the controller. -/
namespace Zqrpc

open Numeral Steps

/-- A four-frame reply, with any code, to an outstanding request of `c`. -/
def IsReplyTo (c : Ptr) (s : Client) (frames : FramesT) : Prop :=
  frames.length = 4 ∧
    ((lexicalCast (frames.getD 1 [])).bind fun id => s.channel.replylist.lookup id) = some c

instance (c : Ptr) (s : Client) (frames : FramesT) : Decidable (IsReplyTo c s frames) :=
  inferInstanceAs (Decidable (_ ∧ _))

/-- A call that sends with a controller starts a wait, and a reply ends it. -/
def hear (c : Ptr) (s : Client) : Event → Option Bool
  | .sent c' _ | .failed c' => if c' = c then some false else none
  | .consumed frames => if IsReplyTo c s frames then some true else none
  | _ => none

/-- A reply was read for the last request of `c`. -/
def Heard (c : Ptr) (inputs : List Input) : Prop := latest (hear c) inputs = some true

/-- How `ZSendMethod` ended. -/
def sendEnd (c : Ptr) (_ : Client) : Event → Option Bool
  | .sent c' _ => if c' = c then some true else none
  | .failed c' => if c' = c then some false else none
  | _ => none

/-- The last `ZSendMethod` call on `c` succeeded. -/
def LastSent (c : Ptr) (inputs : List Input) : Prop := latest (sendEnd c) inputs = some true

/-- The call leaves the controller with the status of what came of its request. -/
structure Final (inputs : List Input) (next : Session) (c : Ptr) : Prop where
  status : (next.client.memory c).rcode = .ready ∨ (next.client.memory c).rcode = .error ∨
    (next.client.memory c).rcode = .timedout
  timedout : (next.client.memory c).rcode = .timedout ↔ ¬Heard c inputs
  notWorking : (next.client.memory c).rcode ≠ .working

theorem isReplyTo_of_answers {c : Ptr} {s : Client} {frames : FramesT} {id : Nat}
    (answers : Answers id frames) (entry : s.channel.replylist.lookup id = some c) :
    IsReplyTo c s frames :=
  ⟨answers.1, Option.bind_eq_some_iff.mpr ⟨id, answers.2.1, entry⟩⟩

theorem hear_around (c : Ptr) (s : Client) (e : Event) (around : e.Around) : hear c s e = none := by
  cases e <;> first | rfl | exact around.elim

theorem sendEnd_around (c : Ptr) (s : Client) (e : Event) (around : e.Around) :
    sendEnd c s e = none := by
  cases e <;> first | rfl | exact around.elim

/-- What a step does to the status of a controller, with what is noted of the step. -/
inductive Affects (c : Ptr) (s next : Session) (emitted : List Event) : Prop where
  | sends (rcode : (next.client.memory c).rcode ≠ .ready)
      (noted : emitted.filterMap (sendEnd c s.client) =
        [decide ((next.client.memory c).rcode = .working)])
  | reads (rcode : (next.client.memory c).rcode = .ready)
      (noted : emitted.filterMap (sendEnd c s.client) = [])
      (heard : emitted.filterMap (hear c s.client) = [true])
  | keeps (rcode : (next.client.memory c).rcode = (s.client.memory c).rcode)
      (noted : emitted.filterMap (sendEnd c s.client) = [])
      (heard : ∀ reply ∈ emitted.filterMap (hear c s.client), reply = true)

theorem step_affects (s next : Session) (input : Input) (emitted : List Event) (c : Ptr)
    (fired : s.step input = some (next, emitted)) : Affects c s next emitted := by
  cases input with
  | send c' fullName request outcome =>
    obtain ⟨_, _, ⟨buffer, rfl, accepts, same, rfl⟩ | ⟨_, rfl, channel, code, same, _, _⟩⟩ :=
      s.step_send next c' fullName request outcome emitted fired
    all_goals by_cases own : c' = c
    · subst c'
      exact .sends (by simp [same]) (by simp [same, sendEnd, List.filterMap_cons])
    · exact .keeps (by simp [same, Ne.symm own]) (by simp [sendEnd, own]) (by simp [hear, own])
    · subst c'
      exact .sends (by simp [same]) (by simp [same, sendEnd])
    · refine .keeps ?_ (by simp [sendEnd, own]) (by simp [hear, own])
      rw [same, Client.fail_other _ _ _ _ (Ne.symm own)]
  | recv c' timeout start =>
    obtain ⟨_, rfl, rfl⟩ := s.step_recv next c' timeout start emitted fired
    exact .keeps rfl rfl (by simp)
  | tick t =>
    obtain ⟨before, after, around, ⟨same, rfl⟩ | ⟨frames, _, rfl, result⟩⟩ :=
      s.step_tick next t emitted fired
    · refine .keeps (by rw [same]) (filterMap_around (sendEnd_around c s.client) around) ?_
      simp [filterMap_around (hear_around c s.client) around]
    · have heard := filterMap_consumed (hear_around c s.client) frames around
      have noted := filterMap_consumed (sendEnd_around c s.client) frames around
      have true' : ∀ reply ∈ (hear c s.client (.consumed frames)).toList, reply = true := by
        simp [hear]
      rcases result with ⟨id, c', answers, _, entry, same⟩ | ⟨_, same⟩
      · by_cases own : c' = c
        · subst c'
          refine .reads (by simp [same]) noted ?_
          rw [heard, hear, if_pos (isReplyTo_of_answers answers entry)]
          rfl
        · exact .keeps (by simp [same, Ne.symm own]) noted (by rw [heard]; exact true')
      · exact .keeps (by rw [same]) noted (by rw [heard]; exact true')

/-- A controller becomes ready by a reply only, and while its request was sent it is
either ready or still waits. -/
theorem run_status (run : Path (Fires Session.step) {} inputs events s) (c : Ptr) :
    ((s.client.memory c).rcode = .ready → Heard c inputs) ∧
    (LastSent c inputs →
      (s.client.memory c).rcode = .working ∨ (s.client.memory c).rcode = .ready) := by
  induction run with
  | nil => exact ⟨fun ready => (by cases ready), fun sent => (by cases sent)⟩
  | @snoc inputs events s input emitted next earlier last ih =>
    obtain ⟨replied, status⟩ := ih
    unfold Heard LastSent at *
    rw [latest_snoc (hear c) earlier last, latest_snoc (sendEnd c) earlier last]
    cases step_affects s next input emitted c last with
    | sends rcode noted =>
      refine ⟨fun ready => absurd ready rcode, fun sent => ?_⟩
      rw [noted] at sent
      exact .inl (by simpa using sent)
    | reads rcode noted heard =>
      refine ⟨fun _ => by simp [heard], fun _ => .inr rcode⟩
    | keeps rcode noted heard =>
      rw [rcode, noted]
      refine ⟨fun ready => ?_, fun sent => status (by simpa using sent)⟩
      cases final : (emitted.filterMap (hear c s.client)).getLast? with
      | none => exact replied ready
      | some reply => rw [heard reply (List.mem_of_getLast? final), Option.some_or]

end Zqrpc
