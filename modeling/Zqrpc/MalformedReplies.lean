import Zqrpc.ChannelRuns

/-! Messages `ZRecvMethod` should discard: those that have not four frames, and those
whose second frame is not the id of an outstanding request. -/
namespace Zqrpc

open Numeral Steps

/-- The message is not of the form BLANK ID ERRORCODE DATA with an outstanding id. -/
def Malformed (s : Client) (frames : FramesT) : Prop :=
  frames.length ≠ 4 ∨ ∀ id c, s.channel.replylist.lookup id = some c →
    frames.getD 1 [] ≠ decimal id

/-- One of the three tests of the loop passes the message over. -/
def PassedOver (s : Client) (frames : FramesT) : Prop :=
  frames.length ≠ 4 ∨ ∃ id, Reads id frames ∧
    (id > s.channel.nextreply ∨ s.channel.replylist.lookup id = none)

def Event.unpolled : Event → Bool
  | .polled _ => false
  | _ => true

/-- A step without the events of its poll. -/
def unpolled (step : Option (Session × List Event)) : Option (Session × List Event) :=
  step.map fun (s, events) => (s, events.filter Event.unpolled)

/-- The step has read a message and nothing has come of it: the call goes on, and
whatever the socket does next it does as a poll that finds something would have. -/
structure Discards (s next : Session) (emitted : List Event) : Prop where
  quiet : ∀ c e, .threw c e ∉ emitted
  same : next.client = s.client
  resumes : ∀ t : Tick,
    unpolled (next.step (.tick t)) = unpolled (s.step (.tick { t with poll := .readable }))

theorem deliver_passedOver (frames : FramesT) (s : Client) :
    deliver frames s = .ok s ↔ PassedOver s frames := by
  constructor
  · intro passes
    by_contra held
    unfold PassedOver at held
    push Not at held
    obtain ⟨four, named⟩ := held
    cases read : lexicalCast (frames.getD 1 []) with
    | none =>
      simp [deliver, four, read, -List.getD_eq_getElem?_getD] at passes
    | some id =>
      obtain ⟨known, outstanding⟩ := named id read
      obtain ⟨c, entry⟩ := Option.ne_none_iff_exists'.mp outstanding
      rcases deliver_cases frames s with ⟨id', c', _, _, entry', ok⟩ | ⟨silent, _⟩
      · -- a reply that is stored takes its entry out
        have kept := congrArg (fun s => s.channel.replylist.lookup id')
          (Except.ok.inj (passes.symm.trans ok))
        rw [Client.ready_replylist, Finmap.lookup_erase, entry'] at kept
        cases kept
      · have nonzero : atoi (cStr (frames.getD 2 [])) ≠ 0 := fun zero =>
          silent id c ⟨four, read, zero⟩ known entry
        simp [deliver, four, read, entry, nonzero, Nat.not_lt.mpr known,
          -List.getD_eq_getElem?_getD] at passes
  · rintro (short | ⟨id, read, rogue | unknown⟩)
    · simp [deliver, short]
    · unfold Reads at read
      simp [deliver, read, rogue, -List.getD_eq_getElem?_getD]
    · unfold Reads at read
      simp [deliver, read, unknown, -List.getD_eq_getElem?_getD]

/-- A call gets to the socket only while there is something to get or its own reply is
missing. -/
theorem iteration_reads (call : RecvCall) (tick : Tick) (s : Client) (frames : FramesT)
    (reads : .consumed frames ∈ (iteration call tick s).2.2) :
    call.toget = true ∨ (s.memory call.controller).rcode = .working := by
  by_contra neither
  rw [not_or, Bool.not_eq_true] at neither
  rw [iteration, if_pos (by simp [neither])] at reads
  cases reads

/-- With `toget` set the loop goes on as after a poll that found something. -/
theorem iteration_toget (call : RecvCall) (t : Tick) (s : Client)
    (waits : call.toget = true ∨ (s.memory call.controller).rcode = .working) :
    ∃ polls : List Event, polls.filter Event.unpolled = [] ∧
      iteration call { t with poll := .readable } s =
        ((iteration { call with toget := true } t s).1,
          (iteration { call with toget := true } t s).2.1,
          polls ++ (iteration { call with toget := true } t s).2.2) := by
  by_cases late : t.now - call.start > call.timeout
  · refine ⟨[], rfl, ?_⟩
    rcases waits with h | h <;> simp [iteration, late, h]
  · cases toget : call.toget with
    | true => exact ⟨[], rfl, by simp [iteration, receive, toget, late]⟩
    | false =>
      have working : (s.memory call.controller).rcode = .working := by simpa [toget] using waits
      refine ⟨[.polled (call.timeout - (t.now - call.start))], rfl, ?_⟩
      simp [iteration, receive, toget, late, working]

/-- What follows the reading of a message that changes nothing. -/
theorem step_resumes (s : Client) (call : RecvCall) (t : Tick)
    (waits : call.toget = true ∨ (s.memory call.controller).rcode = .working) :
    unpolled (Session.step ⟨s, some { call with toget := true }⟩ (.tick t)) =
      unpolled (Session.step ⟨s, some call⟩ (.tick { t with poll := .readable })) := by
  obtain ⟨polls, quiet, it⟩ := iteration_toget call t s waits
  simp only [Session.step, it]
  rcases iteration { call with toget := true } t s with ⟨client, next, events⟩
  cases next <;> simp [unpolled, quiet]

/-- A message that is read either lets the call go on with `toget` set or ends it
with an exception. -/
theorem step_reads (s next : Session) (t : Tick) (emitted : List Event) (frames : FramesT)
    (fired : s.step (.tick t) = some (next, emitted)) (reads : .consumed frames ∈ emitted) :
    ∃ call, s.call = some call ∧
      (call.toget = true ∨ (s.client.memory call.controller).rcode = .working) ∧
      ((∃ client, deliver frames s.client = .ok client ∧
          next = ⟨client, some { call with toget := true }⟩ ∧ ∀ c e, .threw c e ∉ emitted) ∨
        ∃ e, deliver frames s.client = .error e ∧ .threw call.controller e ∈ emitted) := by
  simp only [Session.step] at fired
  split at fired
  · cases fired
  · rename_i call calling
    obtain ⟨polls, polled, shape⟩ := iteration_cases call t s.client
    have quiet (e : Event) (other : ∀ wait, e ≠ .polled wait) : e ∉ polls := fun member => by
      obtain ⟨wait, same⟩ := polled e member
      exact other wait same
    have waits (read : .consumed frames ∈ (iteration call t s.client).2.2) :=
      iteration_reads call t s.client frames read
    rcases shape with ⟨way, it⟩ | ⟨frames', _, ⟨client, result, it⟩ | ⟨e, result, it⟩⟩
    · rw [it] at fired
      cases way <;> obtain ⟨rfl, rfl⟩ := Prod.mk.inj (Option.some.inj fired) <;>
        simp [quiet] at reads
    · rw [it] at fired waits
      obtain ⟨rfl, rfl⟩ := Prod.mk.inj (Option.some.inj fired)
      obtain rfl : frames = frames' := by simpa [quiet] using reads
      refine ⟨call, calling, waits (by simp), .inl ⟨client, result, rfl, fun c e => ?_⟩⟩
      simp [quiet]
    · rw [it] at fired waits
      obtain ⟨rfl, rfl⟩ := Prod.mk.inj (Option.some.inj fired)
      obtain rfl : frames = frames' := by simpa [quiet] using reads
      exact ⟨call, calling, waits (by simp), .inr ⟨e, result, by simp⟩⟩

theorem discards_iff (s next : Session) (t : Tick) (emitted : List Event) (frames : FramesT)
    (fired : s.step (.tick t) = some (next, emitted)) (reads : .consumed frames ∈ emitted) :
    Discards s next emitted ↔ PassedOver s.client frames := by
  obtain ⟨call, calling, waits, ⟨client, result, same, quiet⟩ | ⟨e, result, thrown⟩⟩ :=
    step_reads s next t emitted frames fired reads
  · constructor
    · intro discards
      apply (deliver_passedOver frames s.client).mp
      rw [result, ← discards.same, same]
    · intro passed
      obtain rfl := Except.ok.inj
        (result.symm.trans ((deliver_passedOver frames s.client).mpr passed))
      refine ⟨quiet, by rw [same], fun t' => ?_⟩
      obtain ⟨client, _⟩ := s
      subst calling same
      exact step_resumes client call t' waits
  · constructor
    · exact fun discards => absurd thrown (discards.quiet _ e)
    · intro passed
      have ok := (deliver_passedOver frames s.client).mpr passed
      rw [result] at ok
      cases ok

/-- A malformed reply is discarded exactly when it has not four frames, or its second
frame is the text of a number that no outstanding request has as its id. -/
theorem malformed_reply_discarded (s next : Session) (t : Tick) (emitted : List Event)
    (frames : FramesT) (fired : s.step (.tick t) = some (next, emitted))
    (reads : .consumed frames ∈ emitted) :
    Malformed s.client frames → (Discards s next emitted ↔ PassedOver s.client frames) :=
  fun _ => discards_iff s next t emitted frames fired reads

/-- A reply of five frames. -/
theorem malformed_reply_discarded_long : ∃ events s next emitted,
    Path (Fires Session.step) {} asked events s ∧
    s.step (.tick ⟨1, .readable, .message [[], ascii "1", ascii "0", ascii "x", []]⟩) =
      some (next, emitted) ∧
    Discards s next emitted := by
  have run : ∃ events s next emitted, execute Session.step asked {} = some (s, events) ∧
      s.step (.tick ⟨1, .readable, .message [[], ascii "1", ascii "0", ascii "x", []]⟩) =
        some (next, emitted) ∧
      emitted = [.polled 99, .consumed [[], ascii "1", ascii "0", ascii "x", []]] :=
    ⟨_, _, _, _, rfl, rfl, rfl⟩
  obtain ⟨events, s, next, emitted, run, fired, rfl⟩ := run
  have long : [[], ascii "1", ascii "0", ascii "x", []].length ≠ 4 := by decide
  have reads : Event.consumed [[], ascii "1", ascii "0", ascii "x", []] ∈
      [.polled 99, Event.consumed [[], ascii "1", ascii "0", ascii "x", []]] := by simp
  refine ⟨events, s, next, _, execute_path run, fired, ?_⟩
  exact (malformed_reply_discarded s next _ _ _ fired reads (.inl long)).mpr (.inl long)

/-- The second frame of this reply is no number, and `lexical_cast` throws out of the
call. -/
theorem letters_thrown : ¬∀ inputs events s next t emitted frames,
    Path (Fires Session.step) {} inputs events s → s.step (.tick t) = some (next, emitted) →
    .consumed frames ∈ emitted → Malformed s.client frames → Discards s next emitted := by
  intro claim
  have run : ∃ events s next emitted, execute Session.step asked {} = some (s, events) ∧
      s.step (.tick ⟨1, .readable, .message [[], ascii "abc", ascii "0", ascii "x"]⟩) =
        some (next, emitted) ∧
      emitted = [.polled 99, .consumed [[], ascii "abc", ascii "0", ascii "x"],
        .threw 0 .badLexicalCast] ∧
      ∀ id c, s.client.channel.replylist.lookup id = some c → id = 1 := by
    refine ⟨_, _, _, _, rfl, rfl, rfl, fun id c entry => ?_⟩
    by_contra other
    have gone : (Finmap.insert 1 0 (∅ : ReplyListT)).lookup id = none := by
      rw [Finmap.lookup_insert_of_ne _ other, Finmap.lookup_empty]
    exact absurd (entry.symm.trans gone) (by simp)
  obtain ⟨events, s, next, emitted, run, fired, rfl, only⟩ := run
  have malformed : Malformed s.client [[], ascii "abc", ascii "0", ascii "x"] := by
    refine .inr fun id c entry => ?_
    rw [only id c entry]
    decide
  have discards := claim _ events s next _ _ [[], ascii "abc", ascii "0", ascii "x"]
    (execute_path run) fired (by simp) malformed
  exact discards.quiet 0 .badLexicalCast (by simp)

end Zqrpc
