import Zqrpc.ZSocket
import Zqrpc.Path

/-! Framing on one connection: the loop of `Send` on one side, the loops of `BlockingRecv`
and `NonBlockingRecv` on the other, one frame a step in any interleaving. The sending
socket takes every frame. -/
namespace Zqrpc

open Numeral Steps

/-- A frame on the wire, with its more flag. -/
structure Part where
  data : Bytes
  more : Bool
  deriving DecidableEq

structure Connection where
  /-- a `Send` call in its loop: `fleft`, and the frames from the iterator on -/
  sender : Option (Nat × FramesT) := none
  /-- parts of a message that is not complete -/
  held : List Part := []
  /-- parts of complete messages, which `recv` takes -/
  queue : List Part := []
  /-- a receiving call in its loop: whether it passes `ZMQ_DONTWAIT`, and its frames -/
  receiver : Option (Bool × FramesT) := none

/-- A multipart message becomes available as a whole. -/
def Connection.transmit (s : Connection) (part : Part) : Connection :=
  if part.more then { s with held := s.held ++ [part] }
  else { s with held := [], queue := s.queue ++ (s.held ++ [part]) }

inductive FrameInput where
  | send (frames : FramesT)
  /-- one frame of the running `Send` -/
  | put
  | blockingRecv
  | nonBlockingRecv
  /-- one `socket_.recv` of the running call -/
  | recv

inductive FrameEvent where
  | received (frames : FramesT)
  /-- `RetryException` -/
  | retried
  deriving DecidableEq

def Connection.step (s : Connection) : FrameInput → Option (Connection × List FrameEvent)
  | .send frames =>
    match s.sender with
    | some _ => none
    | none =>
      if frames.length = 0 then some (s, [])
      else some ({ s with sender := some (frames.length, frames) }, [])
  | .put =>
    match s.sender with
    | some (fleft, frame :: rest) =>
      let sender := if rest = [] then none else some (fleft - 1, rest)
      some ({ s.transmit ⟨frame, fleft ≠ 1⟩ with sender }, [])
    | _ => none
  | .blockingRecv =>
    match s.receiver with
    | some _ => none
    | none => some ({ s with receiver := some (false, []) }, [])
  | .nonBlockingRecv =>
    match s.receiver with
    | some _ => none
    | none => some ({ s with receiver := some (true, []) }, [])
  | .recv =>
    match s.receiver, s.queue with
    | none, _ => none
    -- with flags 0 the call waits
    | some (false, _), [] => none
    | some (true, _), [] => some ({ s with receiver := none }, [.retried])
    | some (dontwait, frames), part :: queue =>
      let frames := frames ++ [part.data]
      if part.more then some ({ s with queue, receiver := some (dontwait, frames) }, [])
      else some ({ s with queue, receiver := none }, [.received frames])

/-- A message as it is on the wire. -/
def parts : FramesT → List Part
  | [] => []
  | [frame] => [⟨frame, false⟩]
  | frame :: rest => ⟨frame, true⟩ :: parts rest

def opened (frames : FramesT) : List Part := frames.map fun frame => ⟨frame, true⟩

/-- The parts of the message the receiving call is in. -/
def Connection.taken (s : Connection) : List Part :=
  match s.receiver with
  | none => []
  | some (_, frames) => opened frames

/-- The message the `Send` call is in. -/
def Connection.sending (s : Connection) : List FramesT :=
  match s.sender with
  | none => []
  | some (_, rest) => [s.held.map Part.data ++ rest]

def FrameInput.frames : FrameInput → Option FramesT
  | .send frames => if frames = [] then none else some frames
  | _ => none

/-- The non-empty lists passed to `Send`. -/
def sentLists (inputs : List FrameInput) : List FramesT := inputs.filterMap FrameInput.frames

def FrameEvent.frames : FrameEvent → Option FramesT
  | .received frames => some frames
  | .retried => none

def receivedLists (events : List FrameEvent) : List FramesT := events.filterMap FrameEvent.frames

theorem parts_cons (frame : Bytes) {rest : FramesT} (more : rest ≠ []) :
    parts (frame :: rest) = ⟨frame, true⟩ :: parts rest := by
  obtain ⟨next, rest, rfl⟩ := List.exists_cons_of_ne_nil more
  rfl

theorem parts_append (front : FramesT) (frame : Bytes) :
    parts (front ++ [frame]) = opened front ++ [⟨frame, false⟩] := by
  induction front with
  | nil => rfl
  | cons first front ih =>
    rw [List.cons_append, parts_cons first (by simp), ih]
    rfl

theorem opened_append (front : FramesT) (frame : Bytes) :
    opened (front ++ [frame]) = opened front ++ [⟨frame, true⟩] := by
  simp [opened]

/-- The first part without the more flag ends the first message. -/
theorem first_message {front : FramesT} {frame : Bytes} {rest : List Part}
    {waiting : List FramesT} (nonempty : ∀ m ∈ waiting, m ≠ [])
    (same : opened front ++ ⟨frame, false⟩ :: rest = waiting.flatMap parts) :
    ∃ later, waiting = (front ++ [frame]) :: later ∧ rest = later.flatMap parts := by
  cases waiting with
  | nil => simp at same
  | cons m later =>
    refine ⟨later, ?_⟩
    rw [List.flatMap_cons] at same
    have head : m = front ++ [frame] ∧ rest = later.flatMap parts := by
      have full : m ≠ [] := nonempty m List.mem_cons_self
      clear nonempty
      induction front generalizing m with
      | nil =>
        match m with
        | [x] =>
          obtain ⟨first, tail⟩ := List.cons.inj same
          exact ⟨by rw [(Part.mk.inj first).1]; rfl, tail⟩
        | x :: y :: m => cases same
      | cons f front ih =>
        match m with
        | [x] => cases same
        | x :: y :: m =>
          obtain ⟨first, tail⟩ := List.cons.inj same
          obtain ⟨equal, last⟩ := ih (y :: m) tail (by simp)
          exact ⟨by rw [equal, (Part.mk.inj first).1]; rfl, last⟩
    exact ⟨by rw [head.1], head.2⟩

/-- Parts that all have the more flag are not a whole message. -/
theorem no_message {front : FramesT} {waiting : List FramesT} (nonempty : ∀ m ∈ waiting, m ≠ [])
    (same : opened front = waiting.flatMap parts) : waiting = [] := by
  by_contra some
  obtain ⟨m, later, rfl⟩ := List.exists_cons_of_ne_nil some
  obtain ⟨init, frame, rfl⟩ := List.eq_nil_or_concat' m |>.resolve_left (nonempty _ (by simp))
  have member : (⟨frame, false⟩ : Part) ∈ opened front := by
    rw [same, List.flatMap_cons, parts_append]
    simp
  simp [opened] at member

/-- The messages sent are those received, those waiting whole in the queue or already
begun by the receiver, and the one the sender is in. -/
structure Framed (inputs : List FrameInput) (events : List FrameEvent) (s : Connection) :
    Prop where
  counted : ∀ fleft rest, s.sender = some (fleft, rest) → fleft = rest.length ∧ rest ≠ []
  idle : s.sender = none → s.held = []
  begun : ∃ front, s.held = opened front
  whole : ∃ waiting, (∀ m ∈ waiting, m ≠ []) ∧
    s.taken ++ s.queue = waiting.flatMap parts ∧
    sentLists inputs = receivedLists events ++ waiting ++ s.sending

theorem sentLists_append (inputs : List FrameInput) (input : FrameInput) :
    sentLists (inputs ++ [input]) = sentLists inputs ++ input.frames.toList := by
  rw [sentLists, List.filterMap_append]
  cases h : input.frames <;> simp [sentLists, h]

theorem receivedLists_append (events more : List FrameEvent) :
    receivedLists (events ++ more) = receivedLists events ++ receivedLists more := by
  simp [receivedLists, List.filterMap_append]

theorem data_opened (front : FramesT) : (opened front).map Part.data = front := by
  induction front with
  | nil => rfl
  | cons frame front ih => simpa [opened] using ih

theorem framed_send {inputs : List FrameInput} {events emitted : List FrameEvent}
    {s next : Connection} {frames : FramesT} (framed : Framed inputs events s)
    (fired : s.step (.send frames) = some (next, emitted)) :
    Framed (inputs ++ [.send frames]) (events ++ emitted) next := by
  obtain ⟨waiting, nonempty, queued, sent⟩ := framed.whole
  simp only [Connection.step] at fired
  split at fired
  · cases fired
  · rename_i idle
    have nothing : s.sending = [] := by rw [Connection.sending, idle]
    split at fired
    · rename_i empty
      obtain ⟨rfl, rfl⟩ := Prod.mk.inj (Option.some.inj fired)
      rw [List.length_eq_zero_iff.mp empty, List.append_nil]
      refine ⟨framed.counted, framed.idle, framed.begun, waiting, nonempty, queued, ?_⟩
      rw [sentLists_append, sent]
      simp [FrameInput.frames]
    · rename_i full
      obtain ⟨rfl, rfl⟩ := Prod.mk.inj (Option.some.inj fired)
      have listed : frames ≠ [] := fun empty => full (by rw [empty]; rfl)
      rw [List.append_nil]
      refine ⟨?_, by simp, framed.begun, waiting, nonempty, queued, ?_⟩
      · rintro fleft rest same
        obtain ⟨rfl, rfl⟩ := Prod.mk.inj (Option.some.inj same)
        exact ⟨rfl, listed⟩
      · rw [sentLists_append, sent, nothing]
        simp [FrameInput.frames, listed, Connection.sending, framed.idle idle]

theorem framed_put {inputs : List FrameInput} {events emitted : List FrameEvent}
    {s next : Connection} (framed : Framed inputs events s)
    (fired : s.step .put = some (next, emitted)) :
    Framed (inputs ++ [.put]) (events ++ emitted) next := by
  obtain ⟨waiting, nonempty, queued, sent⟩ := framed.whole
  obtain ⟨front, held⟩ := framed.begun
  simp only [Connection.step] at fired
  split at fired
  · rename_i fleft frame rest running
    obtain ⟨rfl, rfl⟩ := Prod.mk.inj (Option.some.inj fired)
    obtain ⟨rfl, _⟩ := framed.counted _ _ running
    have current : s.sending = [front ++ frame :: rest] := by
      rw [Connection.sending, running, held]
      simp [data_opened]
    rw [current] at sent
    rw [List.append_nil]
    by_cases last : rest = []
    · -- the message is complete
      subst last
      refine ⟨by simp, by simp [Connection.transmit], ⟨[], by simp [Connection.transmit, opened]⟩,
        waiting ++ [front ++ [frame]], ?_, ?_, ?_⟩
      · intro m member
        rcases List.mem_append.mp member with old | new
        · exact nonempty m old
        · rw [List.mem_singleton.mp new]
          simp
      · rw [List.flatMap_append, List.flatMap_singleton, parts_append, ← queued, ← held]
        simp [Connection.transmit, Connection.taken]
      · rw [sentLists_append, sent]
        simp [FrameInput.frames, Connection.sending]
    · have flag : (frame :: rest).length ≠ 1 := by simpa using last
      refine ⟨?_, by simp [last], ⟨front ++ [frame], ?_⟩, waiting, nonempty, ?_, ?_⟩
      · intro fleft rest' same
        obtain ⟨rfl, rfl⟩ := Prod.mk.inj (Option.some.inj (by simpa [last] using same))
        exact ⟨rfl, last⟩
      · simp [Connection.transmit, last, held, opened_append]
      · rw [← queued]
        simp [Connection.transmit, last, Connection.taken]
      · rw [sentLists_append, sent]
        simp [FrameInput.frames, Connection.sending, Connection.transmit, last, held, data_opened]
  · cases fired

/-- A receiving call, of either kind, begins with no frames. -/
theorem framed_enter {inputs : List FrameInput} {events : List FrameEvent} {s : Connection}
    (framed : Framed inputs events s) (free : s.receiver = none) (dontwait : Bool)
    {input : FrameInput} (unsent : input.frames = none) :
    Framed (inputs ++ [input]) events { s with receiver := some (dontwait, []) } := by
  obtain ⟨waiting, nonempty, queued, sent⟩ := framed.whole
  refine ⟨framed.counted, framed.idle, framed.begun, waiting, nonempty, ?_, ?_⟩
  · simpa [Connection.taken, free, opened] using queued
  · rw [sentLists_append, sent, unsent]
    simp [Connection.sending]

theorem framed_recv {inputs : List FrameInput} {events emitted : List FrameEvent}
    {s next : Connection} (framed : Framed inputs events s)
    (fired : s.step .recv = some (next, emitted)) :
    Framed (inputs ++ [.recv]) (events ++ emitted) next := by
  obtain ⟨waiting, nonempty, queued, sent⟩ := framed.whole
  have unsent : sentLists (inputs ++ [.recv]) = sentLists inputs := by
    rw [sentLists_append]
    simp [FrameInput.frames]
  simp only [Connection.step] at fired
  split at fired
  · cases fired
  · cases fired
  · -- nothing is lost: an empty queue leaves no frame in the call
    rename_i frames receiving empty
    obtain ⟨rfl, rfl⟩ := Prod.mk.inj (Option.some.inj fired)
    simp only [Connection.taken, receiving, empty, List.append_nil] at queued
    obtain rfl := no_message nonempty queued
    refine ⟨framed.counted, framed.idle, framed.begun, [], by simp, ?_, ?_⟩
    · simp [Connection.taken, empty]
    · rw [unsent, sent, receivedLists_append]
      simp [receivedLists, FrameEvent.frames, Connection.sending]
  · rename_i dontwait frames part queue receiving available
    simp only [Connection.taken, receiving, available] at queued
    obtain ⟨data, more⟩ := part
    cases more with
    | true =>
      obtain ⟨rfl, rfl⟩ := Prod.mk.inj (Option.some.inj fired)
      rw [List.append_nil]
      refine ⟨framed.counted, framed.idle, framed.begun, waiting, nonempty, ?_, ?_⟩
      · rw [← queued]
        simp [Connection.taken, opened_append]
      · rw [unsent, sent]
        simp [Connection.sending]
    | false =>
      obtain ⟨rfl, rfl⟩ := Prod.mk.inj (Option.some.inj fired)
      obtain ⟨later, rfl, rest⟩ := first_message nonempty queued
      refine ⟨framed.counted, framed.idle, framed.begun, later, ?_, ?_, ?_⟩
      · exact fun m member => nonempty m (List.mem_cons_of_mem _ member)
      · rw [rest]
        simp [Connection.taken]
      · rw [unsent, sent, receivedLists_append]
        simp [receivedLists, FrameEvent.frames, Connection.sending]

theorem framed_step {inputs : List FrameInput} {events emitted : List FrameEvent}
    {s next : Connection} {input : FrameInput} (framed : Framed inputs events s)
    (fired : s.step input = some (next, emitted)) :
    Framed (inputs ++ [input]) (events ++ emitted) next := by
  cases input with
  | send frames => exact framed_send framed fired
  | put => exact framed_put framed fired
  | recv => exact framed_recv framed fired
  | blockingRecv =>
    simp only [Connection.step] at fired
    split at fired
    · cases fired
    · rename_i free
      obtain ⟨rfl, rfl⟩ := Prod.mk.inj (Option.some.inj fired)
      rw [List.append_nil]
      exact framed_enter framed free false rfl
  | nonBlockingRecv =>
    simp only [Connection.step] at fired
    split at fired
    · cases fired
    · rename_i free
      obtain ⟨rfl, rfl⟩ := Prod.mk.inj (Option.some.inj fired)
      rw [List.append_nil]
      exact framed_enter framed free true rfl

theorem run_framed (run : Path (Fires Connection.step) {} inputs events s) :
    Framed inputs events s := by
  apply run.invariant Framed
  · exact fun inputs events s input emitted next framed fired => framed_step framed fired
  · exact ⟨by simp, by simp, ⟨[], rfl⟩, [], by simp, rfl, rfl⟩

/-- A receiving call that finds the rest of a message takes it to its end. -/
theorem recv_rest (s : Connection) (dontwait : Bool) (frames m : FramesT) (rest : List Part)
    (nonempty : m ≠ []) : Path (Fires Connection.step)
    { s with receiver := some (dontwait, frames), queue := parts m ++ rest }
    (List.replicate m.length .recv) [.received (frames ++ m)]
    { s with receiver := none, queue := rest } := by
  induction m generalizing frames with
  | nil => exact absurd rfl nonempty
  | cons frame m ih =>
    by_cases last : m = []
    · subst last
      have ends : Connection.step
          { s with receiver := some (dontwait, frames), queue := parts [frame] ++ rest } .recv =
          some ({ s with receiver := none, queue := rest }, [.received (frames ++ [frame])]) := by
        cases dontwait <;> rfl
      exact Path.single ends
    · have goesOn : Connection.step
          { s with receiver := some (dontwait, frames), queue := parts (frame :: m) ++ rest }
          .recv = some ({ s with receiver := some (dontwait, frames ++ [frame])
                                 queue := parts m ++ rest }, []) := by
        rw [parts_cons frame last]
        cases dontwait <;> rfl
      have later := ih (frames ++ [frame]) last
      rw [List.append_assoc, List.singleton_append] at later
      exact Path.cons goesOn later

/-- Both kinds of receiving call take the first message. -/
theorem recv_message (s : Connection) (free : s.receiver = none) (m : FramesT)
    (rest : List Part) (nonempty : m ≠ []) (queued : s.queue = parts m ++ rest)
    (call : FrameInput) (receives : call ∈ [FrameInput.blockingRecv, .nonBlockingRecv]) :
    Path (Fires Connection.step) s (call :: List.replicate m.length .recv) [.received m]
      { s with queue := rest } := by
  have taken (dontwait : Bool) := recv_rest s dontwait [] m rest nonempty
  rw [← queued, ← free] at taken
  rcases List.mem_pair.mp receives with rfl | rfl
  · have enters : Fires Connection.step s .blockingRecv []
        { s with receiver := some (false, []) } := by simp [Fires, Connection.step, free]
    exact Path.cons enters (taken false)
  · have enters : Fires Connection.step s .nonBlockingRecv []
        { s with receiver := some (true, []) } := by simp [Fires, Connection.step, free]
    exact Path.cons enters (taken true)

/-- An empty queue is left as it is by a call that does not wait. -/
theorem recv_nothing (s : Connection) (free : s.receiver = none) (empty : s.queue = []) :
    Path (Fires Connection.step) s [.nonBlockingRecv, .recv] [.retried] s := by
  have enters : Fires Connection.step s .nonBlockingRecv []
      { s with receiver := some (true, []) } := by simp [Fires, Connection.step, free]
  have retries : Fires Connection.step { s with receiver := some (true, []) } .recv
      [.retried] s := by
    obtain ⟨sender, held, queue, receiver⟩ := s
    subst free empty
    rfl
  exact Path.cons enters (Path.single retries)

/-- The rest of a `Send` call completes its message. -/
theorem put_rest (s : Connection) (front rest : FramesT) (nonempty : rest ≠ []) :
    Path (Fires Connection.step)
      { s with sender := some (rest.length, rest), held := opened front }
      (List.replicate rest.length .put) []
      { s with sender := none, held := [], queue := s.queue ++ parts (front ++ rest) } := by
  induction rest generalizing front with
  | nil => exact absurd rfl nonempty
  | cons frame rest ih =>
    by_cases last : rest = []
    · subst last
      have ends : Fires Connection.step
          { s with sender := some (1, [frame]), held := opened front } .put []
          { s with sender := none, held := [], queue := s.queue ++ parts (front ++ [frame]) } := by
        rw [parts_append]
        rfl
      exact Path.single ends
    · have goesOn : Fires Connection.step
          { s with sender := some ((frame :: rest).length, frame :: rest), held := opened front }
          .put []
          { s with sender := some (rest.length, rest), held := opened (front ++ [frame]) } := by
        simp [Fires, Connection.step, Connection.transmit, last, opened_append]
      have later := ih (front ++ [frame]) last
      rw [List.append_assoc, List.singleton_append] at later
      exact Path.cons goesOn later

/-- A `Send` call puts its frames on the wire as one message. -/
theorem send_message (s : Connection) (idle : s.sender = none) (clear : s.held = [])
    (frames : FramesT) : Path (Fires Connection.step) s
    (.send frames :: List.replicate frames.length .put) []
    { s with queue := s.queue ++ parts frames } := by
  obtain ⟨sender, held, queue, receiver⟩ := s
  subst idle clear
  by_cases empty : frames = []
  · subst empty
    have skips : Fires Connection.step ⟨none, [], queue, receiver⟩ (.send []) []
        ⟨none, [], queue, receiver⟩ := rfl
    simpa [parts] using Path.single skips
  · have enters : Fires Connection.step ⟨none, [], queue, receiver⟩ (.send frames) []
        ⟨some (frames.length, frames), [], queue, receiver⟩ := by
      simp [Fires, Connection.step, empty]
    exact Path.cons enters (put_rest ⟨none, [], queue, receiver⟩ [] frames empty)

/-- The loop of `Send` puts on the wire the messages that `send` says leave the socket. -/
theorem send_transmits (s : Connection) (idle : s.sender = none) (clear : s.held = [])
    (frames : FramesT) : Path (Fires Connection.step) s
    (.send frames :: List.replicate frames.length .put) []
    { s with queue := s.queue ++ (send acceptAll frames []).sent.flatMap parts } := by
  by_cases empty : frames = []
  · subst empty
    exact send_message s idle clear []
  · rw [send_accepted acceptAll frames [] empty fun _ _ => rfl]
    simpa using send_message s idle clear frames

/-- The running `Send` completes the message it is in. -/
theorem Framed.sender_completes {inputs : List FrameInput} {events : List FrameEvent}
    {s : Connection} (framed : Framed inputs events s) {fleft : Nat} {rest : FramesT}
    (running : s.sender = some (fleft, rest)) : Path (Fires Connection.step) s
      (List.replicate rest.length .put) [] { s with
        sender := none, held := [], queue := s.queue ++ parts (s.held.map Part.data ++ rest) } := by
  obtain ⟨rfl, nonempty⟩ := framed.counted fleft rest running
  obtain ⟨front, held⟩ := framed.begun
  have completes := put_rest s front rest nonempty
  rw [← held, ← running] at completes
  rw [held, data_opened]
  exact completes

/-- What is received is what was sent, and the rest is still to be received. The next message
comes out whole through either receiving call, the running `Send` completes its message, and
the next `Send` puts all its frames into one. -/
theorem framing_round_trip (run : Path (Fires Connection.step) {} inputs events s) :
    ∃ waiting, (∀ m ∈ waiting, m ≠ []) ∧ s.taken ++ s.queue = waiting.flatMap parts ∧
      sentLists inputs = receivedLists events ++ waiting ++ s.sending ∧
      (s.receiver = none → s.queue ≠ [] → ∃ m later, waiting = m :: later ∧
        ∀ call ∈ [FrameInput.blockingRecv, .nonBlockingRecv],
          Path (Fires Connection.step) s (call :: List.replicate m.length .recv) [.received m]
            { s with queue := later.flatMap parts }) ∧
      (s.receiver = none → s.queue = [] →
        Path (Fires Connection.step) s [.nonBlockingRecv, .recv] [.retried] s) ∧
      (∀ fleft rest, s.sender = some (fleft, rest) → Path (Fires Connection.step) s
        (List.replicate rest.length .put) [] { s with
          sender := none, held := [], queue := s.queue ++ parts (s.held.map Part.data ++ rest) }) ∧
      (s.sender = none → ∀ frames, Path (Fires Connection.step) s
        (.send frames :: List.replicate frames.length .put) []
        { s with queue := s.queue ++ parts frames }) ∧
      (s.sender = none → s.receiver = none → s.queue = [] →
        receivedLists events = sentLists inputs) := by
  have framed := run_framed run
  obtain ⟨waiting, nonempty, queued, sent⟩ := framed.whole
  refine ⟨waiting, nonempty, queued, sent, fun free some => ?_, recv_nothing s,
    fun fleft rest running => framed.sender_completes running,
    fun idle => send_message s idle (framed.idle idle), fun idle free empty => ?_⟩
  · rw [show s.taken = [] by rw [Connection.taken, free], List.nil_append] at queued
    cases waiting with
    | nil => exact absurd queued some
    | cons m later =>
      refine ⟨m, later, rfl, fun call receives => ?_⟩
      exact recv_message s free m _ (nonempty m List.mem_cons_self) queued call receives
  · -- nothing is on its way any more
    rw [show s.taken = [] by rw [Connection.taken, free], empty, List.nil_append] at queued
    obtain rfl := no_message nonempty (show opened [] = _ from queued)
    simp [sent, Connection.sending, idle]

/-- A request, an empty list and two frames of a message of five, received by a call of each
kind. -/
def mixedCalls : List FrameInput :=
  [.send [[], [49], [109], [0, 2]], .put, .blockingRecv, .put, .put, .put, .recv, .recv,
    .send [], .recv, .recv, .nonBlockingRecv, .recv, .send [[3], [], [], [4], [5]], .put, .put]

theorem framing_round_trip_mixed : ∃ events s,
    Path (Fires Connection.step) {} mixedCalls events s ∧
    events = [.received [[], [49], [109], [0, 2]], .retried] ∧
    (∃ waiting, s.taken ++ s.queue = waiting.flatMap parts ∧
      sentLists mixedCalls = receivedLists events ++ waiting ++ s.sending) ∧
    Path (Fires Connection.step) s [.put, .put, .put] [] { s with
      sender := none, held := [], queue := s.queue ++ parts [[3], [], [], [4], [5]] } := by
  have run : ∃ events s, execute Connection.step mixedCalls {} = some (s, events) ∧
      events = [.received [[], [49], [109], [0, 2]], .retried] ∧
      s.held = opened [[3], []] ∧ s.sender = some (3, [[], [4], [5]]) :=
    ⟨_, _, rfl, rfl, rfl, rfl⟩
  obtain ⟨events, s, run, told, held, running⟩ := run
  obtain ⟨waiting, _, queued, sent, _, _, completes, _⟩ := framing_round_trip (execute_path run)
  have last := completes _ _ running
  rw [held] at last
  exact ⟨events, s, execute_path run, told, ⟨waiting, queued, sent⟩, last⟩

end Zqrpc
