import Zqrpc.Framing
import Zqrpc.Pieces

/-! Framing when a frame is not taken and when a receive throws. What a failing `Send` got
rid of stays in the socket and goes out in front of the next message; what a failing
receive has read is gone, and the next call begins inside the message. -/
namespace Zqrpc

open Numeral Steps Pieces

/-- A connection, with the frames that the running `Send` has got rid of. -/
structure LossyConnection where
  connection : Connection := {}
  done : FramesT := []

inductive LossyInput where
  /-- a step of the connection in which nothing fails -/
  | call (input : FrameInput)
  /-- `socket_.send` of the next frame returns `false` or throws -/
  | putFails
  /-- `socket_.recv` throws `zmq::error_t` -/
  | recvThrows

inductive LossyEvent where
  /-- `Send` returned `true` for a list that is not empty -/
  | sent (frames : FramesT)
  /-- an exception left `Send` after these frames -/
  | broke (done : FramesT)
  | received (frames : FramesT)
  /-- `RetryException` -/
  | retried
  /-- an exception left a receiving call that had these frames -/
  | threw (frames : FramesT)
  deriving DecidableEq

@[simp] def FrameEvent.lossy : FrameEvent → LossyEvent
  | .received frames => .received frames
  | .retried => .retried

namespace LossyConnection

def step (s : LossyConnection) : LossyInput → Option (LossyConnection × List LossyEvent)
  | .call .put =>
    match s.connection.sender, s.connection.step .put with
    | some (_, frame :: rest), some (connection, _) =>
      if rest = [] then some (⟨connection, []⟩, [.sent (s.done ++ [frame])])
      else some (⟨connection, s.done ++ [frame]⟩, [])
    | _, _ => none
  | .call input =>
    (s.connection.step input).map fun result =>
      ({ s with connection := result.1 }, result.2.map FrameEvent.lossy)
  | .putFails =>
    match s.connection.sender with
    | none => none
    | some _ => some (⟨{ s.connection with sender := none }, []⟩, [.broke s.done])
  | .recvThrows =>
    match s.connection.receiver with
    | none => none
    | some (_, frames) =>
      some ({ s with connection := { s.connection with receiver := none } }, [.threw frames])

end LossyConnection

/-- What a `Send` call put into the socket, and whether it ended a message. -/
@[simp] def LossyEvent.sendPiece : LossyEvent → Option (FramesT × Bool)
  | .sent frames => some (frames, true)
  | .broke done => some (done, false)
  | _ => none

/-- What a receiving call took out of the socket. -/
@[simp] def LossyEvent.readPiece : LossyEvent → Option (FramesT × Bool)
  | .received frames => some (frames, true)
  | .threw frames => some (frames, false)
  | _ => none

def sendPieces (events : List LossyEvent) : List (FramesT × Bool) :=
  events.filterMap LossyEvent.sendPiece

def readPieces (events : List LossyEvent) : List (FramesT × Bool) :=
  events.filterMap LossyEvent.readPiece

@[simp] theorem sendPieces_append (events more : List LossyEvent) :
    sendPieces (events ++ more) = sendPieces events ++ sendPieces more :=
  List.filterMap_append

@[simp] theorem readPieces_append (events more : List LossyEvent) :
    readPieces (events ++ more) = readPieces events ++ readPieces more :=
  List.filterMap_append

@[simp] theorem sendPieces_singleton (event : LossyEvent) :
    sendPieces [event] = event.sendPiece.toList := by
  cases event <;> rfl

@[simp] theorem readPieces_singleton (event : LossyEvent) :
    readPieces [event] = event.readPiece.toList := by
  cases event <;> rfl

@[simp] theorem sendPieces_lossy (events : List FrameEvent) :
    sendPieces (events.map FrameEvent.lossy) = [] := by
  simp only [sendPieces, List.filterMap_map, List.filterMap_eq_nil_iff]
  rintro (_ | _) _ <;> rfl

theorem broke_mem {events : List LossyEvent} {frames : FramesT} :
    (frames, false) ∈ sendPieces events ↔ .broke frames ∈ events := by
  rw [sendPieces, List.mem_filterMap]
  constructor
  · rintro ⟨event, member, made⟩
    cases event <;> simp at made
    exact made ▸ member
  · exact fun member => ⟨_, member, rfl⟩

theorem threw_mem {events : List LossyEvent} {frames : FramesT} :
    (frames, false) ∈ readPieces events ↔ .threw frames ∈ events := by
  rw [readPieces, List.mem_filterMap]
  constructor
  · rintro ⟨event, member, made⟩
    cases event <;> simp at made
    exact made ▸ member
  · exact fun member => ⟨_, member, rfl⟩

theorem data_parts (m : FramesT) : (parts m).map Part.data = m := by
  rcases List.eq_nil_or_concat' m with rfl | ⟨front, frame, rfl⟩
  · rfl
  · rw [parts_append, List.map_append, data_opened]
    rfl

/-- Both ends have made their messages of the pieces they know: those of the sender are
those of the receiver and the ones on their way. -/
structure Glued (events : List LossyEvent) (s : LossyConnection) : Prop where
  counted : ∀ fleft rest, s.connection.sender = some (fleft, rest) →
    fleft = rest.length ∧ rest ≠ []
  idle : s.connection.sender = none → s.done = []
  held : s.connection.held = opened (remainder [] (sendPieces events) ++ s.done)
  whole : ∃ waiting, (∀ m ∈ waiting, m ≠ []) ∧
    opened (remainder [] (readPieces events)) ++ (s.connection.taken ++ s.connection.queue) =
      waiting.flatMap parts ∧
    glue [] (sendPieces events) = glue [] (readPieces events) ++ waiting

section Steps

variable {events emitted : List LossyEvent} {s next : LossyConnection}

theorem opened_concat (front back : FramesT) :
    opened (front ++ back) = opened front ++ opened back :=
  List.map_append

theorem glued_put (glued : Glued events s)
    (fired : s.step (.call .put) = some (next, emitted)) : Glued (events ++ emitted) next := by
  obtain ⟨waiting, nonempty, queued, same⟩ := glued.whole
  simp only [LossyConnection.step] at fired
  split at fired
  · rename_i fleft frame rest connection frameEvents running put
    obtain ⟨rfl, _⟩ := glued.counted _ _ running
    simp only [Connection.step, running] at put
    obtain ⟨rfl, -⟩ := Prod.mk.inj (Option.some.inj put)
    by_cases last : rest = []
    · subst last
      rw [if_pos rfl] at fired
      obtain ⟨rfl, rfl⟩ := Prod.mk.inj (Option.some.inj fired)
      refine ⟨by simp, by simp, ?_, waiting ++
        [remainder [] (sendPieces events) ++ (s.done ++ [frame])], ?_, ?_, ?_⟩
      · simp [Connection.transmit, remainder_append, remainder, opened]
      · intro m member
        rcases List.mem_append.mp member with old | new
        · exact nonempty m old
        · rw [List.mem_singleton.mp new]
          simp
      · rw [List.flatMap_append, List.flatMap_singleton, ← List.append_assoc (remainder _ _),
          parts_append, ← glued.held, ← queued]
        simp [Connection.transmit, Connection.taken]
      · simp [glue_append, same, glue]
    · rw [if_neg last] at fired
      obtain ⟨rfl, rfl⟩ := Prod.mk.inj (Option.some.inj fired)
      rw [List.append_nil]
      refine ⟨?_, by simp [last], ?_, waiting, nonempty, ?_, same⟩
      · intro fleft rest' running'
        obtain ⟨rfl, rfl⟩ := Prod.mk.inj (Option.some.inj (by simpa [last] using running'))
        exact ⟨rfl, last⟩
      · rw [← List.append_assoc, opened_append, ← glued.held]
        simp [Connection.transmit, last]
      · rw [← queued]
        simp [Connection.transmit, last, Connection.taken]
  · cases fired

theorem glued_putFails (glued : Glued events s) (fired : s.step .putFails = some (next, emitted)) :
    Glued (events ++ emitted) next := by
  obtain ⟨waiting, nonempty, queued, same⟩ := glued.whole
  simp only [LossyConnection.step] at fired
  split at fired
  · cases fired
  · obtain ⟨rfl, rfl⟩ := Prod.mk.inj (Option.some.inj fired)
    refine ⟨by simp, fun _ => rfl, ?_, waiting, nonempty, ?_, ?_⟩
    · simp [glued.held, remainder_append, remainder]
    · simpa [Connection.taken] using queued
    · simp [glue_append, same, glue]

theorem glued_recvThrows (glued : Glued events s)
    (fired : s.step .recvThrows = some (next, emitted)) : Glued (events ++ emitted) next := by
  obtain ⟨waiting, nonempty, queued, same⟩ := glued.whole
  simp only [LossyConnection.step] at fired
  split at fired
  · cases fired
  · rename_i dontwait frames receiving
    obtain ⟨rfl, rfl⟩ := Prod.mk.inj (Option.some.inj fired)
    refine ⟨glued.counted, glued.idle, ?_, waiting, nonempty, ?_, ?_⟩
    · simpa using glued.held
    · rw [← queued, Connection.taken, Connection.taken, receiving]
      simp [remainder_append, remainder, opened_concat]
    · simp [glue_append, same, glue]

theorem glued_recv (glued : Glued events s)
    (fired : s.step (.call .recv) = some (next, emitted)) : Glued (events ++ emitted) next := by
  obtain ⟨waiting, nonempty, queued, same⟩ := glued.whole
  simp only [LossyConnection.step] at fired
  obtain ⟨⟨connection, frameEvents⟩, stepped, result⟩ := Option.map_eq_some_iff.mp fired
  obtain ⟨rfl, rfl⟩ := Prod.mk.inj result
  simp only [Connection.step] at stepped
  split at stepped
  · cases stepped
  · cases stepped
  · -- an empty queue leaves no frame in the call
    rename_i frames receiving empty
    obtain ⟨rfl, rfl⟩ := Prod.mk.inj (Option.some.inj stepped)
    rw [Connection.taken, receiving, empty, List.append_nil] at queued
    change opened _ ++ opened frames = _ at queued
    rw [← opened_concat] at queued
    obtain rfl := no_message nonempty queued
    have nothing : remainder [] (readPieces events) = [] := by
      simpa [opened] using (List.append_eq_nil_iff.mp (List.map_eq_nil_iff.mp queued)).1
    refine ⟨glued.counted, glued.idle, ?_, [], by simp, ?_, ?_⟩
    · simpa using glued.held
    · simp [Connection.taken, empty, nothing, opened]
    · simpa using same
  · rename_i dontwait frames part queue receiving available
    rw [Connection.taken, receiving, available] at queued
    change opened _ ++ (opened frames ++ _) = _ at queued
    obtain ⟨data, more⟩ := part
    cases more with
    | true =>
      obtain ⟨rfl, rfl⟩ := Prod.mk.inj (Option.some.inj stepped)
      refine ⟨glued.counted, glued.idle, by simpa using glued.held, waiting, nonempty, ?_, ?_⟩
      · rw [← queued]
        simp [Connection.taken, opened_append]
      · simpa using same
    | false =>
      obtain ⟨rfl, rfl⟩ := Prod.mk.inj (Option.some.inj stepped)
      rw [← List.append_assoc, ← opened_concat] at queued
      obtain ⟨later, rfl, rest⟩ := first_message nonempty queued
      refine ⟨glued.counted, glued.idle, by simpa using glued.held, later, ?_, ?_, ?_⟩
      · exact fun m member => nonempty m (List.mem_cons_of_mem _ member)
      · rw [rest]
        simp [Connection.taken, remainder_append, remainder, opened]
      · simp [glue_append, same, glue]

/-- A call that begins, of any kind, changes no piece. -/
theorem glued_enter {input : FrameInput} (glued : Glued events s) (put : input ≠ .put)
    (recv : input ≠ .recv) (fired : s.step (.call input) = some (next, emitted)) :
    Glued (events ++ emitted) next := by
  obtain ⟨waiting, nonempty, queued, same⟩ := glued.whole
  have mapped : s.step (.call input) = (s.connection.step input).map fun result =>
      ({ s with connection := result.1 }, result.2.map FrameEvent.lossy) := by
    cases input with
    | put => exact absurd rfl put
    | _ => rfl
  rw [mapped] at fired
  obtain ⟨⟨connection, frameEvents⟩, stepped, result⟩ := Option.map_eq_some_iff.mp fired
  obtain ⟨rfl, rfl⟩ := Prod.mk.inj result
  have receives (free : s.connection.receiver = none) (dontwait : Bool) :
      Glued events { s with connection := { s.connection with receiver := some (dontwait, []) } } :=
    ⟨glued.counted, glued.idle, glued.held, waiting, nonempty,
      by simpa [Connection.taken, free, opened] using queued, same⟩
  cases input with
  | put => exact absurd rfl put
  | recv => exact absurd rfl recv
  | send frames =>
    simp only [Connection.step] at stepped
    split at stepped
    · cases stepped
    · rename_i free
      split at stepped
      · obtain ⟨rfl, rfl⟩ := Prod.mk.inj (Option.some.inj stepped)
        simpa using glued
      · rename_i full
        obtain ⟨rfl, rfl⟩ := Prod.mk.inj (Option.some.inj stepped)
        rw [List.map_nil, List.append_nil]
        refine ⟨?_, by simp, glued.held, waiting, nonempty, queued, same⟩
        rintro fleft rest running
        obtain ⟨rfl, rfl⟩ := Prod.mk.inj (Option.some.inj running)
        exact ⟨rfl, fun empty => full (by rw [empty]; rfl)⟩
  | blockingRecv =>
    simp only [Connection.step] at stepped
    split at stepped
    · cases stepped
    · rename_i free
      obtain ⟨rfl, rfl⟩ := Prod.mk.inj (Option.some.inj stepped)
      simpa using receives free false
  | nonBlockingRecv =>
    simp only [Connection.step] at stepped
    split at stepped
    · cases stepped
    · rename_i free
      obtain ⟨rfl, rfl⟩ := Prod.mk.inj (Option.some.inj stepped)
      simpa using receives free true

theorem glued_step {input : LossyInput} (glued : Glued events s)
    (fired : s.step input = some (next, emitted)) : Glued (events ++ emitted) next := by
  cases input with
  | putFails => exact glued_putFails glued fired
  | recvThrows => exact glued_recvThrows glued fired
  | call input =>
    by_cases put : input = .put
    · subst put
      exact glued_put glued fired
    by_cases recv : input = .recv
    · subst recv
      exact glued_recv glued fired
    exact glued_enter glued put recv fired

end Steps

theorem run_glued (run : Path (Fires LossyConnection.step) {} inputs events s) :
    Glued events s := by
  apply run.invariant fun _ events s => Glued events s
  · exact fun _ _ _ _ _ _ glued fired => glued_step glued fired
  · exact ⟨by simp, by simp, by simp [sendPieces, remainder, opened], [], by simp, rfl, rfl⟩

/-- The second frame of the first message is refused, and the receive of what goes out next
throws after one frame. -/
def brokenCalls : List LossyInput :=
  [.call (.send [[1], [2]]), .call .put, .putFails, .call (.send [[3], [4]]), .call .put,
    .call .put, .call .blockingRecv, .call .recv, .recvThrows, .call .nonBlockingRecv,
    .call .recv, .call .recv]

theorem brokenCalls_run : ∃ events s,
    Path (Fires LossyConnection.step) {} brokenCalls events s ∧
      ends (readPieces events) = [[[3], [4]]] := by
  have run : ∃ events s, execute LossyConnection.step brokenCalls {} = some (s, events) ∧
      ends (readPieces events) = [[[3], [4]]] := ⟨_, _, rfl, rfl⟩
  obtain ⟨events, s, run, received⟩ := run
  exact ⟨events, s, execute_path run, received⟩

theorem data_taken (s : Connection) :
    s.taken.map Part.data = (s.receiver.map Prod.snd).getD [] := by
  unfold Connection.taken
  split
  · rename_i free
    rw [free]
    rfl
  · rename_i receiving
    rw [receiving, data_opened]
    rfl

/-- The frames that calls of `Send` got rid of are those that receiving calls have read and
those the two sockets hold, in their order. -/
theorem frames_kept (run : Path (Fires LossyConnection.step) {} inputs events s) :
    ((sendPieces events).map Prod.fst).flatten ++ s.done =
      ((readPieces events).map Prod.fst).flatten ++ (s.connection.receiver.map Prod.snd).getD [] ++
        (s.connection.queue ++ s.connection.held).map Part.data := by
  obtain ⟨_, _, held, waiting, _, queued, same⟩ := run_glued run
  have sender := flatten_glue [] (sendPieces events)
  have receiver := flatten_glue [] (readPieces events)
  rw [List.nil_append] at sender receiver
  have waits : (waiting.flatMap parts).map Part.data = waiting.flatten := by
    rw [List.map_flatMap, List.flatten_eq_flatMap]
    exact List.flatMap_congr fun m _ => data_parts m
  have between := congrArg (List.map Part.data) queued
  rw [List.map_append, List.map_append, data_opened, data_taken, waits] at between
  rw [← sender, ← receiver, same, List.flatten_append, ← between, List.map_append, held,
    data_opened]
  simp only [List.append_assoc]

theorem frames_kept_broken : ∃ events s,
    Path (Fires LossyConnection.step) {} brokenCalls events s ∧
    ((sendPieces events).map Prod.fst).flatten ++ s.done =
      ((readPieces events).map Prod.fst).flatten ++ (s.connection.receiver.map Prod.snd).getD [] ++
        (s.connection.queue ++ s.connection.held).map Part.data := by
  obtain ⟨events, s, run, _⟩ := brokenCalls_run
  exact ⟨events, s, run, frames_kept run⟩

/-- Both sides cut the same messages: the sender made each of one list that a `Send` call
completed, behind what the calls that failed since the last one got rid of, and the receiver
took each apart in one list that a call returned, behind what failing calls had read. So a
list that is received is the one sent under its number but for such frames in front. -/
theorem received_in_order (run : Path (Fires LossyConnection.step) {} inputs events s) :
    glue [] (readPieces events) <+: glue [] (sendPieces events) ∧
    List.Forall₂ (· <:+ ·) (ends (sendPieces events)) (glue [] (sendPieces events)) ∧
    List.Forall₂ (· <:+ ·) (ends (readPieces events)) (glue [] (readPieces events)) ∧
    List.Forall₂ (fun received sent => received <:+ sent ∨ sent <:+ received)
      (ends (readPieces events))
      ((ends (sendPieces events)).take (ends (readPieces events)).length) := by
  obtain ⟨_, _, _, waiting, _, _, same⟩ := run_glued run
  exact ⟨⟨waiting, same.symm⟩, suffix_glue [] _, suffix_glue [] _, ends_comparable same⟩

theorem received_in_order_broken : ∃ events s,
    Path (Fires LossyConnection.step) {} brokenCalls events s ∧
    sendPieces events = [([[1]], false), ([[3], [4]], true)] ∧
    readPieces events = [([[1]], false), ([[3], [4]], true)] ∧
    glue [] (readPieces events) <+: glue [] (sendPieces events) := by
  have run : ∃ events s, execute LossyConnection.step brokenCalls {} = some (s, events) ∧
      sendPieces events = [([[1]], false), ([[3], [4]], true)] ∧
      readPieces events = [([[1]], false), ([[3], [4]], true)] := ⟨_, _, rfl, rfl, rfl⟩
  obtain ⟨events, s, run, sent, received⟩ := run
  exact ⟨events, s, execute_path run, sent, received, (received_in_order (execute_path run)).1⟩

/-- Calls that fail at their first frame leave no trace. -/
theorem received_prefix (run : Path (Fires LossyConnection.step) {} inputs events s)
    (first : ∀ frames, .broke frames ∈ events ∨ .threw frames ∈ events → frames = []) :
    ends (readPieces events) <+: ends (sendPieces events) := by
  obtain ⟨_, _, _, waiting, _, _, same⟩ := run_glued run
  have sender : ∀ piece ∈ sendPieces events, piece.2 = false → piece.1 = [] := by
    rintro ⟨frames, whole⟩ member rfl
    exact first frames (.inl (broke_mem.mp member))
  have receiver : ∀ piece ∈ readPieces events, piece.2 = false → piece.1 = [] := by
    rintro ⟨frames, whole⟩ member rfl
    exact first frames (.inr (threw_mem.mp member))
  rw [(glue_clean sender).1, (glue_clean receiver).1] at same
  exact ⟨waiting, same.symm⟩

/-- The steps of the loop of `Send` from frame number `i` on. -/
def putInputs (outcome : Nat → SendOutcome) (i : Nat) : FramesT → List LossyInput
  | [] => []
  | _ :: rest =>
    if outcome i = .accepted then .call .put :: putInputs outcome (i + 1) rest else [.putFails]

/-- Whatever the socket does with the frames, the loop leaves behind and puts on the wire
what `sendLoop` says. -/
theorem putInputs_sendLoop (outcome : Nat → SendOutcome) (i : Nat) (rest pending done : FramesT)
    (queue : List Part) (receiver : Option (Bool × FramesT)) (nonempty : rest ≠ []) :
    ∃ events, Path (Fires LossyConnection.step)
      ⟨⟨some (rest.length, rest), opened pending, queue, receiver⟩, done⟩
      (putInputs outcome i rest) events
      ⟨⟨none, opened (sendLoop outcome i rest.length rest pending).pending,
        queue ++ (sendLoop outcome i rest.length rest pending).sent.flatMap parts, receiver⟩,
        []⟩ := by
  induction rest generalizing i pending done with
  | nil => exact absurd rfl nonempty
  | cons frame rest ih =>
    by_cases accepts : outcome i = .accepted
    · by_cases last : rest = []
      · subst last
        refine ⟨[.sent (done ++ [frame])], ?_⟩
        simp only [putInputs, sendLoop, accepts]
        refine Path.single ?_
        simp [Fires, LossyConnection.step, Connection.step, Connection.transmit, parts_append,
          opened]
      · obtain ⟨events, tail⟩ := ih (i + 1) (pending ++ [frame]) (done ++ [frame]) last
        have one : (frame :: rest).length ≠ 1 := by simpa using last
        refine ⟨[] ++ events, ?_⟩
        rw [putInputs, if_pos accepts, sendLoop, accepts, if_neg one]
        refine Path.cons ?_ tail
        simp [Fires, LossyConnection.step, Connection.step, Connection.transmit, last,
          opened_append]
    · refine ⟨[.broke done], ?_⟩
      rw [putInputs, if_neg accepts]
      have stays : sendLoop outcome i (frame :: rest).length (frame :: rest) pending =
          ⟨pending, [], .error (outcome i).exn⟩ := by
        rw [sendLoop]
        cases refusal : outcome i with
        | accepted => exact absurd refusal accepts
        | refused => rfl
        | threw => rfl
      rw [stays]
      refine Path.single ?_
      simp [Fires, LossyConnection.step]

end Zqrpc
