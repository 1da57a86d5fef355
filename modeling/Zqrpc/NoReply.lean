import Zqrpc.WorkerRuns

/-! A worker that does not reply, beside one that does. It makes the same calls in the same
iterations, and cannot be ended by a reply that its socket refuses. -/
namespace Zqrpc

open Numeral

variable {Msg : Type} {pb : Protobuf Msg} {map : RpcMethodMapT}

section Iteration

/-- What leaves an iteration whose inner block ends with a reply, by way of its handler. -/
theorem answerError_sending (round : Round Msg) (w : Worker) (events : List (WorkerEvent Msg))
    {thrown : Option Exn} (sending : ∀ e, thrown = some e → e = .zmqError ∨ ∃ z, e = .zerror z) :
    ∃ (w' : Worker) (more : List FramesT) (thrown' : Option Exn),
      answerError ⟨map, false⟩ round (w, events, thrown) =
        (w', events ++ more.map .sent, thrown') ∧ w'.isrunning = w.isrunning ∧
      (thrown'.filter (fun e => !e.dropped) = none ∨
        thrown'.filter (fun e => !e.dropped) = some (.zerror cannotSend)) := by
  obtain ⟨w', more, thrown', answered, _, running, source⟩ :=
    @answerError_cases _ ⟨map, false⟩ events round w thrown
  refine ⟨w', more, thrown', answered, running, ?_⟩
  cases thrown' with
  | none => exact .inl rfl
  | some e =>
    rcases source e rfl with ⟨threw, silent⟩ | ⟨k, fails, rfl⟩
    · rcases sending e threw with rfl | ⟨z, rfl⟩
      · exact .inl rfl
      · cases silent
    · cases outcome : round.errorReply k with
      | accepted => exact absurd outcome fails
      | refused => exact .inr rfl
      | threw => exact .inl rfl

/-- How a block ends for the worker that does not reply and for the one that does. -/
structure SameEnd (silent plain : Worker × List (WorkerEvent Msg) × Option Exn) : Prop where
  calls : calls silent.2.1 = calls plain.2.1
  messages : messages silent.2.1 = []
  running : silent.1.isrunning = plain.1.isrunning
  escaped : silent.2.2.filter (fun e => !e.dropped) = plain.2.2.filter (fun e => !e.dropped) ∨
    plain.2.2.filter (fun e => !e.dropped) = some (.zerror cannotSend)

/-- Where one worker comes to a reply, the other one leaves the block. -/
theorem sameEnd_sending (round : Round Msg) {v w : Worker} {events : List (WorkerEvent Msg)}
    {earlier : List FramesT} {thrown : Option Exn} (quiet : messages events = [])
    (running : v.isrunning = w.isrunning)
    (sending : ∀ e, thrown = some e → e = .zmqError ∨ ∃ z, e = .zerror z) :
    SameEnd (v, events, none)
      (answerError ⟨map, false⟩ round (w, events ++ earlier.map .sent, thrown)) := by
  have sends (more : List FramesT) : calls (more.map .sent : List (WorkerEvent Msg)) = [] := by
    simp [calls, WorkerEvent.call]
  obtain ⟨w', more, thrown', answered, running', ends⟩ :=
    @answerError_sending _ map round w (events ++ earlier.map .sent) thrown sending
  rw [answered]
  refine ⟨?_, quiet, running.trans running'.symm, ends.imp Eq.symm (fun refused => refused)⟩
  rw [calls_append, calls_append, sends, sends, List.append_nil, List.append_nil]

theorem sameEnd_serve (round : Round Msg) {v w : Worker} (frames : v.frames = w.frames)
    (running : v.isrunning = w.isrunning) :
    SameEnd (answerError ⟨map, true⟩ round (serve pb ⟨map, true⟩ round v))
      (answerError ⟨map, false⟩ round (serve pb ⟨map, false⟩ round w)) := by
  cases stop : isStop w.frames with
  | true =>
    rw [serve_stop pb _ round v (frames ▸ stop), serve_stop pb _ round w stop]
    exact ⟨rfl, rfl, rfl, .inl rfl⟩
  | false =>
    by_cases five : w.frames.length = 5
    · obtain ⟨a, b, id, opcode, buffer, same⟩ := length_five w.frames five
      have quiet := process_messages pb map round.handler opcode buffer
      rcases processed : process pb map round.handler opcode buffer with ⟨events, result⟩
      rw [processed] at quiet
      cases result with
      | error e =>
        rw [serve_error pb ⟨map, true⟩ (frames.trans same) processed,
          serve_error pb ⟨map, false⟩ same processed]
        cases e with
        | zerror e =>
          have ended := @sameEnd_sending _ map round { v with frames := [a, b, id] }
            { w with frames := [a, b, id] } events [] (some (.zerror e)) quiet running
            (fun _ same => .inr ⟨e, (Option.some.inj same).symm⟩)
          rw [List.map_nil, List.append_nil] at ended
          refine ⟨?_, ?_, ended.running, ended.escaped⟩
          · rw [← ended.calls]
            simp [answerError, sendReply]
          · simpa [answerError, sendReply] using quiet
        | _ => exact ⟨rfl, quiet, running, .inl rfl⟩
      | ok data =>
        obtain ⟨pending, sent, thrown, put, _, source⟩ := @sendReply_cases Msg ⟨map, false⟩
          round.reply { w with frames := [a, b, id, ascii "0", data] }
        rw [serve_ok pb ⟨map, true⟩ (frames.trans same) processed,
          serve_ok pb ⟨map, false⟩ same processed, put]
        have ended := @sameEnd_sending _ map round
          { v with frames := [a, b, id, ascii "0", data] }
          { w with frames := [a, b, id, ascii "0", data], pending } events sent thrown quiet running
          fun e threw => by
            obtain ⟨k, fails, rfl⟩ := source e threw
            cases outcome : round.reply k with
            | accepted => exact absurd outcome fails
            | refused => exact .inr ⟨_, rfl⟩
            | threw => exact .inl rfl
        simpa [sendReply, answerError] using ended
    · rw [serve_other pb _ round v (frames ▸ stop) (frames ▸ five),
        serve_other pb _ round w stop five]
      exact ⟨rfl, rfl, running, .inl rfl⟩

/-- Both workers call the same handlers in an iteration and go on together, unless the socket
of the one that replies refuses to send an error. -/
theorem iteration_noreply (round : Round Msg) {v w : Worker} (running : v.isrunning = w.isrunning)
    (escaped : v.escaped = w.escaped) :
    calls (v.iteration pb ⟨map, true⟩ round).2 = calls (w.iteration pb ⟨map, false⟩ round).2 ∧
    messages (v.iteration pb ⟨map, true⟩ round).2 = [] ∧
    (v.iteration pb ⟨map, true⟩ round).1.isrunning =
      (w.iteration pb ⟨map, false⟩ round).1.isrunning ∧
    ((v.iteration pb ⟨map, true⟩ round).1.escaped =
        (w.iteration pb ⟨map, false⟩ round).1.escaped ∨
      (w.iteration pb ⟨map, false⟩ round).1.escaped = some (.zerror cannotSend)) := by
  simp only [Worker.iteration]
  cases round.recv with
  | empty => exact ⟨rfl, rfl, running, .inl escaped⟩
  | threw => exact ⟨rfl, rfl, running, .inl escaped⟩
  | message frames =>
    have ended := @sameEnd_serve _ pb map round { v with frames } { w with frames } rfl running
    exact ⟨ended.calls, ended.messages, ended.running, ended.escaped⟩

end Iteration

section Runs

theorem run_silent (rounds : List (Round Msg)) (v : Worker) :
    messages (v.run pb ⟨map, true⟩ rounds).2.flatten = [] := by
  induction rounds generalizing v with
  | nil => rfl
  | cons round rounds ih =>
    rw [Worker.run]
    split
    · obtain ⟨_, quiet, _⟩ := @iteration_noreply _ pb map round v v rfl rfl
      rw [List.flatten_cons, messages_append, quiet, ih]
      rfl
    · rfl

theorem run_left (rounds : List (Round Msg)) (config : RpcWorker) {w : Worker}
    (left' : ¬w.InLoop) : w.run pb config rounds = (w, []) := by
  cases rounds with
  | nil => rfl
  | cons round rounds => rw [Worker.run, if_neg left']

theorem run_alike (rounds : List (Round Msg)) {v w : Worker} (running : v.isrunning = w.isrunning)
    (escaped : v.escaped = w.escaped) :
    (w.run pb ⟨map, false⟩ rounds).2.map calls <+: (v.run pb ⟨map, true⟩ rounds).2.map calls ∧
    ((w.run pb ⟨map, false⟩ rounds).1.escaped ≠ some (.zerror cannotSend) →
      (v.run pb ⟨map, true⟩ rounds).1.isrunning = (w.run pb ⟨map, false⟩ rounds).1.isrunning ∧
      (v.run pb ⟨map, true⟩ rounds).1.escaped = (w.run pb ⟨map, false⟩ rounds).1.escaped ∧
      (v.run pb ⟨map, true⟩ rounds).2.map calls =
        (w.run pb ⟨map, false⟩ rounds).2.map calls) := by
  induction rounds generalizing v w with
  | nil => exact ⟨List.prefix_refl _, fun _ => ⟨running, escaped, rfl⟩⟩
  | cons round rounds ih =>
    have same : v.InLoop ↔ w.InLoop := by rw [Worker.InLoop, Worker.InLoop, running, escaped]
    by_cases inLoop : w.InLoop
    · obtain ⟨called, _, running', ended⟩ := @iteration_noreply _ pb map round v w running escaped
      rw [Worker.run, Worker.run, if_pos (same.mpr inLoop), if_pos inLoop]
      simp only [List.map_cons, called]
      rcases ended with escaped' | refused
      · obtain ⟨begins, agrees⟩ := ih running' escaped'
        refine ⟨(List.prefix_cons_inj _).mpr begins, fun served => ?_⟩
        obtain ⟨alike, alike', calls'⟩ := agrees served
        exact ⟨alike, alike', congrArg _ calls'⟩
      · have left' : ¬(w.iteration pb ⟨map, false⟩ round).1.InLoop := fun again => by
          cases refused.symm.trans again.2
        rw [run_left rounds _ left']
        exact ⟨⟨_, rfl⟩, fun served => absurd refused served⟩
    · rw [run_left _ _ inLoop, run_left _ _ (mt same.mp inLoop)]
      exact ⟨List.prefix_refl _, fun _ => ⟨running, escaped, rfl⟩⟩

/-- Whatever comes in and whatever the socket does: a worker that does not reply sends nothing
and makes all the calls, in the same iterations, that one that replies makes. The two end in
the same way unless the latter is ended by an error reply that its socket refuses. -/
theorem noreply_agrees (rounds : List (Round Msg)) :
    messages (({} : Worker).run pb ⟨map, true⟩ rounds).2.flatten = [] ∧
    (({} : Worker).run pb ⟨map, false⟩ rounds).2.map calls <+:
      (({} : Worker).run pb ⟨map, true⟩ rounds).2.map calls ∧
    ((({} : Worker).run pb ⟨map, false⟩ rounds).1.escaped ≠ some (.zerror cannotSend) →
      (({} : Worker).run pb ⟨map, true⟩ rounds).1.isrunning =
        (({} : Worker).run pb ⟨map, false⟩ rounds).1.isrunning ∧
      (({} : Worker).run pb ⟨map, true⟩ rounds).1.escaped =
        (({} : Worker).run pb ⟨map, false⟩ rounds).1.escaped ∧
      (({} : Worker).run pb ⟨map, true⟩ rounds).2.map calls =
        (({} : Worker).run pb ⟨map, false⟩ rounds).2.map calls) :=
  ⟨run_silent rounds {}, run_alike rounds rfl rfl⟩

/-- An error reply that the socket refuses ends only the worker that replies. -/
example :
    let refusing : Round Bytes := ⟨.message [[], [], ascii "1", ascii "none", []], echo, acceptAll,
      fun _ => .refused⟩
    (({} : Worker).run rawBytes ⟨oneMethod, true⟩ [refusing]).1.escaped = none ∧
    (({} : Worker).run rawBytes ⟨oneMethod, false⟩ [refusing]).1.escaped =
      some (.zerror cannotSend) := by
  exact ⟨rfl, rfl⟩

end Runs

end Zqrpc
