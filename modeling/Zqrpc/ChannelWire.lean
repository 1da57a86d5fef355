import Zqrpc.RpcChannelRules
import Zqrpc.RpcWorkerRules
import Zqrpc.Path
import Zqrpc.Pieces

/-! What a channel puts on the wire. The frames of a request that the socket did not take to
its end go out in front of the next request, which then is none for any worker. -/
namespace Zqrpc

open Numeral Steps Pieces

def Event.wired : Event → Option FramesT
  | .wire frames => some frames
  | _ => none

/-- The complete messages that left the socket. -/
def wires (events : List Event) : List FramesT := events.filterMap Event.wired

/-- What a `Send` of these frames puts into the socket, and whether it ends a message. -/
def requestPiece (frames : FramesT) (outcome : Nat → SendOutcome) : FramesT × Bool :=
  let put := send outcome frames []
  if put.sent = [] then (put.pending, false) else (frames, true)

/-- What a step puts into the socket. -/
def stepPieces (s : Session) : Input → List (FramesT × Bool)
  | .send _ fullName (.bytes buffer) outcome =>
    [requestPiece (requestFrames s.client.nextid fullName buffer) outcome]
  | _ => []

/-- What the calls of a run put into the socket. -/
def requestPieces (inputs : List Input) : List (FramesT × Bool) :=
  along stepPieces Session.step inputs {}

theorem wires_append (events more : List Event) :
    wires (events ++ more) = wires events ++ wires more :=
  List.filterMap_append

theorem wired_around (e : Event) (around : e.Around) : e.wired = none := by
  cases e <;> first | rfl | exact around.elim

theorem requestPiece_accepted {frames : FramesT} {outcome : Nat → SendOutcome}
    (nonempty : frames ≠ []) (all : Accepts outcome frames.length) :
    requestPiece frames outcome = (frames, true) := by
  simp [requestPiece, send_accepted outcome frames [] nonempty all]

theorem requestPiece_failed {frames : FramesT} {outcome : Nat → SendOutcome} {k : Nat}
    (bound : k < frames.length) (before : Accepts outcome k) (fails : outcome k ≠ .accepted) :
    requestPiece frames outcome = (frames.take k, false) := by
  simp [requestPiece, send_failed outcome frames [] k bound before fails]

theorem requestPiece_ends {frames request : FramesT} {outcome : Nat → SendOutcome}
    (member : request ∈ ends [requestPiece frames outcome]) : request = frames := by
  by_cases stays : (send outcome frames []).sent = []
  · simp [ends, requestPiece, stays] at member
  · simpa [ends, requestPiece, stays] using member

/-- A call glues its piece to what the socket holds. -/
theorem zSendMethod_piece (fullName : Bytes) (c : Ptr) (request : Serialized)
    (outcome : Nat → SendOutcome) (s : Session) :
    wires (zSendMethod fullName c request outcome s.client).2.1 =
        glue s.client.channel.pending (stepPieces s (.send c fullName request outcome)) ∧
    (zSendMethod fullName c request outcome s.client).1.channel.pending =
      remainder s.client.channel.pending (stepPieces s (.send c fullName request outcome)) ∧
    (zSendMethod fullName c request outcome s.client).2.2 = none := by
  cases request with
  | failed => exact ⟨rfl, rfl, rfl⟩
  | threw => exact ⟨rfl, rfl, rfl⟩
  | bytes buffer =>
    have four : (requestFrames s.client.nextid fullName buffer).length = 4 := rfl
    rcases accepts_or_first_failure outcome 4 with all | ⟨k, bound, before, fails⟩
    · rw [zSendMethod_succeeds fullName c buffer outcome s.client all, stepPieces,
        requestPiece_accepted (by simp [requestFrames]) (four ▸ all)]
      exact ⟨rfl, rfl, rfl⟩
    · rw [zSendMethod_unsent fullName c buffer outcome s.client k bound before fails, stepPieces,
        requestPiece_failed (four ▸ bound) before fails]
      exact ⟨rfl, rfl, rfl⟩

theorem step_piece {s next : Session} {input : Input} {emitted : List Event}
    (fired : s.step input = some (next, emitted)) :
    wires emitted = glue s.client.channel.pending (stepPieces s input) ∧
    next.client.channel.pending = remainder s.client.channel.pending (stepPieces s input) := by
  cases input with
  | send c fullName request outcome =>
    obtain ⟨wire, pending, quiet⟩ := zSendMethod_piece fullName c request outcome s
    simp only [Session.step] at fired
    split at fired
    · cases fired
    · obtain ⟨rfl, rfl⟩ := Prod.mk.inj (Option.some.inj fired)
      rw [quiet]
      exact ⟨by simpa using wire, pending⟩
  | recv c timeout start =>
    obtain ⟨_, rfl, rfl⟩ := s.step_recv next c timeout start emitted fired
    exact ⟨rfl, rfl⟩
  | tick t =>
    obtain ⟨before, after, around, ⟨same, rfl⟩ | ⟨frames, _, rfl, changes⟩⟩ :=
      s.step_tick next t emitted fired
    · exact ⟨filterMap_around wired_around around, by rw [same]; rfl⟩
    · refine ⟨filterMap_consumed wired_around frames around, ?_⟩
      rcases changes with ⟨id, c, _, _, _, same⟩ | ⟨_, same⟩
      · rw [same]
        rfl
      · rw [same]
        rfl

/-- Every complete message is what failing calls left, and behind it one whole request. -/
theorem wires_glued (run : Path (Fires Session.step) {} inputs events s) :
    wires events = glue [] (requestPieces inputs) ∧
    s.client.channel.pending = remainder [] (requestPieces inputs) := by
  induction run with
  | nil => exact ⟨rfl, rfl⟩
  | @snoc inputs events s input emitted next earlier last ih =>
    obtain ⟨wire, pending⟩ := step_piece last
    have record : requestPieces (inputs ++ [input]) =
        requestPieces inputs ++ stepPieces s input := earlier.along_snoc last
    rw [wires_append, record, glue_append, remainder_append, ← ih.1, ← ih.2]
    exact ⟨congrArg _ wire, pending⟩

/-- The third frame of the first request is refused, and the second request is taken. -/
def brokenSend : List Input :=
  [.send 0 (ascii "m") (.bytes [1]) (fun i => if i = 2 then .refused else .accepted),
    .send 1 (ascii "m") (.bytes [2]) acceptAll]

theorem brokenSend_run : ∃ events s, Path (Fires Session.step) {} brokenSend events s := by
  have run : ∃ events s, execute Session.step brokenSend {} = some (s, events) := ⟨_, _, rfl⟩
  obtain ⟨events, s, run⟩ := run
  exact ⟨events, s, execute_path run⟩

section

variable {Msg : Type} (pb : Protobuf Msg) (config : RpcWorker)

/-- A worker that receives more than five frames goes back to its receive. -/
theorem iteration_long (w : Worker) (round : Round Msg) {frames : FramesT}
    (taken : round.recv = .message frames) (long : 5 < frames.length) :
    w.iteration pb config round = ({ w with frames, escaped := none }, []) := by
  have two : frames.length ≠ 2 := by omega
  have five : frames.length ≠ 5 := by omega
  simp [Worker.iteration, taken, serve, isStop, two, five, answerError]

/-- A message that no worker does anything with, whatever identity the ROUTER puts in front
of it. -/
def Passed (message : FramesT) : Prop :=
  ∀ {Msg : Type} (pb : Protobuf Msg) (config : RpcWorker) (w : Worker) (round : Round Msg)
    (identity : Bytes), round.recv = .message (identity :: message) → w.InLoop →
    (w.iteration pb config round).2 = [] ∧ (w.iteration pb config round).1.InLoop

end

theorem passed_long {message : FramesT} (long : 4 < message.length) : Passed message := by
  intro Msg pb config w round identity taken inLoop
  rw [iteration_long pb config w round taken (Nat.succ_lt_succ long)]
  exact ⟨rfl, inLoop.1, rfl⟩

/-- The pieces that end a message are requests. -/
theorem ends_requests (inputs : List Input) (s : Session) :
    ∀ request ∈ ends (along stepPieces Session.step inputs s),
      ∃ id opcode buffer, request = requestFrames id opcode buffer := by
  have piece (s : Session) (input : Input) : ∀ request ∈ ends (stepPieces s input),
      ∃ id opcode buffer, request = requestFrames id opcode buffer := by
    intro request member
    unfold stepPieces at member
    split at member
    · exact ⟨_, _, _, requestPiece_ends member⟩
    · simp [ends] at member
  induction inputs generalizing s with
  | nil => simp [along, ends]
  | cons input inputs ih =>
    intro request member
    rw [along, ends_append] at member
    rcases List.mem_append.mp member with here | later
    · exact piece s input request here
    · split at later
      · simp [ends] at later
      · exact ih _ request later

/-- A request that goes out behind frames of a failed call is passed over by every worker, and
the others are on the wire as they are. -/
theorem glued_or_passed (inputs : List Input) :
    List.Forall₂ (fun request message => request <:+ message ∧
        (message = request ∨ Passed message))
      (ends (requestPieces inputs)) (glue [] (requestPieces inputs)) := by
  have known := ends_requests inputs {}
  have suffixes := suffix_glue [] (requestPieces inputs)
  rw [List.forall₂_iff_get] at suffixes ⊢
  refine ⟨suffixes.1, fun i inside inside' => ⟨suffixes.2 i inside inside', ?_⟩⟩
  obtain ⟨left', same⟩ := suffixes.2 i inside inside'
  obtain ⟨id, opcode, buffer, shape⟩ := known _ (List.getElem_mem inside)
  by_cases clean : left' = []
  · rw [clean] at same
    exact .inl same.symm
  · right
    apply passed_long
    have positive : 0 < left'.length := List.length_pos_iff.mpr clean
    rw [← same, List.length_append]
    simp only [List.get_eq_getElem, shape, requestFrames, List.length_cons, List.length_nil]
    omega

end Zqrpc
