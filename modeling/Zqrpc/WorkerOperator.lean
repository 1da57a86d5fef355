import Zqrpc.WorkerRuns

/-! The whole of `operator()`: the loop, the pointers declared before it and what comes
after it. The block that serves a request declares pointers of the same two names, so the
ones that are deleted at the end are still `NULL`. -/
namespace Zqrpc

open Numeral

variable {Msg : Type}

section Ledgers

/-- Objects are numbered in the order of their `New()`. -/
structure Ledger where
  made : Nat := 0
  deleted : List Nat := []

def WorkerEvent.prototype : WorkerEvent Msg → Option Ptr
  | .new prototype => some prototype
  | _ => none

/-- The prototypes of the objects made, in order. -/
def prototypes (events : List (WorkerEvent Msg)) : List Ptr := events.filterMap (·.prototype)

@[simp] theorem prototypes_append (events more : List (WorkerEvent Msg)) :
    prototypes (events ++ more) = prototypes events ++ prototypes more := List.filterMap_append

@[simp] theorem prototypes_sent (sent : List FramesT) :
    prototypes (sent.map .sent : List (WorkerEvent Msg)) = [] := by
  simp [prototypes, List.filterMap_map, WorkerEvent.prototype]

def Ledger.record (ledger : Ledger) (events : List (WorkerEvent Msg)) : Ledger :=
  { ledger with made := ledger.made + (prototypes events).length }

/-- `delete`, which does nothing with `NULL` -/
def Ledger.delete (ledger : Ledger) : Option Nat → Ledger
  | none => ledger
  | some object => { ledger with deleted := ledger.deleted ++ [object] }

def Ledger.live (ledger : Ledger) : List Nat :=
  (List.range ledger.made).filter fun object => object ∉ ledger.deleted

/-- Every object has been deleted exactly once. -/
def Ledger.Balanced (ledger : Ledger) : Prop :=
  ∀ object < ledger.made, ledger.deleted.count object = 1

instance (ledger : Ledger) : Decidable ledger.Balanced :=
  inferInstanceAs (Decidable (∀ object < ledger.made, ledger.deleted.count object = 1))

end Ledgers

/-- The variables of `operator()` with its socket. -/
structure Operator where
  worker : Worker := {}
  ledger : Ledger := {}
  request : Option Nat := none
  response : Option Nat := none
  isOpen : Bool := true

/-- The loop condition has failed, and no exception has passed the outer handler. -/
def Worker.Ended (w : Worker) : Prop := w.isrunning = false ∧ w.escaped = none

instance (w : Worker) : Decidable w.Ended := inferInstanceAs (Decidable (_ ∧ _))

theorem Worker.InLoop.not_ended {w : Worker} (inLoop : w.InLoop) : ¬w.Ended := fun ended => by
  cases inLoop.1.symm.trans ended.1

section

variable (pb : Protobuf Msg) (config : RpcWorker)

/-- The pointers to the objects an iteration makes end with its inner block. -/
def Operator.iteration (round : Round Msg) (o : Operator) : Operator :=
  let (worker, events) := o.worker.iteration pb config round
  { o with worker, ledger := o.ledger.record events }

def Operator.loop : List (Round Msg) → Operator → Operator
  | [], o => o
  | round :: rounds, o => if o.worker.InLoop then loop rounds (o.iteration pb config round) else o

/-- `delete request; delete response; ... socket.close();` -/
def Operator.finish (o : Operator) : Operator :=
  { o with ledger := (o.ledger.delete o.request).delete o.response, isOpen := false }

def operator (rounds : List (Round Msg)) : Operator :=
  let o := Operator.loop pb config rounds {}
  if o.worker.Ended then o.finish else o

end

section Rules

variable (pb : Protobuf Msg) (config : RpcWorker)

/-- The loop with its variables is the run of the worker. -/
theorem Operator.loop_run (rounds : List (Round Msg)) (o : Operator) :
    o.loop pb config rounds = { o with
      worker := (o.worker.run pb config rounds).1,
      ledger := o.ledger.record (o.worker.run pb config rounds).2.flatten } := by
  induction rounds generalizing o with
  | nil => rfl
  | cons round rounds ih =>
    rw [Operator.loop, Worker.run]
    split
    · rw [ih]
      simp [Operator.iteration, Ledger.record, Nat.add_assoc]
    · rfl

theorem Operator.loop_snoc (rounds : List (Round Msg)) (round : Round Msg) (o : Operator) :
    o.loop pb config (rounds ++ [round]) =
      if (o.loop pb config rounds).worker.InLoop then
        (o.loop pb config rounds).iteration pb config round
      else o.loop pb config rounds := by
  induction rounds generalizing o with
  | nil => rfl
  | cons first rounds ih =>
    rw [List.cons_append, Operator.loop, Operator.loop]
    split
    · exact ih _
    · rfl

/-- Two objects are made for a request whose method is known. -/
def Makes (map : RpcMethodMapT) (round : Round Msg) : Prop :=
  ∃ a b id opcode buffer rpcMethod, round.recv = .message [a, b, id, opcode, buffer] ∧
    map.lookup opcode = some rpcMethod

theorem process_prototypes (map : RpcMethodMapT) (handler : Handler Msg) (opcode buffer : Bytes) :
    prototypes (process pb map handler opcode buffer).1 =
      match map.lookup opcode with
      | none => []
      | some rpcMethod => [rpcMethod.request, rpcMethod.response] := by
  rcases process_cases pb map handler opcode buffer with
    ⟨entry, same⟩ | ⟨_, entry, ⟨_, same⟩ | ⟨_, _, _, same, _⟩⟩
  all_goals
    rw [same, entry]
    rfl

theorem iteration_made (round : Round Msg) (w : Worker) :
    (Makes config.rpcMethodMap round ∧ (prototypes (w.iteration pb config round).2).length = 2) ∨
      (¬Makes config.rpcMethodMap round ∧ prototypes (w.iteration pb config round).2 = []) := by
  cases taken : round.recv with
  | message frames =>
    rcases iteration_events pb config frames w round taken with
      ⟨notFive, same⟩ | ⟨a, b, id, opcode, buffer, rfl, sent, same, _⟩
    · refine .inr ⟨?_, by rw [same]; rfl⟩
      rintro ⟨a, b, id, opcode, buffer, _, taken', _⟩
      obtain rfl := RecvResult.message.inj (taken.symm.trans taken')
      exact notFive rfl
    · rw [same, prototypes_append, prototypes_sent, List.append_nil, process_prototypes]
      cases entry : config.rpcMethodMap.lookup opcode with
      | none =>
        refine .inr ⟨?_, rfl⟩
        rintro ⟨_, _, _, opcode', _, rpcMethod, taken', entry'⟩
        obtain ⟨_, _, _, rfl, _⟩ := RecvResult.message.inj (taken.symm.trans taken')
        cases entry.symm.trans entry'
      | some rpcMethod => exact .inl ⟨⟨a, b, id, opcode, buffer, rpcMethod, taken, entry⟩, rfl⟩
  | _ =>
    refine .inr ⟨?_, by simp [Worker.iteration, taken, prototypes]⟩
    rintro ⟨_, _, _, _, _, _, taken', _⟩
    cases taken.symm.trans taken'

/-- The loop deletes nothing, so what it has made is what is left. -/
theorem loop_live (rounds : List (Round Msg)) :
    (Operator.loop pb config rounds {}).ledger.live = [] ↔
      (Operator.loop pb config rounds {}).ledger.made = 0 := by
  rw [Operator.loop_run]
  simp [Ledger.record, Ledger.live]

/-- The objects of a run are gone at its return only if there were none. -/
theorem operator_balanced (rounds : List (Round Msg)) :
    (operator pb config rounds).ledger.Balanced ↔
      (Operator.loop pb config rounds {}).ledger.made = 0 := by
  have same : (operator pb config rounds).ledger =
      (Operator.loop pb config rounds {}).ledger := by
    simp only [operator, Operator.loop_run]
    split <;> rfl
  rw [same, Operator.loop_run]
  constructor
  · intro balanced
    by_contra some'
    have deleted := balanced 0 (Nat.pos_of_ne_zero some')
    simp [Ledger.record] at deleted
  · intro none' object bound
    rw [none'] at bound
    exact absurd bound (Nat.not_lt_zero _)

/-- The order that ends the loop. -/
def StopOrder (round : Round Msg) : Prop :=
  ∃ frames, round.recv = .message frames ∧ isStop frames = true

theorem serve_running (round : Round Msg) (w : Worker) (noStop : isStop w.frames = false) :
    (serve pb config round w).1.isrunning = w.isrunning := by
  by_cases five : w.frames.length = 5
  · obtain ⟨a, b, id, opcode, buffer, same⟩ := length_five w.frames five
    rcases processed : process pb config.rpcMethodMap round.handler opcode buffer with
      ⟨events, e | data⟩
    · rw [serve_error pb config same processed]
    · obtain ⟨pending, sent, thrown, put, _⟩ := sendReply_cases config round.reply
        { w with frames := [a, b, id, ascii "0", data] }
      rw [serve_ok pb config same processed, put]
  · rw [serve_other pb config round w noStop five]

/-- One round ends a loop only by its stop order. -/
theorem iteration_ended (round : Round Msg) (w : Worker) (inLoop : w.InLoop) :
    (w.iteration pb config round).1.Ended ↔ StopOrder round := by
  constructor
  · rintro ⟨stopped, _⟩
    cases taken : round.recv with
    | message frames =>
      by_contra other
      have noStop : isStop frames = false := by
        cases stop : isStop frames with
        | false => rfl
        | true => exact absurd ⟨frames, taken, stop⟩ other
      have kept := serve_running pb config round { w with frames } noStop
      rcases served : serve pb config round { w with frames } with ⟨w', events, thrown⟩
      obtain ⟨next, more, thrown', answered, _, kept', _⟩ :=
        answerError_cases config round w' thrown
      simp only [Worker.iteration, taken] at stopped
      rw [served, answered] at stopped
      rw [served] at kept
      cases stopped.symm.trans (kept'.trans (kept.trans inLoop.1))
    | _ =>
      simp only [Worker.iteration, taken] at stopped
      cases stopped.symm.trans inLoop.1
  · rintro ⟨frames, taken, stop⟩
    rw [iteration_stop pb config round w taken stop]
    exact ⟨rfl, rfl⟩

theorem operator_closes (rounds : List (Round Msg)) :
    (operator pb config rounds).isOpen = false ↔
      (Operator.loop pb config rounds {}).worker.Ended := by
  simp only [operator, Operator.loop_run]
  split
  · rename_i ended
    exact ⟨fun _ => ended, fun _ => rfl⟩
  · rename_i other
    exact ⟨fun closed => (nomatch closed), fun ended => absurd ended other⟩

/-- A stop order that reaches the loop has `operator()` return. -/
theorem operator_returns (rounds : List (Round Msg)) (last : Round Msg) (stop : StopOrder last)
    (reaches : (Operator.loop pb config rounds {}).worker.InLoop) :
    (operator pb config (rounds ++ [last])).isOpen = false := by
  rw [operator_closes, Operator.loop_snoc, if_pos reaches]
  exact (iteration_ended pb config last _ reaches).mpr stop

/-- A round that cannot end the loop: no stop order, a handler that returns or throws what
one of the two `catch` groups takes, and no refused send in the inner handler. -/
def GoesOn (round : Round Msg) : Prop := ∀ frames, round.recv = .message frames →
  isStop frames = false ∧ EndsCaught pb config.rpcMethodMap frames round.handler ∧
    ∀ i, round.errorReply i ≠ .refused

theorem loop_goesOn (rounds : List (Round Msg))
    (goesOn : ∀ round ∈ rounds, GoesOn pb config round) :
    (Operator.loop pb config rounds {}).worker.InLoop := by
  induction rounds using List.reverseRecOn with
  | nil => exact ⟨rfl, rfl⟩
  | append_singleton rounds round ih =>
    have inLoop := ih fun other member => goesOn other (List.mem_append_left _ member)
    rw [Operator.loop_snoc, if_pos inLoop]
    simp only [Operator.iteration]
    cases taken : round.recv with
    | message frames =>
      obtain ⟨noStop, ends, answerable⟩ := goesOn round (by simp) frames taken
      exact iteration_stays pb config frames round _ taken inLoop.1 noStop ends answerable
    | _ =>
      simp only [Worker.iteration, taken]
      exact inLoop

end Rules

section Freed

variable (pb : Protobuf Msg) (config : RpcWorker)

/-- Nothing made in an iteration is left after it, and at the return of `operator()` every
object has been deleted once. -/
def Freed (rounds : List (Round Msg)) : Prop :=
  (∀ before, before <+: rounds → (Operator.loop pb config before {}).ledger.live = []) ∧
  ((operator pb config rounds).isOpen = false →
    (operator pb config rounds).ledger.Balanced)

/-- No request for a known method reaches the worker in its loop. -/
def NoneMade (rounds : List (Round Msg)) : Prop := ∀ before round, before ++ [round] <+: rounds →
  (Operator.loop pb config before {}).worker.InLoop → ¬Makes config.rpcMethodMap round

theorem noneMade_snoc (rounds : List (Round Msg)) (round : Round Msg) :
    NoneMade pb config (rounds ++ [round]) ↔ NoneMade pb config rounds ∧
      ((Operator.loop pb config rounds {}).worker.InLoop → ¬Makes config.rpcMethodMap round) := by
  constructor
  · intro held
    exact ⟨fun before other earlier => held before other (earlier.trans (List.prefix_append _ _)),
      held rounds round (List.prefix_refl _)⟩
  · rintro ⟨earlier, last⟩ before other comes
    rcases List.prefix_concat_iff.mp comes with same | inside
    · obtain ⟨rfl, same'⟩ := List.append_inj' same rfl
      obtain rfl := List.singleton_inj.mp same'
      exact last
    · exact earlier before other inside

theorem loop_made (rounds : List (Round Msg)) :
    (Operator.loop pb config rounds {}).ledger.made = 0 ↔ NoneMade pb config rounds := by
  induction rounds using List.reverseRecOn with
  | nil => simp [Operator.loop, NoneMade]
  | append_singleton rounds round ih =>
    rw [Operator.loop_snoc, noneMade_snoc, ← ih]
    by_cases inLoop : (Operator.loop pb config rounds {}).worker.InLoop
    · rw [if_pos inLoop]
      rcases iteration_made pb config round (Operator.loop pb config rounds {}).worker with
        ⟨makes, two⟩ | ⟨none', same⟩
      · simp [Operator.iteration, Ledger.record, two, inLoop, makes]
      · simp [Operator.iteration, Ledger.record, same, none']
    · rw [if_neg inLoop]
      simp [inLoop]

theorem messages_freed_iff (rounds : List (Round Msg)) :
    Freed pb config rounds ↔ NoneMade pb config rounds := by
  rw [← loop_made]
  constructor
  · rintro ⟨between, _⟩
    exact (loop_live pb config rounds).mp (between rounds (List.prefix_refl _))
  · intro none'
    refine ⟨fun before earlier => ?_, fun _ => (operator_balanced pb config rounds).mpr none'⟩
    rw [loop_live, loop_made]
    have held := (loop_made pb config rounds).mp none'
    exact fun front round comes => held front round (comes.trans earlier)

/-- One echoed request and a stop order: `operator()` returns with two objects left. -/
theorem echo_leaves_messages : ¬∀ (pb : Protobuf Bytes) (config : RpcWorker)
    (rounds : List (Round Bytes)) (last : Round Bytes), StopOrder last →
    (∀ round ∈ rounds, GoesOn pb config round) → Freed pb config (rounds ++ [last]) := by
  intro claim
  let request := quietRound (requestOf 1 (ascii "x")) echo
  let stop := quietRound [[], terminate] echo
  have ordered : StopOrder stop := ⟨_, rfl, by decide⟩
  have goesOn : ∀ round ∈ [request], GoesOn rawBytes ⟨oneMethod, false⟩ round := by
    intro round member frames taken
    obtain rfl := List.mem_singleton.mp member
    obtain rfl := RecvResult.message.inj taken
    refine ⟨by decide, ?_, fun _ => nofun⟩
    intro _ _ _ _ _ _ _ _ _ _ _ threw
    cases threw
  have balanced := (claim rawBytes ⟨oneMethod, false⟩ [request] stop ordered goesOn).2
    (operator_returns rawBytes _ _ stop ordered (loop_goesOn rawBytes _ _ goesOn))
  exact absurd balanced (by decide)

end Freed

section Leaves

variable (pb : Protobuf Msg) (config : RpcWorker)

/-- The first `n` rounds of a run that may go on for ever. -/
def firsts (rounds : Nat → Round Msg) (n : Nat) : List (Round Msg) := (List.range n).map rounds

/-- The loop ends, and the worker closes its socket. -/
def Leaves (rounds : Nat → Round Msg) : Prop :=
  ∃ n, ¬(Operator.loop pb config (firsts rounds n) {}).worker.InLoop ∧
    (operator pb config (firsts rounds n)).isOpen = false

theorem firsts_succ (rounds : Nat → Round Msg) (n : Nat) :
    firsts rounds (n + 1) = firsts rounds n ++ [rounds n] := by
  simp [firsts, List.range_succ]

theorem firsts_ended (rounds : Nat → Round Msg) (n : Nat) :
    (Operator.loop pb config (firsts rounds n) {}).worker.Ended ↔
      ∃ m < n, StopOrder (rounds m) ∧
        (Operator.loop pb config (firsts rounds m) {}).worker.InLoop := by
  induction n with
  | zero => simp [firsts, Operator.loop, Worker.Ended]
  | succ n ih =>
    rw [firsts_succ, Operator.loop_snoc]
    by_cases inLoop : (Operator.loop pb config (firsts rounds n) {}).worker.InLoop
    · rw [if_pos inLoop]
      simp only [Operator.iteration]
      rw [iteration_ended pb config (rounds n) _ inLoop]
      constructor
      · intro stop
        exact ⟨n, Nat.lt_succ_self n, stop, inLoop⟩
      · rintro ⟨m, bound, stop, earlier⟩
        rcases Nat.lt_succ_iff_lt_or_eq.mp bound with before | rfl
        · exact absurd (ih.mpr ⟨m, before, stop, earlier⟩) inLoop.not_ended
        · exact stop
    · rw [if_neg inLoop, ih]
      constructor
      · rintro ⟨m, bound, stop⟩
        exact ⟨m, by omega, stop⟩
      · rintro ⟨m, bound, stop, earlier⟩
        rcases Nat.lt_succ_iff_lt_or_eq.mp bound with before | rfl
        · exact ⟨m, before, stop, earlier⟩
        · exact absurd earlier inLoop

/-- A worker whose receives fail for good leaves only when a stop order came before. -/
theorem leaves_iff_stopped (rounds : Nat → Round Msg) (last : Nat)
    (gone : ∀ n ≥ last, (rounds n).recv = .threw) :
    Leaves pb config rounds ↔ ∃ n < last, StopOrder (rounds n) ∧
      (Operator.loop pb config (firsts rounds n) {}).worker.InLoop := by
  constructor
  · rintro ⟨n, _, closed⟩
    rw [operator_closes, firsts_ended] at closed
    obtain ⟨m, _, stop, inLoop⟩ := closed
    refine ⟨m, ?_, stop, inLoop⟩
    by_contra late
    obtain ⟨frames, taken, _⟩ := stop
    cases taken.symm.trans (gone m (Nat.le_of_not_lt late))
  · intro stopped
    have ended := (firsts_ended pb config rounds last).mpr stopped
    exact ⟨last, fun inLoop => inLoop.not_ended ended, (operator_closes pb config _).mpr ended⟩

/-- Without one the loop goes on receiving from a context that is gone. -/
theorem gone_spins (rounds : Nat → Round Msg) (last : Nat)
    (gone : ∀ n ≥ last, (rounds n).recv = .threw)
    (inLoop : (Operator.loop pb config (firsts rounds last) {}).worker.InLoop)
    (n : Nat) (late : last ≤ n) :
    (Operator.loop pb config (firsts rounds n) {}).worker.InLoop := by
  induction n, late using Nat.le_induction with
  | base => exact inLoop
  | succ n late ih =>
    rw [firsts_succ, Operator.loop_snoc, if_pos ih]
    simp only [Operator.iteration, Worker.iteration, gone n late]
    exact ih

end Leaves

/-- A stop order, and a context that is gone after it. -/
def stoppedThenGone : Nat → Round Bytes
  | 0 => quietRound [[], terminate] echo
  | _ + 1 => ⟨.threw, echo, acceptAll, acceptAll⟩

theorem leaves_iff_stopped_first : Leaves rawBytes ⟨oneMethod, false⟩ stoppedThenGone := by
  refine (leaves_iff_stopped rawBytes ⟨oneMethod, false⟩ stoppedThenGone 1 ?_).mpr
    ⟨0, Nat.one_pos, ⟨_, rfl, by decide⟩, by decide⟩
  intro n late
  cases n with
  | zero => cases late
  | succ => rfl

/-- A worker that never gets a stop order receives from a context that is gone for ever. -/
theorem gone_context_spins : ¬∀ (pb : Protobuf Bytes) (config : RpcWorker)
    (rounds : Nat → Round Bytes) (last : Nat), (∀ n ≥ last, (rounds n).recv = .threw) →
    Leaves pb config rounds := by
  intro claim
  let gone : Nat → Round Bytes := fun _ => ⟨.threw, echo, acceptAll, acceptAll⟩
  obtain ⟨n, _, closed⟩ := claim rawBytes ⟨oneMethod, false⟩ gone 0 fun _ _ => rfl
  obtain ⟨_, _, ⟨_, taken, _⟩, _⟩ :=
    (firsts_ended rawBytes _ gone n).mp ((operator_closes rawBytes _ _).mp closed)
  cases taken

end Zqrpc
