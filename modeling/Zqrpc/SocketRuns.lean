import Zqrpc.SocketHandles

/-! Every ZeroMQ socket that is opened is closed once, and not used after that: whichever
calls fail, every constructor that throws takes back what it has opened, and every
object closes its own, unless an exception ends the process first. -/
namespace Zqrpc

open Numeral Steps Unwinding Owner

namespace Process

variable {X : Set SocketAddr} {n : Nat} {a : SocketAddr} {thrown : Process → Prop}

/-- The objects alive, and the threads that have begun. -/
def HoldsAt (X : Set SocketAddr) (n : Nat) (p : Process) : Prop :=
  Holds X p.sockets ∧ p.begun = n ∧ p.ended = false

/-- An exception has ended the process. -/
def Ended (p : Process) : Prop := p.ended = true ∧ Disciplined p.sockets.trace

/-- A rule for the objects is one for the process. -/
theorem onSockets_rule {α : Type} {q : Unwinding.Program (Memory SocketAddr) Exn α}
    {Y : Set SocketAddr} {left' : Memory SocketAddr → Prop}
    (rule : Triple (Holds X) q (fun _ => Holds Y) left') :
    Triple (HoldsAt X n) (onSockets q) (fun _ => HoldsAt Y n)
      fun p => left' p.sockets ∧ p.begun = n ∧ p.ended = false :=
  rule.zoom (fun _ _ => rfl) fun _ _ same => same

theorem onSockets_total {α : Type} {q : Unwinding.Program (Memory SocketAddr) Exn α}
    {Y : Set SocketAddr} (rule : Triple (Holds X) q (fun _ => Holds Y) fun _ => False) :
    Triple (HoldsAt X n) (onSockets q) (fun _ => HoldsAt Y n) thrown :=
  (onSockets_rule rule).weaken (fun _ held => held) (fun _ _ held => held)
    fun _ left' => left'.1.elim

theorem read_rule {α : Type} (f : Process → α) :
    Triple (HoldsAt X n) (.read f : Code α) (fun _ => HoldsAt X n) thrown :=
  .read fun _ held => held

/-- Assignments to the fields of a server leave the sockets alone. -/
theorem setServer_rule (s : Nat) (update : ServerFields → ServerFields) :
    Triple (HoldsAt X n) (.modify (setServer s update) : Code Unit) (fun _ => HoldsAt X n)
      thrown :=
  .modify fun _ held => held

/-- What is left of the sockets when an exception ends the process does not matter. -/
theorem thrown_disciplined {α : Type} {pre : Process → Prop} {post : α → Process → Prop}
    {code : Code α} (rule : Triple pre code post (HoldsAt X n)) :
    Triple pre code post fun p => Disciplined p.sockets.trace :=
  rule.weaken (fun _ held => held) (fun _ _ held => held) fun _ left' => left'.1.1.disciplined

theorem noexcept_rule {pre post : Process → Prop} {code : Code Unit}
    (body : Triple pre code (fun _ => post) fun p => Disciplined p.sockets.trace) :
    Triple pre (noexcept code) (fun _ => post) Ended :=
  body.unwinding (.modify fun _ left' => ⟨rfl, left'⟩)

section Members

theorem init_rule (fails : Bool) (outside : a ∉ X) :
    Triple (HoldsAt X n) (init a fails) (fun _ => HoldsAt (insert a X) n) (HoldsAt X n) :=
  onSockets_rule (construct_rule (failure fails) outside)

theorem request_rule (fails : Bool) (inside : a ∈ X) :
    Triple (HoldsAt X n) (request a fails) (fun _ => HoldsAt X n) (HoldsAt X n) :=
  onSockets_rule (call_rule .zmqError (failure fails) inside)

theorem close_rule (inside : a ∈ X) :
    Triple (HoldsAt X n) (close a) (fun _ => HoldsAt X n) thrown :=
  onSockets_total (release_rule inside)

theorem destructor_rule (inside : a ∈ X) :
    Triple (HoldsAt X n) (destructor a) (fun _ => HoldsAt (X \ {a}) n) thrown :=
  onSockets_total (destroy_rule inside)

theorem undone_rule (outside : a ∉ X) :
    Triple (HoldsAt (insert a X) n) (destructor a) (fun _ => HoldsAt X n) thrown :=
  onSockets_total (undo_rule outside)

theorem zSocket_rule (id : Bytes) (fails : Nat → Bool) (outside : a ∉ X) :
    Triple (HoldsAt X n) (zSocket a id fails) (fun _ => HoldsAt (insert a X) n)
      (HoldsAt X n) := by
  refine (init_rule (fails 0) outside).bind fun _ => ?_
  by_cases named : 0 < id.length
  · rw [if_pos named]
    exact (request_rule (fails 1) (Set.mem_insert a X)).unwinding (undone_rule outside)
  · rw [if_neg named]
    exact .pure fun _ held => held

theorem disconnect_rule (fails : Bool) (inside : a ∈ X) :
    Triple (HoldsAt X n) (disconnect a fails) (fun _ => HoldsAt X n) (HoldsAt X n) := by
  refine Triple.bind (onSockets_total (holds_rule inside)) fun held => ?_
  cases held with
  | true => exact request_rule fails inside
  | false => exact .pure fun _ held => held

theorem unbind_rule (url : Bytes) (fails : Bool) (inside : a ∈ X) :
    Triple (HoldsAt X n) (unbind a url fails) (fun _ => HoldsAt X n) (HoldsAt X n) := by
  rw [unbind]
  split
  · exact .pure fun _ held => held
  · exact request_rule fails inside

theorem sendString_rule (outcome : SendOutcome) (inside : a ∈ X) :
    Triple (HoldsAt X n) (sendString a outcome) (fun _ => HoldsAt X n) (HoldsAt X n) :=
  onSockets_rule (call_rule Exn.zmqError _ inside)

end Members

section Channels

variable {k : Nat}

theorem rpcChannel_rule (threadId : Bytes) (fails : Nat → Bool) (outside : .channel k ∉ X) :
    Triple (HoldsAt X n) (rpcChannel k threadId fails)
      (fun _ => HoldsAt (insert (.channel k) X) n) (HoldsAt X n) :=
  (zSocket_rule threadId fails outside).bind fun _ =>
    (request_rule (fails 2) (Set.mem_insert _ X)).unwinding (undone_rule outside)

theorem channelClose_rule (fails : Bool) (inside : .channel k ∈ X) :
    Triple (HoldsAt X n) (channelClose k fails) (fun _ => HoldsAt X n) (HoldsAt X n) :=
  (disconnect_rule fails inside).bind fun _ => close_rule inside

theorem channelDestructor_rule (fails : Bool) (inside : .channel k ∈ X) :
    Triple (HoldsAt X n) (channelDestructor k fails) (fun _ => HoldsAt (X \ {.channel k}) n)
      Ended :=
  (noexcept_rule (thrown_disciplined (channelClose_rule fails inside))).bind fun _ =>
    destructor_rule inside

end Channels

section Servers

variable {s : Nat}

/-- The three sockets of a server. -/
def own (s : Nat) : Set SocketAddr := {a | ∃ socket, a = .server s socket}

theorem rpcServer_rule (fails : Nat → Bool) (outside : ∀ socket, .server s socket ∉ X) :
    Triple (HoldsAt X n) (rpcServer s fails) (fun _ => HoldsAt (X ∪ own s) n) (HoldsAt X n) := by
  have backend : .server s .backend ∉ insert (.server s .frontend) X := by
    simp [outside]
  have control : .server s .control ∉
      insert (.server s .backend) (insert (.server s .frontend) X) := by
    simp [outside]
  have all : insert (SocketAddr.server s .control) (insert (.server s .backend)
      (insert (.server s .frontend) X)) = X ∪ own s := by
    ext a
    simp only [own, Set.mem_insert_iff, Set.mem_union, Set.mem_ofPred_eq]
    constructor
    · rintro (rfl | rfl | rfl | before)
      · exact .inr ⟨_, rfl⟩
      · exact .inr ⟨_, rfl⟩
      · exact .inr ⟨_, rfl⟩
      · exact .inl before
    · rintro (before | ⟨socket, rfl⟩)
      · exact .inr (.inr (.inr before))
      · cases socket <;> simp
  refine (zSocket_rule _ fails (outside .frontend)).bind fun _ => ?_
  refine Triple.bind (Triple.unwinding ?_ (undone_rule (outside .frontend))) fun _ =>
    setServer_rule s _
  rw [← all]
  exact (zSocket_rule _ _ backend).bind fun _ =>
    (zSocket_rule _ _ control).unwinding (undone_rule backend)

theorem proxyStart_rule (fails : Bool) (inside : ∀ socket, .server s socket ∈ X) :
    Triple (HoldsAt X n) (proxyStart s fails) (fun _ => HoldsAt X n) (HoldsAt X n) :=
  (request_rule false (inside .frontend)).bind fun _ =>
    (request_rule false (inside .backend)).bind fun _ => request_rule fails (inside .control)

theorem start_rule (noofThreads : Nat) (fails : Nat → Bool)
    (inside : ∀ socket, .server s socket ∈ X) :
    Triple (HoldsAt X n) (start s noofThreads fails) (fun _ => HoldsAt X n) (HoldsAt X n) := by
  refine Triple.catching ?_ fun _ held => held
  refine (read_rule _).bind fun urls => ?_
  refine Triple.bind (.each fun call _ => request_rule _ (inside .frontend)) fun _ => ?_
  refine (request_rule _ (inside .frontend)).bind fun _ => ?_
  refine (request_rule _ (inside .backend)).bind fun _ => ?_
  refine (request_rule _ (inside .control)).bind fun _ => ?_
  refine (setServer_rule s _).bind fun _ => ?_
  refine (setServer_rule s _).bind fun _ => ?_
  exact Triple.bind (.modify fun _ held => held) fun _ => proxyStart_rule _ inside

theorem stop_rule (id : Bytes) (nos : Nat) (calls : StopCalls) (outside : .stopper s ∉ X) :
    Triple (HoldsAt X n) (stop s id nos calls) (fun _ => HoldsAt X n) (HoldsAt X n) := by
  have inside := Set.mem_insert (SocketAddr.stopper s) X
  refine (zSocket_rule id calls.fails outside).bind fun _ => ?_
  refine Triple.ensuring ?_ (fun _ => undone_rule outside) (undone_rule outside)
  refine (request_rule _ inside).bind fun _ => ?_
  refine Triple.bind (.each fun i _ => sendString_rule _ inside) fun _ => ?_
  exact (disconnect_rule _ inside).bind fun _ => close_rule inside

theorem closeStarted_rule (fields : ServerFields) (fails : Nat → Bool)
    (workers proxy : StopCalls) (inside : ∀ socket, .server s socket ∈ X)
    (outside : .stopper s ∉ X) :
    Triple (HoldsAt X n) (closeStarted s fields fails workers proxy) (fun _ => HoldsAt X n)
      (HoldsAt X n) := by
  refine Triple.bind (.each fun call _ => unbind_rule _ _ (inside .frontend)) fun _ => ?_
  refine (setServer_rule s _).bind fun _ => ?_
  exact (stop_rule _ _ workers outside).bind fun _ => stop_rule _ _ proxy outside

theorem serverClose_rule (fails : Nat → Bool) (workers proxy : StopCalls)
    (inside : ∀ socket, .server s socket ∈ X) (outside : .stopper s ∉ X) :
    Triple (HoldsAt X n) (serverClose s fails workers proxy) (fun _ => HoldsAt X n)
      (HoldsAt X n) := by
  refine (read_rule _).bind fun fields => ?_
  refine Triple.bind ?_ fun _ => (close_rule (inside .frontend)).bind fun _ =>
    (close_rule (inside .backend)).bind fun _ => close_rule (inside .control)
  cases fields.started with
  | false => exact .pure fun _ held => held
  | true => exact closeStarted_rule fields fails workers proxy inside outside

theorem serverDestructor_rule (fails : Nat → Bool) (workers proxy : StopCalls)
    (inside : ∀ socket, .server s socket ∈ X) (outside : .stopper s ∉ X) :
    Triple (HoldsAt X n) (serverDestructor s fails workers proxy)
      (fun _ => HoldsAt (X \ own s) n) Ended := by
  have backend : .server s .backend ∈ X \ {.server s .control} := by
    simp [inside]
  have frontend : .server s .frontend ∈ (X \ {.server s .control}) \ {.server s .backend} := by
    simp [inside]
  have all : ((X \ {SocketAddr.server s .control}) \ {.server s .backend}) \
      {.server s .frontend} = X \ own s := by
    ext a
    simp only [own, Set.mem_sdiff, Set.mem_singleton_iff, Set.mem_ofPred_eq, and_assoc]
    refine and_congr_right fun _ => ⟨?_, fun other => ?_⟩
    · rintro ⟨control, backend, frontend⟩ ⟨socket, rfl⟩
      cases socket <;> contradiction
    · exact ⟨fun same => other ⟨_, same⟩, fun same => other ⟨_, same⟩, fun same => other ⟨_, same⟩⟩
  rw [← all]
  have closes := thrown_disciplined (n := n) (serverClose_rule fails workers proxy inside outside)
  refine (noexcept_rule closes).bind fun _ => ?_
  refine (destructor_rule (inside .control)).bind fun _ => ?_
  exact (destructor_rule backend).bind fun _ => destructor_rule frontend

end Servers

section Workers

theorem workerBegins_rule (threadId : Bytes) (fails : Nat → Bool) (outside : .worker n ∉ X) :
    Triple (HoldsAt X n) (workerBegins threadId fails)
      (fun _ => HoldsAt (insert (.worker n) X) (n + 1)) Ended := by
  have inside := Set.mem_insert (SocketAddr.worker n) X
  refine noexcept_rule ?_
  have begins : Triple (HoldsAt X n) (.read Process.begun : Code Nat)
      (fun w p => HoldsAt X n p ∧ w = n) (fun p => Disciplined p.sockets.trace) :=
    .read fun _ held => ⟨held, held.2.1⟩
  refine begins.bind fun w => ?_
  have counts : Triple (fun p => HoldsAt X n p ∧ w = n)
      (.modify fun p => { p with begun := w + 1 } : Code Unit)
      (fun _ p => HoldsAt X (n + 1) p ∧ w = n) (fun p => Disciplined p.sockets.trace) :=
    .modify fun _ held => ⟨⟨held.1.1, congrArg (· + 1) held.2, held.1.2.2⟩, held.2⟩
  refine counts.bind fun _ => ?_
  by_cases same : w = n
  · subst same
    have made := thrown_disciplined (zSocket_rule (n := w + 1) threadId fails outside)
    have connects := thrown_disciplined
      ((request_rule (n := w + 1) (fails 2) inside).bind fun _ => request_rule (fails 3) inside)
    have goesOn := made.bind fun _ => connects
    exact goesOn.weaken (fun _ held => held.1) (fun _ _ held => held) fun _ left' => left'
  · exact fun p held => absurd held.2 same

theorem workerCalls_rule {w : Nat} (fails : Bool) (inside : .worker w ∈ X) :
    Triple (HoldsAt X n) (workerCalls w fails) (fun _ => HoldsAt X n) (HoldsAt X n) :=
  (request_rule fails inside).catching fun _ held => held

theorem workerEnds_rule {w : Nat} (fails : Bool) (inside : .worker w ∈ X) :
    Triple (HoldsAt X n) (workerEnds w fails) (fun _ => HoldsAt (X \ {.worker w}) n) Ended := by
  have closes := thrown_disciplined
    ((disconnect_rule (n := n) fails inside).bind fun _ => close_rule inside)
  exact (noexcept_rule closes).bind fun _ => destructor_rule inside

theorem workerThrows_rule (e : Exn) :
    Triple (HoldsAt X n) (workerThrows e) (fun _ => HoldsAt X n) Ended :=
  noexcept_rule (.throw fun _ held => held.1.1.disciplined)

end Workers

section Runs

/-- A server has its three sockets or none, no local socket is left, and a thread has one
only once it has begun. -/
structure Whole (X : Set SocketAddr) (n : Nat) : Prop where
  servers : ∀ s socket, .server s socket ∈ X → ∀ other, .server s other ∈ X
  stoppers : ∀ s, .stopper s ∉ X
  workers : ∀ w, .worker w ∈ X → w < n

variable {Y : Set SocketAddr}

theorem Whole.empty : Whole ∅ 0 := by
  constructor <;> simp

/-- Channels do not matter. -/
theorem Whole.channels (whole : Whole X n) (same : ∀ a, (∀ k, a ≠ .channel k) → (a ∈ Y ↔ a ∈ X)) :
    Whole Y n where
  servers s socket inside other := by
    rw [same _ (by simp)] at inside ⊢
    exact whole.servers s socket inside other
  stoppers s := by
    rw [same _ (by simp)]
    exact whole.stoppers s
  workers w inside := by
    rw [same _ (by simp)] at inside
    exact whole.workers w inside

theorem Whole.newChannel (whole : Whole X n) (k : Nat) : Whole (insert (.channel k) X) n :=
  whole.channels fun a other => by simp [other k]

theorem Whole.deleteChannel (whole : Whole X n) (k : Nat) : Whole (X \ {.channel k}) n :=
  whole.channels fun a other => by simp [other k]

theorem Whole.newServer (whole : Whole X n) (s : Nat) : Whole (X ∪ own s) n where
  servers t socket inside other := by
    rcases inside with before | ⟨_, same⟩
    · exact .inl (whole.servers t socket before other)
    · obtain ⟨rfl, -⟩ := SocketAddr.server.inj same
      exact .inr ⟨other, rfl⟩
  stoppers t := by
    rintro (before | ⟨_, same⟩)
    · exact whole.stoppers t before
    · cases same
  workers w := by
    rintro (before | ⟨_, same⟩)
    · exact whole.workers w before
    · cases same

theorem Whole.deleteServer (whole : Whole X n) (s : Nat) : Whole (X \ own s) n where
  servers t socket inside other := by
    refine ⟨whole.servers t socket inside.1 other, ?_⟩
    rintro ⟨_, same⟩
    obtain ⟨rfl, -⟩ := SocketAddr.server.inj same
    exact inside.2 ⟨socket, rfl⟩
  stoppers t inside := whole.stoppers t inside.1
  workers w inside := whole.workers w inside.1

theorem Whole.newWorker (whole : Whole X n) : Whole (insert (.worker n) X) (n + 1) where
  servers s socket := by simpa using whole.servers s socket
  stoppers s := by simpa using whole.stoppers s
  workers w := by
    rintro (same | before)
    · obtain rfl := SocketAddr.worker.inj same
      exact Nat.lt_succ_self w
    · exact Nat.lt_succ_of_lt (whole.workers w before)

theorem Whole.endWorker (whole : Whole X n) (w : Nat) : Whole (X \ {.worker w}) n where
  servers s socket := by simpa using whole.servers s socket
  stoppers s := by simpa using whole.stoppers s
  workers v inside := whole.workers v inside.1

variable {p next : Process} {input : ProcessInput}

theorem HoldsAt.inside (held : HoldsAt X n p) : p.sockets.objects a ≠ none ↔ a ∈ X := by
  rw [← held.1.2]
  rfl

theorem HoldsAt.outside (held : HoldsAt X n p) : p.sockets.objects a = none ↔ a ∉ X := by
  rw [← held.inside, not_not]

/-- Whatever is done, the process is whole again when it returns. It is when it throws, too,
or has ended if the code is one that no exception leaves. -/
theorem code_rule (whole : Whole X n) (held : HoldsAt X n p) (admits : p.Admits input) :
    ∃ Y m, Whole Y m ∧
      ((¬input.Noexcept ∧ ∃ Z l, Whole Z l ∧
        Triple (HoldsAt X n) (code input) (fun _ => HoldsAt Y m) (HoldsAt Z l)) ∨
      (input.Noexcept ∧ Triple (HoldsAt X n) (code input) (fun _ => HoldsAt Y m) Ended)) := by
  have sockets {s : Nat} (alive : p.sockets.objects (.server s .frontend) ≠ none) :
      ∀ socket, .server s socket ∈ X := whole.servers s .frontend (held.inside.mp alive)
  cases input with
  | newChannel k threadId fails =>
    exact ⟨_, _, whole.newChannel k, .inl ⟨id, _, _, whole,
      rpcChannel_rule threadId fails (held.outside.mp admits)⟩⟩
  | useChannel k fails =>
    exact ⟨_, _, whole, .inl ⟨id, _, _, whole, request_rule fails (held.inside.mp admits)⟩⟩
  | closeChannel k fails =>
    exact ⟨_, _, whole, .inl ⟨id, _, _, whole, channelClose_rule fails (held.inside.mp admits)⟩⟩
  | deleteChannel k fails =>
    exact ⟨_, _, whole.deleteChannel k, .inr ⟨trivial,
      channelDestructor_rule fails (held.inside.mp admits)⟩⟩
  | newServer s fails =>
    refine ⟨_, _, whole.newServer s, .inl ⟨id, _, _, whole, rpcServer_rule fails
      fun socket inside => ?_⟩⟩
    exact held.outside.mp admits (whole.servers s socket inside .frontend)
  | endPoint s url => exact ⟨_, _, whole, .inl ⟨id, _, _, whole, setServer_rule s _⟩⟩
  | start s noofThreads fails =>
    exact ⟨_, _, whole, .inl ⟨id, _, _, whole, start_rule noofThreads fails (sockets admits)⟩⟩
  | closeServer s fails workers proxy =>
    exact ⟨_, _, whole, .inl ⟨id, _, _, whole,
      serverClose_rule fails workers proxy (sockets admits) (whole.stoppers s)⟩⟩
  | deleteServer s fails workers proxy =>
    exact ⟨_, _, whole.deleteServer s, .inr ⟨trivial,
      serverDestructor_rule fails workers proxy (sockets admits) (whole.stoppers s)⟩⟩
  | workerBegins threadId fails =>
    refine ⟨_, _, whole.newWorker, .inr ⟨trivial, workerBegins_rule threadId fails ?_⟩⟩
    exact fun inside => Nat.lt_irrefl n (whole.workers n inside)
  | workerCalls w fails =>
    exact ⟨_, _, whole, .inl ⟨id, _, _, whole,
      workerCalls_rule fails (held.inside.mp admits)⟩⟩
  | workerEnds w fails =>
    exact ⟨_, _, whole.endWorker w, .inr ⟨trivial,
      workerEnds_rule fails (held.inside.mp admits)⟩⟩
  | workerThrows w e => exact ⟨_, _, whole, .inr ⟨trivial, workerThrows_rule e⟩⟩

def Sound (p : Process) : Prop := ∃ X, Whole X p.begun ∧ HoldsAt X p.begun p

/-- An exception leaves code that no exception leaves. -/
def Escapes (input : ProcessInput) (outcome : Except Exn Unit) : Prop :=
  input.Noexcept ∧ ∃ e, outcome = .error e

/-- Every step that may be taken can be taken. -/
theorem sound_step (sound : Sound p) (admits : p.Admits input) :
    ∃ next outcome, p.step input = some (next, [outcome]) ∧
      ((Sound next ∧ ¬Escapes input outcome) ∨ (Ended next ∧ Escapes input outcome)) := by
  obtain ⟨X, whole, held⟩ := sound
  have taken {next : Process} {outcome : Except Exn Unit}
      (run : code input p = some (outcome, next)) : p.step input = some (next, [outcome]) := by
    rw [step, if_pos ⟨held.2.2, admits⟩, run]
    rfl
  have later {Y : Set SocketAddr} {m : Nat} {next : Process} (whole : Whole Y m)
      (held : HoldsAt Y m next) : Sound next := by
    obtain ⟨holds, rfl, going⟩ := held
    exact ⟨Y, whole, holds, rfl, going⟩
  have returned (outcome : Except Exn Unit) (ok : outcome = .ok ()) : ¬Escapes input outcome := by
    rintro ⟨-, e, rfl⟩
    cases ok
  obtain ⟨Y, m, whole', ⟨open', Z, l, whole'', rule⟩ | ⟨closed, rule⟩⟩ :=
    code_rule whole held admits
  · rcases rule p held with ⟨_, next, run, held'⟩ | ⟨e, next, run, held'⟩
    · exact ⟨next, _, taken run, .inl ⟨later whole' held', returned _ rfl⟩⟩
    · exact ⟨next, _, taken run, .inl ⟨later whole'' held', fun escapes => open' escapes.1⟩⟩
  · rcases rule p held with ⟨_, next, run, held'⟩ | ⟨e, next, run, ended⟩
    · exact ⟨next, _, taken run, .inl ⟨later whole' held', returned _ rfl⟩⟩
    · exact ⟨next, _, taken run, .inr ⟨ended, closed, e, rfl⟩⟩

theorem step_taken {emitted : List (Except Exn Unit)}
    (fired : p.step input = some (next, emitted)) : p.ended = false ∧ p.Admits input := by
  by_contra refused
  rw [step, if_neg refused] at fired
  cases fired

/-- The last thing that was done has let an exception out that ends the process. -/
def EndsWith (inputs : List ProcessInput) (events : List (Except Exn Unit)) : Prop :=
  ∃ input outcome, inputs.getLast? = some input ∧ events.getLast? = some outcome ∧
    Escapes input outcome

theorem run_sound {inputs : List ProcessInput} {events : List (Except Exn Unit)}
    (run : Path (Fires step) {} inputs events p) :
    (Sound p ∧ ¬EndsWith inputs events) ∨ (Ended p ∧ EndsWith inputs events) := by
  refine run.invariant (fun inputs events p => (Sound p ∧ ¬EndsWith inputs events) ∨
    (Ended p ∧ EndsWith inputs events)) (fun inputs events p input emitted next held fired => ?_)
    (.inl ⟨⟨∅, .empty, ⟨.empty, by simp [Memory.alive]⟩, rfl, rfl⟩, by simp [EndsWith]⟩)
  obtain ⟨going, admits⟩ := step_taken fired
  have ends (outcome : Except Exn Unit) : EndsWith (inputs ++ [input]) (events ++ [outcome]) ↔
      Escapes input outcome := by simp [EndsWith]
  rcases held with ⟨sound, -⟩ | ⟨ended, -⟩
  · obtain ⟨next', outcome, stepped, later⟩ := sound_step sound admits
    obtain ⟨rfl, rfl⟩ := Prod.mk.inj (Option.some.inj (stepped.symm.trans fired))
    rwa [ends]
  · rw [ended.1] at going
    cases going

def never : Nat → Bool := fun _ => false

/-- A channel that cannot connect, a `Close` that cannot unbind, a worker that comes to its
end, and what is left. -/
def failing : List ProcessInput :=
  [.newServer 0 never, .endPoint 0 (ascii "tcp://*:5555"), .start 0 1 never,
    .workerBegins (ascii "t9") never, .newChannel 0 (ascii "t1") (· == 2),
    .newChannel 0 (ascii "t1") never, .useChannel 0 false,
    .closeServer 0 (fun _ => true) ⟨never, acceptAll⟩ ⟨never, acceptAll⟩, .workerEnds 0 false,
    .deleteServer 0 never ⟨never, acceptAll⟩ ⟨never, acceptAll⟩, .closeChannel 0 false,
    .useChannel 0 false, .deleteChannel 0 true]

/-- The same `Close` in the destructor ends the process. -/
example : ((execute step [.newServer 0 never, .endPoint 0 (ascii "tcp://*:5555"),
    .start 0 0 never, .deleteServer 0 (fun _ => true) ⟨never, acceptAll⟩ ⟨never, acceptAll⟩]
    {}).map fun outcome => outcome.1.ended) = some true := by
  decide +kernel

end Runs

end Process

end Zqrpc
