import Zqrpc.RpcServer

/-! `Start` up to its threads: the binds of the endpoints and of the three inproc
addresses, any of which may throw into the handler that only logs. -/
namespace Zqrpc

open Numeral

/-- The three sockets of a server. -/
inductive ServerSocket where
  | frontend | backend | control
  deriving DecidableEq

/-- What `EndPoint` and `Start` work on. -/
structure StartState where
  suffix : Bytes
  rpcBindVec : List Bytes := []
  /-- the addresses the sockets are bound to, in the order they were bound -/
  bound : List (ServerSocket × Bytes) := []
  started : Bool := false
  /-- `threads_.size()` -/
  threads : Nat := 0

namespace StartState

def useInprocWorkil (s : StartState) : Bytes := ascii "inproc://zqrpc.workil" ++ s.suffix
def useInprocWorker (s : StartState) : Bytes := ascii "inproc://zqrpc.workers" ++ s.suffix
def useInprocPcontrol (s : StartState) : Bytes := ascii "inproc://zqrpc.pcontrol" ++ s.suffix

def endPoint (s : StartState) (url : Bytes) : StartState :=
  { s with rpcBindVec := s.rpcBindVec ++ [url] }

/-- An address that is bound already cannot be bound. -/
def bind (refused : Bool) (socket : ServerSocket) (url : Bytes) (s : StartState) :
    Except StartState StartState :=
  if refused ∨ url ∈ s.bound.map Prod.snd then .error s
  else .ok { s with bound := s.bound ++ [(socket, url)] }

/-- The loop over `rpc_bind_vec_`, whose first `bind` has the number `k`. -/
def bindLoop (refused : Nat → Bool) (k : Nat) : List Bytes → StartState →
    Except StartState StartState
  | [], s => .ok s
  | url :: rest, s => do
    let s ← s.bind (refused k) .frontend url
    bindLoop refused (k + 1) rest s

/-- `refused` tells which of its `bind` calls fail for a reason of their own; the state
an exception leaves behind is the one `Start` returns with. -/
def start (noofThreads : Nat) (refused : Nat → Bool) (s : StartState) : StartState :=
  let k := s.rpcBindVec.length
  let binds : Except StartState StartState := do
    let s ← bindLoop refused 0 s.rpcBindVec s
    let s ← s.bind (refused k) .frontend s.useInprocWorkil
    let s ← s.bind (refused (k + 1)) .backend s.useInprocWorker
    s.bind (refused (k + 2)) .control s.useInprocPcontrol
  match binds with
  | .ok s => { s with started := true, threads := s.threads + noofThreads }
  | .error s => s

/-- The `bind` calls of `Start` in their order. -/
def calls (s : StartState) : List (ServerSocket × Bytes) :=
  s.rpcBindVec.map (.frontend, ·) ++
    [(.frontend, s.useInprocWorkil), (.backend, s.useInprocWorker),
      (.control, s.useInprocPcontrol)]

/-- A list of `bind` calls, made one after another. -/
def bindAll (refused : Nat → Bool) (k : Nat) : List (ServerSocket × Bytes) → StartState →
    Except StartState StartState
  | [], s => .ok s
  | (socket, url) :: rest, s => do
    let s ← s.bind (refused k) socket url
    bindAll refused (k + 1) rest s

theorem bindLoop_eq (refused : Nat → Bool) (urls : List Bytes) : ∀ (k : Nat) (s : StartState),
    bindLoop refused k urls s = bindAll refused k (urls.map (.frontend, ·)) s := by
  induction urls with
  | nil => exact fun _ _ => rfl
  | cons url rest ih =>
    intro k s
    rw [bindLoop, List.map_cons, bindAll]
    congr 1
    funext s
    exact ih (k + 1) s

theorem bindAll_append (refused : Nat → Bool) (before after : List (ServerSocket × Bytes)) :
    ∀ (k : Nat) (s : StartState), bindAll refused k (before ++ after) s =
      bindAll refused k before s >>= bindAll refused (k + before.length) after := by
  induction before with
  | nil => exact fun _ _ => rfl
  | cons call before ih =>
    intro k s
    obtain ⟨socket, url⟩ := call
    simp only [List.cons_append, bindAll, bind_assoc, List.length_cons]
    congr 1
    funext s
    rw [ih (k + 1) s, Nat.add_right_comm, Nat.add_assoc]

/-- The `bind` call of number `i` does not fail: not for a reason of its own, and its
address is not bound, neither before `Start` nor by an earlier call. -/
def Open (refused : Nat → Bool) (bound calls : List (ServerSocket × Bytes)) (i : Nat) : Prop :=
  refused i = false ∧ ∀ call ∈ calls[i]?, call.2 ∉ (bound ++ calls.take i).map Prod.snd

instance (refused : Nat → Bool) (bound calls : List (ServerSocket × Bytes)) (i : Nat) :
    Decidable (Open refused bound calls i) := inferInstanceAs (Decidable (_ ∧ _))

theorem open_succ (refused : Nat → Bool) (bound rest : List (ServerSocket × Bytes))
    (call : ServerSocket × Bytes) (i : Nat) :
    Open refused bound (call :: rest) (i + 1) ↔
      Open (fun j => refused (j + 1)) (bound ++ [call]) rest i := by
  simp [Open]

/-- The binds succeed up to the first that fails, and those before it stay. -/
theorem bindAll_cases (calls : List (ServerSocket × Bytes)) :
    ∀ (refused : Nat → Bool) (k : Nat) (s : StartState),
      ((∀ i < calls.length, Open (fun j => refused (k + j)) s.bound calls i) ∧
        bindAll refused k calls s = .ok { s with bound := s.bound ++ calls }) ∨
      ∃ i < calls.length, ¬Open (fun j => refused (k + j)) s.bound calls i ∧
        (∀ j < i, Open (fun j => refused (k + j)) s.bound calls j) ∧
        bindAll refused k calls s = .error { s with bound := s.bound ++ calls.take i } := by
  induction calls with
  | nil => exact fun _ _ s => .inl ⟨by simp, by simp [bindAll]⟩
  | cons call rest ih =>
    intro refused k s
    obtain ⟨socket, url⟩ := call
    have shift : (fun j => refused (k + (j + 1))) = fun j => refused (k + 1 + j) := by
      funext j
      congr 1
      omega
    by_cases fails : refused k = true ∨ url ∈ s.bound.map Prod.snd
    · have failed : bindAll refused k ((socket, url) :: rest) s = .error s := by
        rw [bindAll, bind, if_pos fails]
        rfl
      refine .inr ⟨0, by simp, fun first => ?_, by simp, by simp [failed]⟩
      rcases fails with refuses | taken
      · rw [show refused k = false from first.1] at refuses
        cases refuses
      · exact first.2 (socket, url) rfl (by simpa using taken)
    have first : Open (fun j => refused (k + j)) s.bound ((socket, url) :: rest) 0 := by
      rw [not_or] at fails
      refine ⟨Bool.eq_false_of_not_eq_true fails.1, fun call head => ?_⟩
      obtain rfl := Option.some.inj head
      simpa using fails.2
    have step : bindAll refused k ((socket, url) :: rest) s =
        bindAll refused (k + 1) rest { s with bound := s.bound ++ [(socket, url)] } := by
      rw [bindAll, bind, if_neg fails]
      rfl
    rw [step]
    rcases ih refused (k + 1) { s with bound := s.bound ++ [(socket, url)] } with
      ⟨all, done⟩ | ⟨i, inside, stops, before, done⟩
    · refine .inl ⟨fun i inside => ?_, by simpa using done⟩
      cases i with
      | zero => exact first
      | succ i =>
        rw [open_succ, shift]
        exact all i (by simpa using inside)
    · refine .inr ⟨i + 1, by simpa using inside, ?_, fun j earlier => ?_, by simpa using done⟩
      · rw [open_succ, shift]
        exact stops
      · cases j with
        | zero => exact first
        | succ j =>
          rw [open_succ, shift]
          exact before j (by omega)

/-- A `bind` changes no name of another address. -/
theorem bind_cases (refused : Bool) (socket : ServerSocket) (url : Bytes) (s : StartState) :
    s.bind refused socket url = .error s ∨
      s.bind refused socket url = .ok { s with bound := s.bound ++ [(socket, url)] } := by
  unfold bind
  split
  · exact .inl rfl
  · exact .inr rfl

theorem inprocs_eq (refused : Nat → Bool) (k : Nat) (s : StartState) :
    (do
      let s ← s.bind (refused k) .frontend s.useInprocWorkil
      let s ← s.bind (refused (k + 1)) .backend s.useInprocWorker
      s.bind (refused (k + 2)) .control s.useInprocPcontrol) =
    bindAll refused k [(.frontend, s.useInprocWorkil), (.backend, s.useInprocWorker),
      (.control, s.useInprocPcontrol)] s := by
  simp only [bindAll]
  rcases bind_cases (refused k) .frontend s.useInprocWorkil s with failed | done
  · rw [failed]
    rfl
  rw [done]
  change bind (refused (k + 1)) .backend s.useInprocWorker _ >>= _ =
    bind (refused (k + 1)) .backend s.useInprocWorker _ >>= _
  rcases bind_cases (refused (k + 1)) .backend s.useInprocWorker
    { s with bound := s.bound ++ [(.frontend, s.useInprocWorkil)] } with failed | done
  · rw [failed]
    rfl
  rw [done]
  exact (bind_pure _).symm

/-- `Start` makes its `bind` calls until one of them throws. -/
theorem start_eq (noofThreads : Nat) (refused : Nat → Bool) (s : StartState) :
    start noofThreads refused s = match bindAll refused 0 (calls s) s with
      | .ok s => { s with started := true, threads := s.threads + noofThreads }
      | .error s => s := by
  rw [start, bindLoop_eq, calls, bindAll_append, List.length_map, Nat.zero_add]
  simp only [inprocs_eq]
  rcases bindAll_cases (s.rpcBindVec.map (ServerSocket.frontend, ·)) refused 0 s with
    ⟨_, done⟩ | ⟨i, _, _, _, done⟩
  · rw [done]
    rfl
  · rw [done]
    rfl

/-- Everything `Start` does: all its calls succeed, or those before the first that
fails stay. -/
theorem start_cases (noofThreads : Nat) (refused : Nat → Bool) (s : StartState) :
    ((∀ i < (calls s).length, Open refused s.bound (calls s) i) ∧
      start noofThreads refused s = { s with
        bound := s.bound ++ calls s, started := true, threads := s.threads + noofThreads }) ∨
    ∃ i < (calls s).length, ¬Open refused s.bound (calls s) i ∧
      (∀ j < i, Open refused s.bound (calls s) j) ∧
      start noofThreads refused s = { s with bound := s.bound ++ (calls s).take i } := by
  rw [start_eq]
  have cases' := bindAll_cases (calls s) refused 0 s
  simp only [Nat.zero_add] at cases'
  rcases cases' with ⟨all, done⟩ | ⟨i, inside, stops, before, done⟩
  · exact .inl ⟨all, by rw [done]⟩
  · exact .inr ⟨i, inside, stops, before, by rw [done]⟩

/-- The server that `Start` goes on with. -/
def server (s : StartState) (noreply : Bool) : RpcServer :=
  { noreply, rpcBindVec := s.rpcBindVec, started := s.started, pool := .start s.threads }

/-- A server whose binds all succeed runs as the server of the `Close` runs does. -/
theorem start_server (noreply : Bool) (noofThreads : Nat) (refused : Nat → Bool) (s : StartState)
    (idle : s.threads = 0) (opens : ∀ i < (calls s).length, Open refused s.bound (calls s) i) :
    (start noofThreads refused s).server noreply =
      RpcServer.start noreply s.rpcBindVec noofThreads := by
  rcases start_cases noofThreads refused s with ⟨_, done⟩ | ⟨i, inside, stops, _⟩
  · rw [done, server, idle, Nat.zero_add]
    rfl
  · exact absurd (opens i inside) stops

/-- No address comes twice, and none of them is bound. -/
def Apart (s : StartState) : Prop := ((s.bound ++ calls s).map Prod.snd).Nodup

instance (s : StartState) : Decidable s.Apart := inferInstanceAs (Decidable (List.Nodup _))

/-- A call of `Start` that fails leaves nothing behind, so that another one succeeds
when nothing is in its way. -/
structure AllOrNothing (noofThreads : Nat) (refused : Nat → Bool) (s : StartState) : Prop where
  bound : (start noofThreads refused s).started = false →
    (start noofThreads refused s).bound = s.bound
  threads : (start noofThreads refused s).started = false →
    (start noofThreads refused s).threads = s.threads
  retry : (start noofThreads refused s).started = false → s.Apart → ∀ requested,
    start requested (fun _ => false) (start noofThreads refused s) = { s with
      bound := s.bound ++ calls s, started := true, threads := s.threads + requested }

theorem Apart.opens {s : StartState} (apart : s.Apart) (i : Nat) :
    Open (fun _ => false) s.bound (calls s) i := by
  refine ⟨rfl, fun call here taken => ?_⟩
  have split := List.take_append_drop i (calls s)
  have next : (calls s).drop i = call :: (calls s).drop (i + 1) := by
    obtain ⟨inside, rfl⟩ := List.getElem?_eq_some_iff.mp here
    exact List.drop_eq_getElem_cons inside
  rw [next] at split
  rw [Apart, ← split, ← List.append_assoc, List.map_append, List.map_cons] at apart
  exact (List.nodup_append.mp apart).2.2 _ taken _ (List.mem_cons_self) rfl

/-- A server that is not started comes out of `Start` all or nothing exactly when all the
`bind` calls succeed or the first one fails. -/
theorem start_all_or_nothing_iff (noofThreads : Nat) (refused : Nat → Bool) (s : StartState)
    (fresh : s.started = false) :
    AllOrNothing noofThreads refused s ↔
      (∀ i < (calls s).length, Open refused s.bound (calls s) i) ∨
        ¬Open refused s.bound (calls s) 0 := by
  rcases start_cases noofThreads refused s with ⟨all, done⟩ | ⟨i, inside, stops, before, done⟩
  · refine ⟨fun _ => .inl all, fun _ => ?_⟩
    constructor <;> rw [done] <;> exact fun failed => absurd failed (by simp)
  constructor
  · intro nothing
    have unchanged := nothing.bound (by rw [done]; exact fresh)
    rw [done] at unchanged
    have none' : (calls s).take i = [] := by simpa using unchanged
    rcases List.take_eq_nil_iff.mp none' with rfl | empty
    · exact .inr stops
    · rw [empty] at inside
      cases inside
  · rintro (all | first)
    · exact absurd (all i inside) stops
    · obtain rfl : i = 0 := by
        by_contra later
        exact first (before 0 (by omega))
      have same : start noofThreads refused s = s := by simpa using done
      refine ⟨fun _ => by rw [same], fun _ => by rw [same], fun _ apart requested => ?_⟩
      rw [same]
      rcases start_cases requested (fun _ => false) s with ⟨_, done⟩ | ⟨i, _, stops, _⟩
      · exact done
      · exact absurd (apart.opens i) stops

/-- A server with two endpoints. -/
def twoEndpoints : StartState :=
  ((⟨[], [], [], false, 0⟩ : StartState).endPoint (ascii "tcp://*:5555")).endPoint
    (ascii "tcp://*:5556")

theorem start_all_or_nothing_iff_first : AllOrNothing 3 (fun i => i == 0) twoEndpoints :=
  (start_all_or_nothing_iff 3 (fun i => i == 0) twoEndpoints rfl).mpr (.inr (by decide))

/-- The second endpoint is in use, and the first one stays bound. -/
theorem second_bind_leaves_first : ¬∀ (noofThreads : Nat) (refused : Nat → Bool) (s : StartState),
    s.started = false → AllOrNothing noofThreads refused s := by
  intro claim
  have nothing := (claim 3 (fun i => i == 1) twoEndpoints rfl).bound (by decide)
  exact absurd nothing (by decide)

end StartState

end Zqrpc
