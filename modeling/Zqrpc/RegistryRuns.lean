import Zqrpc.Registry
import Zqrpc.Path

/-! The method table over all sequences of registrations and removals: its pointers, and
the table it should be. Both go wrong as soon as something is removed. -/
namespace Zqrpc

open Numeral Steps

/-- The entries of the table and of the workers' copies point to objects that have not been
deleted, and none was deleted twice. -/
structure Registry.Owned (r : Registry) : Prop where
  live : ∀ map ∈ r.rpcMethodMap :: r.workers, ∀ opcode address,
    map.lookup opcode = some address → address < r.built.length ∧ address ∉ r.deleted
  once : r.deleted.Nodup

/-- `RemoveService` finds none of the methods of its service in the table. -/
def Spared (r : Registry) : RegistryInput → Prop
  | .removeService service => ∀ m ∈ service.methods, r.rpcMethodMap.lookup m.fullName = none
  | _ => True

instance (r : Registry) : (input : RegistryInput) → Decidable (Spared r input)
  | .registerService _ => isTrue trivial
  | .removeService service =>
    inferInstanceAs (Decidable (∀ m ∈ service.methods, r.rpcMethodMap.lookup m.fullName = none))
  | .startWorker => isTrue trivial
  | .stopWorker _ => isTrue trivial

/-- Nothing has been deleted, and every entry points to an object that was built. -/
structure Intact (r : Registry) : Prop where
  kept : r.deleted = []
  bound : ∀ map ∈ r.rpcMethodMap :: r.workers, ∀ opcode address,
    map.lookup opcode = some address → address < r.built.length

theorem Intact.owned {r : Registry} (intact : Intact r) : r.Owned where
  live := fun map member opcode address entry =>
    ⟨intact.bound map member opcode address entry, by simp [intact.kept]⟩
  once := by simp [intact.kept]

/-- What one turn of the loop of `RegisterService` does. -/
theorem registerMethod_cases (object : Ptr) (r : Registry) (events : List RegistryEvent)
    (m : ServiceMethod) : ∃ map,
    registerMethod object (r, events) m =
      ({ r with built := r.built ++ [newRpcMethod object m], rpcMethodMap := map },
        events ++ [.built m.fullName r.built.length (newRpcMethod object m)]) ∧
    ((r.rpcMethodMap.lookup m.fullName = none ∧
        map = r.rpcMethodMap.insert m.fullName r.built.length) ∨
      ∃ address, r.rpcMethodMap.lookup m.fullName = some address ∧ map = r.rpcMethodMap) := by
  cases entry : r.rpcMethodMap.lookup m.fullName with
  | none => exact ⟨_, by simp only [registerMethod, entry], .inl ⟨rfl, rfl⟩⟩
  | some address => exact ⟨_, by simp only [registerMethod, entry], .inr ⟨address, rfl, rfl⟩⟩

theorem intact_registerMethod {r : Registry} (intact : Intact r) (object : Ptr)
    (events : List RegistryEvent) (m : ServiceMethod) :
    Intact (registerMethod object (r, events) m).1 := by
  obtain ⟨map, same, table⟩ := registerMethod_cases object r events m
  rw [same]
  refine ⟨intact.kept, fun copy member opcode address entry => ?_⟩
  change address < (r.built ++ [newRpcMethod object m]).length
  rw [List.length_append, List.length_singleton]
  rcases List.mem_cons.mp member with rfl | old
  · change copy.lookup opcode = some address at entry
    rcases table with ⟨_, rfl⟩ | ⟨_, _, rfl⟩
    · by_cases new : opcode = m.fullName
      · rw [new, Finmap.lookup_insert, Option.some.injEq] at entry
        omega
      · rw [Finmap.lookup_insert_of_ne _ new] at entry
        exact Nat.lt_succ_of_lt (intact.bound _ List.mem_cons_self opcode address entry)
    · exact Nat.lt_succ_of_lt (intact.bound _ List.mem_cons_self opcode address entry)
  · exact Nat.lt_succ_of_lt
      (intact.bound copy (List.mem_cons_of_mem _ old) opcode address entry)

/-- `RemoveService` of a service that is not in the table does nothing. -/
theorem removeService_spared {r : Registry} {service : Service}
    (spared : ∀ m ∈ service.methods, r.rpcMethodMap.lookup m.fullName = none) :
    removeService service r =
      (r, service.methods.map fun m => .removed m.fullName) := by
  have walk (methods : List ServiceMethod) (events : List RegistryEvent)
      (absent : ∀ m ∈ methods, r.rpcMethodMap.lookup m.fullName = none) :
      methods.foldl removeMethod (r, events) =
        (r, events ++ methods.map fun m => .removed m.fullName) := by
    induction methods generalizing events with
    | nil => simp
    | cons m methods ih =>
      have turn : removeMethod (r, events) m = (r, events ++ [.removed m.fullName]) := by
        simp only [removeMethod, absent m List.mem_cons_self]
      rw [List.foldl_cons, turn, ih _ fun m' member => absent m' (List.mem_cons_of_mem m member)]
      simp
  simpa [removeService] using walk service.methods [] spared

/-- The objects of all methods in the table are deleted, and the table stays. -/
theorem removeService_deletes (r : Registry) (service : Service) :
    (removeService service r).1.rpcMethodMap = r.rpcMethodMap ∧
    (removeService service r).2 = service.methods.map (fun m => .removed m.fullName) ∧
    ∀ m ∈ service.methods, ∀ address, r.rpcMethodMap.lookup m.fullName = some address →
      address ∈ (removeService service r).1.deleted := by
  have walk (methods : List ServiceMethod) (events : List RegistryEvent) (r : Registry) :
      let result := methods.foldl removeMethod (r, events)
      result.1.rpcMethodMap = r.rpcMethodMap ∧
      result.2 = events ++ methods.map (fun m => .removed m.fullName) ∧
      (∀ address ∈ r.deleted, address ∈ result.1.deleted) ∧
      ∀ m ∈ methods, ∀ address, r.rpcMethodMap.lookup m.fullName = some address →
        address ∈ result.1.deleted := by
    induction methods generalizing events r with
    | nil => simp
    | cons m methods ih =>
      obtain ⟨r', turn, table, older, newer⟩ : ∃ r',
          removeMethod (r, events) m = (r', events ++ [.removed m.fullName]) ∧
          r'.rpcMethodMap = r.rpcMethodMap ∧ (∀ address ∈ r.deleted, address ∈ r'.deleted) ∧
          ∀ address, r.rpcMethodMap.lookup m.fullName = some address →
            address ∈ r'.deleted := by
        cases entry : r.rpcMethodMap.lookup m.fullName with
        | none => exact ⟨r, by simp only [removeMethod, entry], rfl, fun _ h => h, by simp⟩
        | some address =>
          refine ⟨{ r with deleted := r.deleted ++ [address] }, ?_, rfl, ?_, ?_⟩
          · simp only [removeMethod, entry]
          · exact fun older member => List.mem_append_left _ member
          · rintro _ ⟨⟩
            exact List.mem_append_right _ (List.mem_singleton_self _)
      obtain ⟨map, emitted, kept, gone⟩ := ih (events ++ [.removed m.fullName]) r'
      simp only [List.foldl_cons, turn]
      refine ⟨map.trans table, by rw [emitted]; simp, fun address h => kept _ (older _ h), ?_⟩
      intro m' member address entry
      rcases List.mem_cons.mp member with rfl | later
      · exact kept _ (newer address entry)
      · exact gone m' later address (by rw [table, entry])
  obtain ⟨map, emitted, _, gone⟩ := walk service.methods [] r
  exact ⟨map, emitted, gone⟩

/-- What every turn of the loop keeps, `RegisterService` keeps. -/
theorem registerService_keeps (property : Registry → List RegistryEvent → Prop)
    (service : Service) (r : Registry) (initial : property r [])
    (turn : ∀ r events m, property r events →
      property (registerMethod service.object (r, events) m).1
        (registerMethod service.object (r, events) m).2) :
    property (registerService service r).1 (registerService service r).2 := by
  have walk (methods : List ServiceMethod) (state : Registry × List RegistryEvent)
      (holds : property state.1 state.2) :
      property (methods.foldl (registerMethod service.object) state).1
        (methods.foldl (registerMethod service.object) state).2 := by
    induction methods generalizing state with
    | nil => exact holds
    | cons m methods ih => exact ih _ (turn state.1 state.2 m holds)
  exact walk service.methods (r, []) initial

theorem intact_step {r next : Registry} {input : RegistryInput} {emitted : List RegistryEvent}
    (intact : Intact r) (spared : Spared r input) (fired : r.step input = some (next, emitted)) :
    Intact next := by
  cases input with
  | registerService service =>
    have kept := registerService_keeps (fun r _ => Intact r) service r intact
      fun r events m intact => intact_registerMethod intact service.object events m
    rwa [show registerService service r = (next, emitted) from Option.some.inj fired] at kept
  | removeService service =>
    have same := Option.some.inj fired
    rw [removeService_spared spared] at same
    exact (Prod.mk.inj same).1 ▸ intact
  | startWorker =>
    obtain ⟨rfl, _⟩ := Prod.mk.inj (Option.some.inj fired)
    refine ⟨intact.kept, fun map member => ?_⟩
    have known : map ∈ r.rpcMethodMap :: r.workers := by
      rcases List.mem_cons.mp member with rfl | copied
      · exact List.mem_cons_self
      · rcases List.mem_append.mp copied with old | new
        · exact List.mem_cons_of_mem _ old
        · rw [List.mem_singleton.mp new]
          exact List.mem_cons_self
    exact intact.bound map known
  | stopWorker k =>
    simp only [Registry.step] at fired
    split at fired
    · obtain ⟨rfl, _⟩ := Prod.mk.inj (Option.some.inj fired)
      refine ⟨intact.kept, fun map member => intact.bound map ?_⟩
      rcases List.mem_cons.mp member with rfl | copied
      · exact List.mem_cons_self
      · exact List.mem_cons_of_mem _ (List.mem_of_mem_eraseIdx copied)
    · cases fired

theorem intact_initial : Intact {} := by
  refine ⟨rfl, fun map member opcode address entry => ?_⟩
  rw [List.mem_singleton.mp member, Finmap.lookup_empty] at entry
  cases entry

theorem run_intact (run : Path (Meeting Spared (Fires Registry.step)) {} inputs events r) :
    Intact r :=
  run.state_invariant Intact
    (fun _ _ _ _ intact fired => intact_step intact fired.1 fired.2) intact_initial

/-- A removal of a service that is in the table leaves a pointer to a deleted object. -/
theorem spared_of_owned {r next : Registry} {input : RegistryInput}
    {emitted : List RegistryEvent} (owned : next.Owned)
    (fired : r.step input = some (next, emitted)) : Spared r input := by
  cases input with
  | removeService service =>
    intro m member
    by_contra present
    obtain ⟨address, entry⟩ := Option.ne_none_iff_exists'.mp present
    obtain ⟨table, _, gone⟩ := removeService_deletes r service
    rw [show removeService service r = (next, _) from Option.some.inj fired] at table gone
    exact (owned.live _ List.mem_cons_self m.fullName address (by rw [table, entry])).2
      (gone m member address entry)
  | _ => trivial

/-- The table and the copies own what they point to, in all states of a run, exactly when
the run removes no service that is in the table. -/
theorem registry_owned_iff :
    Path (Reaching Registry.Owned (Fires Registry.step)) {} inputs events r ↔
    Path (Meeting Spared (Fires Registry.step)) {} inputs events r := by
  apply Path.reaching_iff_meeting Intact
  · exact fun r input emitted next intact spared fired => intact_step intact spared fired
  · intro r input emitted next intact fired
    exact ⟨fun owned => spared_of_owned owned fired,
      fun spared => (intact_step intact spared fired).owned⟩
  · exact intact_initial

def echoService (object : Ptr) : Service := ⟨object, [⟨ascii "m", 1, 2, 3⟩]⟩

/-- One registration and one removal leave a pointer to a deleted object in the table. -/
theorem removed_method_dangles : ¬∀ inputs events r,
    Path (Fires Registry.step) {} inputs events r → r.Owned := by
  intro claim
  have run : ∃ events r, execute Registry.step
      [.registerService (echoService 7), .removeService (echoService 7)] {} = some (r, events) ∧
      r.rpcMethodMap.lookup (ascii "m") = some 0 ∧ r.deleted = [0] := ⟨_, _, rfl, rfl, rfl⟩
  obtain ⟨events, r, run, entry, deleted⟩ := run
  have live := (claim _ events r (execute_path run)).live _ List.mem_cons_self _ _ entry
  rw [deleted] at live
  exact live.2 List.mem_cons_self

def RegistryEvent.builtFor (opcode : Bytes) : RegistryEvent → Option (Nat × RpcMethod)
  | .built opcode' address rpcMethod => if opcode' = opcode then some (address, rpcMethod) else none
  | .removed _ => none

/-- What happened after the last removal of an opcode. -/
def sinceRemoved (opcode : Bytes) (events : List RegistryEvent) : List RegistryEvent :=
  events.rtakeWhile fun e => e ≠ .removed opcode

/-- The abstract method table: an opcode is served by the first object built for it since
it was last removed. -/
def served (opcode : Bytes) (events : List RegistryEvent) : Option (Nat × RpcMethod) :=
  (sinceRemoved opcode events).findSome? (RegistryEvent.builtFor opcode)

/-- A copy of the table finds what the abstract table serves, at objects that live. -/
structure Refines (events : List RegistryEvent) (r : Registry) (copy : RpcMethodPtrMapT) :
    Prop where
  finds : ∀ opcode, copy.lookup opcode = (served opcode events).map Prod.fst
  live : ∀ opcode address rpcMethod, served opcode events = some (address, rpcMethod) →
    address ∉ r.deleted ∧ r.built[address]? = some rpcMethod

theorem served_built (opcode opcode' : Bytes) (address : Nat) (rpcMethod : RpcMethod)
    (events : List RegistryEvent) :
    served opcode (events ++ [.built opcode' address rpcMethod]) =
      (served opcode events).or
        (if opcode' = opcode then some (address, rpcMethod) else none) := by
  rw [served, sinceRemoved, List.rtakeWhile_concat_pos _ _ _ (by simp), List.findSome?_append]
  simp [served, sinceRemoved, RegistryEvent.builtFor]

theorem served_removed (opcode opcode' : Bytes) (events : List RegistryEvent) :
    served opcode (events ++ [.removed opcode']) =
      if opcode' = opcode then none else served opcode events := by
  rw [served, sinceRemoved, List.rtakeWhile_concat]
  by_cases same : opcode' = opcode
  · simp [same]
  · simp [same, served, sinceRemoved, RegistryEvent.builtFor]

theorem served_removals (opcode : Bytes) (events : List RegistryEvent)
    (methods : List ServiceMethod) :
    served opcode (events ++ methods.map fun m => .removed m.fullName) =
      if ∃ m ∈ methods, m.fullName = opcode then none else served opcode events := by
  induction methods using List.reverseRecOn with
  | nil => simp
  | append_singleton methods m ih =>
    rw [List.map_append, ← List.append_assoc, List.map_singleton, served_removed, ih]
    by_cases last : m.fullName = opcode
    · simp [last]
    · simp [last, or_and_right, exists_or]

theorem refines_registerMethod {past emitted : List RegistryEvent} {r : Registry}
    (intact : Intact r) (refines : Refines (past ++ emitted) r r.rpcMethodMap) (object : Ptr)
    (m : ServiceMethod) :
    Refines (past ++ (registerMethod object (r, emitted) m).2)
      (registerMethod object (r, emitted) m).1
      (registerMethod object (r, emitted) m).1.rpcMethodMap := by
  obtain ⟨map, same, table⟩ := registerMethod_cases object r emitted m
  rw [same, ← List.append_assoc]
  constructor
  · intro opcode
    rw [served_built]
    change map.lookup opcode = _
    by_cases own : m.fullName = opcode
    · subst own
      have before := refines.finds m.fullName
      rcases table with ⟨absent, rfl⟩ | ⟨address, present, rfl⟩
      · rw [absent, eq_comm, Option.map_eq_none_iff] at before
        rw [before, Finmap.lookup_insert]
        simp
      · rw [present] at before
        obtain ⟨entry, serves, _⟩ := Option.map_eq_some_iff.mp before.symm
        rw [present, before, serves]
        simp
    · have kept : map.lookup opcode = r.rpcMethodMap.lookup opcode := by
        rcases table with ⟨_, rfl⟩ | ⟨_, _, rfl⟩
        · exact Finmap.lookup_insert_of_ne _ (Ne.symm own)
        · rfl
      rw [kept, refines.finds, if_neg own, Option.or_none]
  · intro opcode address found serves
    rw [served_built] at serves
    refine ⟨by simp [intact.kept], ?_⟩
    rcases Option.or_eq_some_iff.mp serves with old | ⟨_, new⟩
    · have stored := (refines.live opcode address found old).2
      have inside : address < r.built.length := (List.getElem?_eq_some_iff.mp stored).1
      exact (List.getElem?_append_left inside).trans stored
    · split at new
      · obtain ⟨rfl, rfl⟩ := Prod.mk.inj (Option.some.inj new)
        exact List.getElem?_concat_length
      · cases new

theorem refines_step {past emitted : List RegistryEvent} {r next : Registry}
    {input : RegistryInput} (intact : Intact r) (refines : Refines past r r.rpcMethodMap)
    (fired : r.step input = some (next, emitted)) :
    Refines (past ++ emitted) next next.rpcMethodMap ↔ Spared r input := by
  cases input with
  | registerService service =>
    refine iff_of_true ?_ trivial
    have kept := registerService_keeps
      (fun r emitted => Intact r ∧ Refines (past ++ emitted) r r.rpcMethodMap) service r
      ⟨intact, by rwa [List.append_nil]⟩
      fun r events m holds => ⟨intact_registerMethod holds.1 service.object events m,
        refines_registerMethod holds.1 holds.2 service.object m⟩
    rw [show registerService service r = (next, emitted) from Option.some.inj fired] at kept
    exact kept.2
  | removeService service =>
    have removes : removeService service r = (next, emitted) := Option.some.inj fired
    constructor
    · intro later m member
      obtain ⟨table, removals, _⟩ := removeService_deletes r service
      rw [removes] at table removals
      change next.rpcMethodMap = r.rpcMethodMap at table
      change emitted = _ at removals
      have found := later.finds m.fullName
      rwa [removals, served_removals, if_pos ⟨m, member, rfl⟩, table] at found
    · intro spared
      rw [removeService_spared spared] at removes
      obtain ⟨rfl, rfl⟩ := Prod.mk.inj removes
      constructor
      · intro opcode
        rw [served_removals]
        split
        · rename_i removed
          obtain ⟨m, member, rfl⟩ := removed
          exact spared m member
        · exact refines.finds opcode
      · intro opcode address rpcMethod serves
        rw [served_removals] at serves
        split at serves
        · cases serves
        · exact refines.live opcode address rpcMethod serves
  | startWorker =>
    obtain ⟨rfl, rfl⟩ := Prod.mk.inj (Option.some.inj fired)
    rw [List.append_nil]
    exact iff_of_true ⟨refines.finds, refines.live⟩ trivial
  | stopWorker k =>
    simp only [Registry.step] at fired
    split at fired
    · obtain ⟨rfl, rfl⟩ := Prod.mk.inj (Option.some.inj fired)
      rw [List.append_nil]
      exact iff_of_true ⟨refines.finds, refines.live⟩ trivial
    · cases fired

theorem run_refines (run : Path (Meeting Spared (Fires Registry.step)) {} inputs events r) :
    Refines events r r.rpcMethodMap := by
  induction run with
  | nil => exact ⟨fun _ => rfl, fun _ _ _ serves => by cases serves⟩
  | snoc earlier last ih =>
    exact (refines_step (run_intact earlier) ih last.2).mpr last.1

/-- The table as a worker reads it. -/
theorem Refines.pointed {events : List RegistryEvent} {r : Registry} {copy : RpcMethodPtrMapT}
    (refines : Refines events r copy) (opcode : Bytes) :
    (pointed r.built copy).lookup opcode = (served opcode events).map Prod.snd := by
  rw [Zqrpc.pointed, lookup_mapValues, refines.finds]
  cases serves : served opcode events with
  | none => rfl
  | some found =>
    have stored := (refines.live opcode found.1 found.2 serves).2
    simp [stored]

/-- What a worker does with an opcode its table does not have. -/
theorem process_absent {Msg : Type} (pb : Protobuf Msg) {map : RpcMethodMapT} {opcode : Bytes}
    (absent : map.lookup opcode = none) (handler : Handler Msg) (buffer : Bytes) :
    (process pb map handler opcode buffer).2 = .error (.zerror ⟨.noSuchMethod, cStr []⟩) := by
  simp only [process, absent]

/-- While nothing in the table is removed, a worker started in a run finds what the abstract
table serves, and the first removal of something in the table ends that. -/
theorem registry_refines (run : Path (Meeting Spared (Fires Registry.step)) {} inputs events r) :
    (∀ next emitted, r.step .startWorker = some (next, emitted) → ∃ copy,
      next.workers = r.workers ++ [copy] ∧ Refines events next copy ∧
      ∀ opcode, served opcode events = none →
        ∀ (Msg : Type) (pb : Protobuf Msg) (handler : Handler Msg) (buffer : Bytes),
          (process pb (pointed next.built copy) handler opcode buffer).2 =
            .error (.zerror ⟨.noSuchMethod, cStr []⟩)) ∧
    ∀ input emitted next, r.step input = some (next, emitted) →
      (Refines (events ++ emitted) next next.rpcMethodMap ↔ Spared r input) := by
  have refines := run_refines run
  refine ⟨fun next emitted fired => ?_, fun input emitted next fired =>
    refines_step (run_intact run) refines fired⟩
  obtain ⟨rfl, _⟩ := Prod.mk.inj (Option.some.inj fired)
  refine ⟨r.rpcMethodMap, rfl, ⟨refines.finds, refines.live⟩, fun opcode unserved => ?_⟩
  intro Msg pb handler buffer
  apply process_absent
  rw [refines.pointed, unserved]
  rfl

/-- Two registrations for one opcode, of which the first serves it. -/
theorem registry_refines_echo : ∃ events r,
    Path (Meeting Spared (Fires Registry.step)) {}
      [.registerService (echoService 7), .registerService (echoService 8)] events r ∧
    ∃ copy, Refines events { r with workers := r.workers ++ [r.rpcMethodMap] } copy := by
  have run : ∃ events r, execute (restrict Spared Registry.step)
      [.registerService (echoService 7), .registerService (echoService 8)] {} =
        some (r, events) := ⟨_, _, rfl⟩
  obtain ⟨events, r, run⟩ := run
  obtain ⟨copy, _, refines, _⟩ := (registry_refines (restrict_path run)).1 _ _ rfl
  exact ⟨events, r, restrict_path run, copy, refines⟩

/-- An opcode that was removed and is served by nobody is still found. -/
theorem removed_method_found : ¬∀ inputs events r next emitted,
    Path (Fires Registry.step) {} inputs events r →
    r.step .startWorker = some (next, emitted) → ∃ copy,
      next.workers = r.workers ++ [copy] ∧ Refines events next copy := by
  intro claim
  have run : ∃ events r, execute Registry.step
      [.registerService (echoService 7), .removeService (echoService 7)] {} = some (r, events) ∧
      r.rpcMethodMap.lookup (ascii "m") = some 0 ∧ served (ascii "m") events = none :=
    ⟨_, _, rfl, rfl, rfl⟩
  obtain ⟨events, r, run, entry, unserved⟩ := run
  obtain ⟨copy, workers, refines⟩ := claim _ events r _ _ (execute_path run) rfl
  obtain rfl := List.append_singleton_inj.mp workers |>.2
  have found := refines.finds (ascii "m")
  rw [unserved, entry] at found
  cases found

end Zqrpc
