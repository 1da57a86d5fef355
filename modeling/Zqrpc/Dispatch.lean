import Zqrpc.ServiceGenerator
import Zqrpc.RegistryRuns
import Zqrpc.RpcWorkerRules

/-! Stub, table and generated dispatch agree. The stub and the three switches number the
methods on their own, and the table names them; what ties them together is the descriptor. -/
namespace Zqrpc

open Numeral Steps

/-- A switch over cases labelled by their places takes the case at the place. -/
theorem switch_mapIdx {A C : Type} (f : Nat → A → C) (label : C → Bytes)
    (labelled : ∀ i a, label (f i a) = decimal i) {items : List A} {i : Nat} {a : A}
    (place : items[i]? = some a) : switch label (items.mapIdx f) i = some (f i a) := by
  obtain ⟨inside, same⟩ := List.getElem?_eq_some_iff.mp place
  apply List.find?_eq_some_iff_getElem.mpr
  refine ⟨by simp [labelled, value_decimal], i, by simpa using inside, by simp [same], ?_⟩
  intro j before
  simpa [labelled, value_decimal] using Nat.ne_of_lt before

/-- What protobuf promises of descriptors and default instances. -/
structure World.Lawful {Msg : Type} (world : World Msg) : Prop where
  index : ∀ service i method, (world.services service)[i]? = some method →
    (world.methods method).index = i
  service : ∀ service, ∀ method ∈ world.services service, (world.methods method).service = service
  unique : ∀ service service' method method', method ∈ world.services service →
    method' ∈ world.services service' →
    (world.methods method).fullName = (world.methods method').fullName → method = method'
  newClass : ∀ service, ∀ method ∈ world.services service, ∀ which : RequestOrResponse,
    world.newClass (world.defaultInstance (className (which.type (world.methods method)))) =
      className (which.type (world.methods method))

namespace World

variable {Msg : Type} {world : World Msg}

theorem table_place {service : Ptr} {i : Nat} {method : Ptr}
    (place : (world.services service)[i]? = some method) :
    (world.table service)[i]? = some (world.methods method) := by
  simp [table, place]

theorem Lawful.callMethod (lawful : world.Lawful) {object method : Ptr}
    (member : method ∈ world.services (world.objects object).descriptor) :
    ∃ i, world.callMethod object method = some (callCase i (world.methods method)) := by
  obtain ⟨i, place⟩ := List.mem_iff_getElem?.mp member
  rw [World.callMethod, if_neg (not_not_intro (lawful.service _ method member)),
    lawful.index _ i method place]
  exact ⟨i, switch_mapIdx callCase CallCase.index (fun _ _ => rfl) (table_place place)⟩

theorem Lawful.getPrototype (lawful : world.Lawful) (which : RequestOrResponse)
    {object method : Ptr} (member : method ∈ world.services (world.objects object).descriptor) :
    world.getPrototype which object method =
      some (world.defaultInstance (className (which.type (world.methods method)))) := by
  obtain ⟨i, place⟩ := List.mem_iff_getElem?.mp member
  have taken : switch PrototypeCase.index (generateGetPrototype which
      (world.table (world.objects object).descriptor)) i =
      some (prototypeCase which i (world.methods method)) :=
    switch_mapIdx (prototypeCase which) PrototypeCase.index (fun _ _ => rfl) (table_place place)
  rw [World.getPrototype, if_neg (not_not_intro (lawful.service _ method member)),
    lawful.index _ i method place, taken]
  rfl

/-- The entry a method of an object gets. -/
def entry (world : World Msg) (method : Ptr) : ServiceMethod where
  fullName := (world.methods method).fullName
  method := method
  request := world.defaultInstance (className (world.methods method).inputType)
  response := world.defaultInstance (className (world.methods method).outputType)

def registered (world : World Msg) (object : Ptr) : Service :=
  ⟨object, (world.services (world.objects object).descriptor).map world.entry⟩

theorem mapM_some {A B : Type} (f : A → Option B) (g : A → B) (items : List A)
    (each : ∀ a ∈ items, f a = some (g a)) : items.mapM f = some (items.map g) := by
  induction items with
  | nil => rfl
  | cons a items ih =>
    rw [List.mapM_cons, each a List.mem_cons_self,
      ih fun a member => each a (List.mem_cons_of_mem _ member)]
    rfl

theorem Lawful.service_registered (lawful : world.Lawful) (object : Ptr) :
    world.service object = some (world.registered object) := by
  have each : ∀ method ∈ world.services (world.objects object).descriptor,
      world.serviceMethod object method = some (world.entry method) := by
    intro method member
    rw [serviceMethod, lawful.getPrototype .request member, lawful.getPrototype .response member]
    rfl
  rw [World.service, mapM_some _ _ _ each]
  rfl

/-- A full name leads to one method, in the objects of one service. -/
theorem Lawful.find_entry (lawful : world.Lawful) {service method : Ptr}
    (member : method ∈ world.services service) (object : Ptr) :
    (world.registered object).methods.find?
        (fun m => m.fullName = (world.methods method).fullName) =
      if (world.objects object).descriptor = service then some (world.entry method) else none := by
  have same {service' method' : Ptr} (member' : method' ∈ world.services service')
      (named : (world.methods method').fullName = (world.methods method).fullName) :
      method' = method ∧ service' = service := by
    have equal := lawful.unique _ _ _ _ member' member named
    subst equal
    exact ⟨rfl, (lawful.service _ _ member').symm.trans (lawful.service _ _ member)⟩
  rw [registered, List.find?_map]
  split
  · rename_i own
    rw [own]
    have found : ((world.services service).find? ((fun m : ServiceMethod =>
        decide (m.fullName = (world.methods method).fullName)) ∘ world.entry)) = some method := by
      cases search : (world.services service).find? ((fun m : ServiceMethod =>
          decide (m.fullName = (world.methods method).fullName)) ∘ world.entry) with
      | none =>
        have missed := List.find?_eq_none.mp search method member
        simp [entry] at missed
      | some method' =>
        have named := List.find?_some search
        have equal : (world.methods method').fullName = (world.methods method).fullName :=
          of_decide_eq_true named
        rw [(same (List.mem_of_find?_eq_some search) equal).1]
    rw [found]
    rfl
  · rename_i other
    rw [Option.map_eq_none_iff, List.find?_eq_none]
    intro method' member' named
    exact other (same member' (of_decide_eq_true named)).2

end World

/-- What `RegisterService` adds to the abstract table for an opcode. -/
def offered (opcode : Bytes) (service : Service) : Option RpcMethod :=
  (service.methods.find? fun m => m.fullName = opcode).map (newRpcMethod service.object)

theorem served_registerService (opcode : Bytes) (past : List RegistryEvent) (service : Service)
    (r : Registry) : (served opcode (past ++ (registerService service r).2)).map Prod.snd =
      ((served opcode past).map Prod.snd).or (offered opcode service) := by
  have walk (methods : List ServiceMethod) (r : Registry) (emitted : List RegistryEvent) :
      (served opcode (past ++
        (methods.foldl (registerMethod service.object) (r, emitted)).2)).map Prod.snd =
      ((served opcode (past ++ emitted)).map Prod.snd).or
        ((methods.find? fun m => m.fullName = opcode).map (newRpcMethod service.object)) := by
    induction methods generalizing r emitted with
    | nil => simp
    | cons m methods ih =>
      obtain ⟨map, turn, _⟩ := registerMethod_cases service.object r emitted m
      rw [List.foldl_cons, turn, ih, ← List.append_assoc, served_built, List.find?_cons]
      cases served opcode (past ++ emitted) with
      | some _ => simp
      | none => by_cases own : m.fullName = opcode <;> simp [own]
  simpa [registerService, offered] using walk service.methods r []

theorem served_registrations (run : Path (Fires Registry.step) {} inputs events r)
    (services : List Service) (all : inputs = services.map .registerService) (opcode : Bytes) :
    (served opcode events).map Prod.snd = services.findSome? (offered opcode) := by
  induction run generalizing services with
  | nil =>
    rw [List.map_eq_nil_iff.mp all.symm]
    rfl
  | @snoc _ past r input emitted next _ last ih =>
    obtain ⟨front, rest, rfl, first, second⟩ := List.map_eq_append_iff.mp all.symm
    obtain ⟨service, rfl, rfl⟩ := List.map_eq_singleton_iff.mp second
    have step := served_registerService opcode past service r
    rw [show registerService service r = (next, emitted) from Option.some.inj last] at step
    rw [step, ih front first.symm, List.findSome?_append]
    simp

theorem findSome_offered {Msg : Type} {world : World Msg} (lawful : world.Lawful)
    {service method : Ptr} (member : method ∈ world.services service) (objects : List Ptr) :
    (objects.map world.registered).findSome? (offered (world.methods method).fullName) =
      (objects.find? fun object => (world.objects object).descriptor = service).map
        fun object => newRpcMethod object (world.entry method) := by
  induction objects with
  | nil => rfl
  | cons object objects ih =>
    rw [List.map_cons, List.findSome?_cons, offered, lawful.find_entry member object,
      List.find?_cons, ih]
    by_cases own : (world.objects object).descriptor = service
    · simp [own, World.registered]
    · simp [own]

/-- A request with this opcode reaches the method, on the first object of its service, with
objects of the classes the generated code casts them to. -/
structure Dispatches {Msg : Type} (world : World Msg) (objects : List Ptr) (map : RpcMethodMapT)
    (method : Ptr) (opcode : Bytes) (rpcMethod : RpcMethod) (c : CallCase) : Prop where
  found : map.lookup opcode = some rpcMethod
  first : (objects.find? fun object =>
    (world.objects object).descriptor = (world.methods method).service) = some rpcMethod.service
  taken : world.callMethod rpcMethod.service rpcMethod.method = some c
  name : c.name = (world.methods method).name
  inputType : c.inputType = className (world.methods method).inputType
  outputType : c.outputType = className (world.methods method).outputType
  request : world.newClass rpcMethod.request = c.inputType
  response : world.newClass rpcMethod.response = c.outputType
  runs : ∀ (pb : Protobuf Msg) (buffer : Bytes) (argument : Msg),
    pb.parse rpcMethod.request buffer = some argument →
    (process pb map world.handler opcode buffer).1 =
      made rpcMethod ++ [.called rpcMethod argument
        ((world.objects rpcMethod.service).handlers (world.methods method).name argument)]

theorem dispatches_of_found {Msg : Type} {world : World Msg} (lawful : world.Lawful)
    {objects : List Ptr} {map : RpcMethodMapT} {service method first : Ptr}
    (member : method ∈ world.services service)
    (search : (objects.find? fun object => (world.objects object).descriptor = service) =
      some first)
    (found : map.lookup (world.methods method).fullName =
      some (newRpcMethod first (world.entry method))) :
    ∃ c, Dispatches world objects map method (world.methods method).fullName
      (newRpcMethod first (world.entry method)) c := by
  have found' := List.find?_some search
  have own : (world.objects first).descriptor = service := of_decide_eq_true found'
  have inside : method ∈ world.services (world.objects first).descriptor := own ▸ member
  obtain ⟨i, taken⟩ := lawful.callMethod inside
  refine ⟨callCase i (world.methods method), found, ?_, taken, rfl, rfl, rfl, ?_, ?_, ?_⟩
  · rw [lawful.service service method member]
    exact search
  · exact lawful.newClass service method member .request
  · exact lawful.newClass service method member .response
  · intro pb buffer argument parses
    have runs : world.handler (newRpcMethod first (world.entry method)) argument =
        (world.objects first).handlers (world.methods method).name argument := by
      have case : world.callMethod (newRpcMethod first (world.entry method)).service
        (newRpcMethod first (world.entry method)).method = _ := taken
      rw [World.handler, case]
      rfl
    rcases process_cases pb map world.handler (world.methods method).fullName buffer with
      ⟨absent, _⟩ | ⟨rpcMethod, entry, ⟨unparsed, _⟩ | ⟨request, parsed, _, same, _⟩⟩
    · rw [found] at absent
      cases absent
    · obtain rfl := Option.some.inj (found.symm.trans entry)
      rw [parses] at unparsed
      cases unparsed
    · obtain rfl := Option.some.inj (found.symm.trans entry)
      obtain rfl := Option.some.inj (parses.symm.trans parsed)
      rw [same, runs]
      rfl

section Stubs

variable {Msg : Type} {world : World Msg} {service : Ptr}

theorem mem_generateStubMethods {stub : StubMethod} :
    stub ∈ generateStubMethods (world.table service) ↔
      ∃ i method, (world.services service)[i]? = some method ∧
        stub = stubMethod i (world.methods method) := by
  rw [generateStubMethods, List.mem_mapIdx]
  constructor
  · rintro ⟨i, inside, rfl⟩
    have bound : i < (world.services service).length := by simpa [World.table] using inside
    exact ⟨i, _, List.getElem?_eq_getElem bound, by simp [World.table]⟩
  · rintro ⟨i, method, place, rfl⟩
    obtain ⟨inside, same⟩ := List.getElem?_eq_some_iff.mp (World.table_place place)
    exact ⟨i, inside, by rw [same]⟩

/-- A call of this stub method goes to this method. -/
def Reaches (world : World Msg) (objects : List Ptr) (map : RpcMethodMapT) (service : Ptr)
    (stub : StubMethod) (method : Ptr) : Prop :=
  stub.name = (world.methods method).name ++ ascii "_Send" ∧
    ∃ opcode rpcMethod c, world.stubSend service stub = some opcode ∧
      Dispatches world objects map method opcode rpcMethod c

/-- The stub method generated at a place goes to the method at this place. -/
theorem stub_reaches (lawful : world.Lawful) {objects : List Ptr} {object : Ptr}
    (registered : object ∈ objects) (own : (world.objects object).descriptor = service)
    {events : List RegistryEvent} {r : Registry} (run : Path (Fires Registry.step) {}
      ((objects.map world.registered).map .registerService) events r)
    {i : Nat} {method : Ptr} (place : (world.services service)[i]? = some method) :
    Reaches world objects (pointed r.built r.rpcMethodMap) service
      (stubMethod i (world.methods method)) method := by
  have member : method ∈ world.services service := List.mem_of_getElem? place
  obtain ⟨first, search⟩ : ∃ first, (objects.find? fun object =>
      (world.objects object).descriptor = service) = some first := by
    apply Option.isSome_iff_exists.mp
    exact List.find?_isSome.mpr ⟨object, registered, decide_eq_true own⟩
  have spared : Path (Meeting Spared (Fires Registry.step)) {}
      ((objects.map world.registered).map .registerService) events r := by
    apply run.meeting
    intro input asked r
    obtain ⟨service, _, rfl⟩ := List.mem_map.mp asked
    trivial
  have found : (pointed r.built r.rpcMethodMap).lookup (world.methods method).fullName =
      some (newRpcMethod first (world.entry method)) := by
    rw [(run_refines spared).pointed, served_registrations run _ rfl,
      findSome_offered lawful member, search]
    rfl
  obtain ⟨c, dispatches⟩ := dispatches_of_found lawful member search found
  refine ⟨rfl, _, _, c, ?_, dispatches⟩
  rw [World.stubSend, stubMethod, value_decimal, place]
  rfl

end Stubs

/-- Registration goes through. Every method of a registered service has a stub method of its
name that reaches it, and every stub method reaches the method it was generated for. -/
theorem dispatch_agrees {Msg : Type} (world : World Msg) (lawful : world.Lawful)
    (objects : List Ptr) : ∃ services, objects.mapM world.service = some services ∧
    ∀ events r, Path (Fires Registry.step) {} (services.map .registerService) events r →
    ∀ object ∈ objects, ∀ service, (world.objects object).descriptor = service →
    (∀ method ∈ world.services service, ∃ stub ∈ generateStubMethods (world.table service),
      Reaches world objects (pointed r.built r.rpcMethodMap) service stub method) ∧
    ∀ stub ∈ generateStubMethods (world.table service), ∃ method ∈ world.services service,
      Reaches world objects (pointed r.built r.rpcMethodMap) service stub method := by
  refine ⟨objects.map world.registered, World.mapM_some _ _ _ fun object _ =>
    lawful.service_registered object, ?_⟩
  intro events r run object registered service own
  refine ⟨fun method member => ?_, fun stub generated => ?_⟩
  · obtain ⟨i, place⟩ := List.mem_iff_getElem?.mp member
    exact ⟨_, mem_generateStubMethods.mpr ⟨i, method, place, rfl⟩,
      stub_reaches lawful registered own run place⟩
  · obtain ⟨i, method, place, rfl⟩ := mem_generateStubMethods.mp generated
    exact ⟨method, List.mem_of_getElem? place, stub_reaches lawful registered own run place⟩

/-- A service with two methods of one input and one output type, and two objects of it. -/
def echoWorld : World Bytes where
  methods method :=
    if method = 10 then ⟨ascii "Say", ascii "x.Echo.Say", 0, 1, .top (ascii "x.In"),
      .nested (.top (ascii "x.Out")) (ascii "x.Out.Line")⟩
    else ⟨ascii "Hear", ascii "x.Echo.Hear", 1, 1, .top (ascii "x.In"),
      .nested (.top (ascii "x.Out")) (ascii "x.Out.Line")⟩
  services service := if service = 1 then [10, 11] else []
  objects _ := ⟨1, fun _ => .returned⟩
  defaultInstance name := if name = ascii "::x::In" then 30 else 31
  newClass prototype := if prototype = 30 then ascii "::x::In" else ascii "::x::Out_Line"

theorem echoWorld_place {service i method : Ptr}
    (place : (echoWorld.services service)[i]? = some method) :
    service = 1 ∧ ((i = 0 ∧ method = 10) ∨ (i = 1 ∧ method = 11)) := by
  by_cases own : service = 1
  · subst own
    match i, place with
    | 0, place => exact ⟨rfl, .inl ⟨rfl, (Option.some.inj place).symm⟩⟩
    | 1, place => exact ⟨rfl, .inr ⟨rfl, (Option.some.inj place).symm⟩⟩
  · simp [echoWorld, own] at place

theorem echoWorld_member {service method : Ptr} (member : method ∈ echoWorld.services service) :
    service = 1 ∧ (method = 10 ∨ method = 11) := by
  obtain ⟨i, place⟩ := List.mem_iff_getElem?.mp member
  obtain ⟨own, ⟨_, same⟩ | ⟨_, same⟩⟩ := echoWorld_place place
  · exact ⟨own, .inl same⟩
  · exact ⟨own, .inr same⟩

theorem echoWorld_lawful : echoWorld.Lawful := by
  constructor
  · intro service i method place
    obtain ⟨_, ⟨rfl, rfl⟩ | ⟨rfl, rfl⟩⟩ := echoWorld_place place
    · rfl
    · rfl
  · intro service method member
    obtain ⟨rfl, rfl | rfl⟩ := echoWorld_member member
    · rfl
    · rfl
  · intro service service' method method' member member' named
    obtain ⟨rfl, rfl | rfl⟩ := echoWorld_member member
    · obtain ⟨rfl, rfl | rfl⟩ := echoWorld_member member'
      · rfl
      · exact absurd named (by decide)
    · obtain ⟨rfl, rfl | rfl⟩ := echoWorld_member member'
      · exact absurd named (by decide)
      · rfl
  · intro service method member which
    obtain ⟨rfl, rfl | rfl⟩ := echoWorld_member member
    · cases which <;> decide
    · cases which <;> decide

/-- The second method of the service, with both objects registered. -/
theorem dispatch_agrees_echo : ∃ services events r,
    [20, 21].mapM echoWorld.service = some services ∧
    Path (Fires Registry.step) {} (services.map .registerService) events r ∧
    ∃ stub ∈ generateStubMethods (echoWorld.table 1), stub.name = ascii "Hear_Send" ∧
      Reaches echoWorld [20, 21] (pointed r.built r.rpcMethodMap) 1 stub 11 := by
  obtain ⟨services, asked, agrees⟩ := dispatch_agrees echoWorld echoWorld_lawful [20, 21]
  have known : [20, 21].mapM echoWorld.service =
      some ([20, 21].map echoWorld.registered) :=
    World.mapM_some _ _ _ fun object _ => echoWorld_lawful.service_registered object
  obtain rfl := Option.some.inj (asked.symm.trans known)
  have run : ∃ events r, execute Registry.step
      (([20, 21].map echoWorld.registered).map .registerService) {} = some (r, events) :=
    ⟨_, _, rfl⟩
  obtain ⟨events, r, run⟩ := run
  obtain ⟨stub, generated, reaches⟩ :=
    (agrees events r (execute_path run) 20 List.mem_cons_self 1 rfl).1 11 (by decide)
  exact ⟨_, events, r, known, execute_path run, stub, generated, reaches.1.trans (by decide),
    reaches⟩

end Zqrpc
