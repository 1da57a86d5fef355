import Zqrpc.RpcWorker

/-! The method table of the server, over the heap its `RpcMethod` objects live in.
`RegisterService` and `RemoveService` are loops over the methods of a service; a worker
copies the table, and the pointers in it, when it is started. -/
namespace Zqrpc

open Numeral

/-- `descriptor->method(i)` of a service, with its full name and the prototypes the service
gives for it. -/
structure ServiceMethod where
  fullName : Bytes
  method : Ptr
  request : Ptr
  response : Ptr
  deriving DecidableEq

structure Service where
  object : Ptr
  methods : List ServiceMethod

/-- `std::map<std::string,RpcMethod*>` -/
abbrev RpcMethodPtrMapT := Finmap fun _ : Bytes => Nat

structure Registry where
  /-- the objects made by `new RpcMethod`, in order; the number of one is its address -/
  built : List RpcMethod := []
  /-- the addresses passed to `delete` -/
  deleted : List Nat := []
  rpcMethodMap : RpcMethodPtrMapT := ∅
  /-- the copies the running workers hold -/
  workers : List RpcMethodPtrMapT := []

inductive RegistryEvent where
  /-- an `RpcMethod` at this address was built for a method of this full name -/
  | built (opcode : Bytes) (address : Nat) (rpcMethod : RpcMethod)
  | removed (opcode : Bytes)
  deriving DecidableEq

/-- `new RpcMethod(service, request, response, method)` -/
def newRpcMethod (object : Ptr) (m : ServiceMethod) : RpcMethod :=
  ⟨object, m.request, m.response, m.method⟩

/-- The loop body of `RegisterService`. -/
def registerMethod (object : Ptr) (state : Registry × List RegistryEvent) (m : ServiceMethod) :
    Registry × List RegistryEvent :=
  let (r, events) := state
  let address := r.built.length
  let rpcMethod := newRpcMethod object m
  let events := events ++ [.built m.fullName address rpcMethod]
  let built := r.built ++ [rpcMethod]
  match r.rpcMethodMap.lookup m.fullName with
  | none => ({ r with built, rpcMethodMap := r.rpcMethodMap.insert m.fullName address }, events)
  | some _ => ({ r with built }, events)

/-- The loop body of `RemoveService`, which leaves the entry where it is. -/
def removeMethod (state : Registry × List RegistryEvent) (m : ServiceMethod) :
    Registry × List RegistryEvent :=
  let (r, events) := state
  let events := events ++ [.removed m.fullName]
  match r.rpcMethodMap.lookup m.fullName with
  | none => (r, events)
  | some address => ({ r with deleted := r.deleted ++ [address] }, events)

def registerService (service : Service) (r : Registry) : Registry × List RegistryEvent :=
  service.methods.foldl (registerMethod service.object) (r, [])

def removeService (service : Service) (r : Registry) : Registry × List RegistryEvent :=
  service.methods.foldl removeMethod (r, [])

inductive RegistryInput where
  | registerService (service : Service)
  | removeService (service : Service)
  | startWorker
  /-- worker number `k` of those running ends -/
  | stopWorker (k : Nat)

def Registry.step (r : Registry) : RegistryInput → Option (Registry × List RegistryEvent)
  | .registerService service => some (registerService service r)
  | .removeService service => some (removeService service r)
  | .startWorker => some ({ r with workers := r.workers ++ [r.rpcMethodMap] }, [])
  | .stopWorker k =>
    if k < r.workers.length then some ({ r with workers := r.workers.eraseIdx k }, []) else none

section

variable {α β : Type} (f : α → β)

/-- A map with a function applied to its values. -/
def mapValues (map : Finmap fun _ : Bytes => α) : Finmap fun _ : Bytes => β where
  entries := map.entries.map (Sigma.map id fun _ => f)
  nodupKeys := by
    obtain ⟨entries, nodup⟩ := map
    induction entries using Quotient.inductionOn with
    | _ entries => exact List.NodupKeys.map₂ (fun _ => f) entries nodup

theorem lookup_mapValues (map : Finmap fun _ : Bytes => α) (key : Bytes) :
    (mapValues f map).lookup key = (map.lookup key).map f := by
  ext b
  rw [Finmap.lookup_eq_some_iff, Option.map_eq_some_iff]
  simp only [mapValues, Multiset.mem_map, Finmap.lookup_eq_some_iff]
  constructor
  · rintro ⟨⟨k, a⟩, member, same⟩
    obtain ⟨rfl, rfl⟩ := Sigma.mk.inj_iff.mp same
    exact ⟨a, member, rfl⟩
  · rintro ⟨a, member, rfl⟩
    exact ⟨⟨key, a⟩, member, rfl⟩

end

/-- The table as the worker reads it, through its pointers. -/
def pointed (built : List RpcMethod) (map : RpcMethodPtrMapT) : RpcMethodMapT :=
  mapValues (fun address => built.getD address ⟨0, 0, 0, 0⟩) map

end Zqrpc
