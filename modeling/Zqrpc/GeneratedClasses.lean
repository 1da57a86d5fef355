import Zqrpc.GeneratedScopeRules

/-! The classes that the printed header declares, beside those of the headers it includes. -/
namespace Zqrpc.Scopes

open Numeral Scoping

section Headers

/-- What the included headers declare besides the message classes of the file: those of
`zqrpc.hpp` and of protobuf, and the `.pb.h` files. -/
structure Headers where
  runtimeClasses : List (List Bytes × Bytes)
  /-- the message classes of other files -/
  messageClasses : List (List Bytes × Bytes)
  functions : List (List Bytes × Bytes)

variable (file : FileDescriptor) (headers : Headers)

/-- The documented content of a `.pb.h` file: it declares the `AddDescriptors` function of
its file and keeps its assign-once function to the `.pb.cc`. -/
structure Headers.Documented : Prop where
  adds : ∀ dependency ∈ file.dependencies,
    (packageParts dependency.package, globalAddDescriptorsName dependency.name) ∈ headers.functions
  once : ∀ path, (path, ascii "protobuf_AssignDescriptorsOnce") ∉ headers.functions

def allMessageClasses : List (List Bytes × Bytes) :=
  file.messages.map (fun message => (file.parts, unqualifiedClassName message)) ++
    headers.messageClasses

def Headers.known : List (List Bytes × Entity) :=
  (allMessageClasses file headers).map (fun c => (c.1, .classOf .message c.2)) ++
  headers.runtimeClasses.map (fun c => (c.1, .classOf .runtime c.2)) ++
  headers.functions.map (fun f => (f.1, .function f.2))

/-- What the printed header and source declare. -/
def printed : List (List Bytes × Entity) :=
  (Scope.run ⟨[], []⟩ (generateHeader file ++ generateSource file)).known

/-- The classes of the runtime that `forwardDeclarations` declares. -/
def forwardClasses : List (List Bytes × Bytes) :=
  [([ascii "google", ascii "protobuf"], ascii "ServiceDescriptor"),
    ([ascii "google", ascii "protobuf"], ascii "MethodDescriptor"),
    ([ascii "zqrpc"], ascii "RpcChannel")]

/-- The names of the services and stubs are free. -/
structure NamesFree : Prop where
  stubs : ∀ a ∈ file.services, ∀ b ∈ file.services, a.name ≠ stubName b
  classes : ∀ service ∈ file.services, ∀ name ∈ [service.name, stubName service],
    (file.parts, name) ∉
      forwardClasses ++ headers.runtimeClasses ++ allMessageClasses file headers
  messages : ∀ c ∈ allMessageClasses file headers, c ∉ forwardClasses

end Headers

section Known

variable (file : FileDescriptor) (known : List (List Bytes × Entity))

theorem header_stack : (Scope.run ⟨[], known⟩ (generateHeader file)).stack = [] := by
  rw [generateHeader_eq, forwardDeclarations, run_append, run_append,
    run_within (level_headerBody file)]
  rfl

theorem mem_header (d : List Bytes × Entity) :
    d ∈ (Scope.run ⟨[], known⟩ (generateHeader file)).known ↔
      d ∈ known ∨ (∃ c ∈ forwardClasses, d = (c.1, .classOf .runtime c.2)) ∨
      ∃ entity, .declare entity ∈ headerBody file ∧ d = (file.parts, entity) := by
  have protobuf : Level ([.declare (.classOf .runtime (ascii "ServiceDescriptor")),
      .declare (.classOf .runtime (ascii "MethodDescriptor"))] : Text) :=
    Level.of_plain (by simp)
  have zqrpc : Level ([.declare (.classOf .runtime (ascii "RpcChannel"))] : Text) :=
    Level.of_plain (by simp)
  rw [generateHeader_eq, forwardDeclarations, run_append, run_append,
    mem_known_within (level_headerBody file), mem_known_within zqrpc, mem_known_within protobuf,
    path_within zqrpc, path_within protobuf]
  simp [forwardClasses, Scope.path, List.reduceOption, or_assoc]

end Known

section Classes

variable (file : FileDescriptor) (headers : Headers)

/-- The class of a service of the file or of its stub, and its name. -/
def OwnClass (id : ClassId) (name : Bytes) : Prop :=
  ∃ service ∈ file.services,
    (id = .service service ∧ name = service.name) ∨ (id = .stub service ∧ name = stubName service)

theorem header_class_iff (id : ClassId) (name : Bytes) :
    .declare (.classOf id name) ∈ headerBody file ↔ OwnClass file id name := by
  constructor
  · intro declared
    rcases header_declares file declared with same | same | ⟨service, member, printed⟩
    · cases same
    · cases same
    · refine ⟨service, member, ?_⟩
      rcases declarations_declare printed with same | same | ⟨_, _, same⟩
      · exact .inl (Entity.classOf.inj same)
      · exact .inr (Entity.classOf.inj same)
      · cases same
  · rintro ⟨service, member, ⟨rfl, rfl⟩ | ⟨rfl, rfl⟩⟩
    · exact List.mem_append_right _ (List.mem_flatMap.mpr ⟨service, member, serviceClass_declared⟩)
    · exact List.mem_append_right _ (List.mem_flatMap.mpr ⟨service, member, stubClass_declared⟩)

theorem printed_class_iff (path : List Bytes) (id : ClassId) (name : Bytes) :
    (path, .classOf id name) ∈ printed file ↔
      (id = .runtime ∧ (path, name) ∈ forwardClasses) ∨
      (path = file.parts ∧ OwnClass file id name) := by
  rw [printed, run_append, mem_known_of_undeclared (source_no_class file id name), mem_header]
  constructor
  · rintro (none' | ⟨c, forward, same⟩ | ⟨entity, declared, same⟩)
    · cases none'
    · obtain ⟨rfl, meant⟩ := Prod.mk.inj same
      obtain ⟨rfl, rfl⟩ := Entity.classOf.inj meant
      exact .inl ⟨rfl, forward⟩
    · obtain ⟨rfl, rfl⟩ := Prod.mk.inj same
      exact .inr ⟨rfl, (header_class_iff file id name).mp declared⟩
  · rintro (⟨rfl, forward⟩ | ⟨rfl, own⟩)
    · exact .inr (.inl ⟨_, forward, rfl⟩)
    · exact .inr (.inr ⟨_, (header_class_iff file id name).mpr own, rfl⟩)

theorem known_class_iff (path : List Bytes) (id : ClassId) (name : Bytes) :
    (path, .classOf id name) ∈ headers.known file ↔
      (id = .message ∧ (path, name) ∈ allMessageClasses file headers) ∨
      (id = .runtime ∧ (path, name) ∈ headers.runtimeClasses) := by
  have classes (kind : ClassId) (listed : List (List Bytes × Bytes)) :
      (path, .classOf id name) ∈ listed.map (fun c => (c.1, Entity.classOf kind c.2)) ↔
        id = kind ∧ (path, name) ∈ listed := by
    rw [List.mem_map]
    constructor
    · rintro ⟨c, member, same⟩
      obtain ⟨rfl, meant⟩ := Prod.mk.inj same
      obtain ⟨rfl, rfl⟩ := Entity.classOf.inj meant
      exact ⟨rfl, member⟩
    · rintro ⟨rfl, member⟩
      exact ⟨_, member, rfl⟩
  have functions : (path, .classOf id name) ∉
      headers.functions.map fun f => (f.1, Entity.function f.2) := by simp
  rw [Headers.known, List.mem_append, List.mem_append, classes, classes, or_iff_left functions]

/-- No two classes of the services and stubs share a name, if no service is called like a
stub. -/
theorem own_unique (stubs : ∀ a ∈ file.services, ∀ b ∈ file.services, a.name ≠ stubName b)
    {one other : ClassId} {name : Bytes} (first : OwnClass file one name)
    (second : OwnClass file other name) : one = other := by
  have named {a b} (inA : a ∈ file.services) (inB : b ∈ file.services) (same : a.name = b.name) :
      a = b := List.inj_on_of_nodup_map file.distinct inA inB same
  obtain ⟨a, inA, ⟨rfl, rfl⟩ | ⟨rfl, rfl⟩⟩ := first
  · obtain ⟨b, inB, ⟨rfl, same⟩ | ⟨rfl, same⟩⟩ := second
    · rw [named inA inB same]
    · exact absurd same (stubs a inA b inB)
  · obtain ⟨b, inB, ⟨rfl, same⟩ | ⟨rfl, same⟩⟩ := second
    · exact absurd same.symm (stubs b inB a inA)
    · rw [named inA inB (List.append_cancel_right same)]

theorem own_not_taken (free : NamesFree file headers) {id : ClassId} {name : Bytes}
    (own : OwnClass file id name) : (file.parts, name) ∉
      forwardClasses ++ headers.runtimeClasses ++ allMessageClasses file headers := by
  obtain ⟨service, member, ⟨_, rfl⟩ | ⟨_, rfl⟩⟩ := own
  · exact free.classes service member _ (by simp)
  · exact free.classes service member _ (by simp)

/-- The printed class declarations name one class each exactly when the names are free. -/
theorem apart_iff :
    (∀ path name one other, (path, .classOf one name) ∈ printed file →
      (path, .classOf other name) ∈ headers.known file ++ printed file → one = other) ↔
    NamesFree file headers := by
  simp only [List.mem_append, printed_class_iff, known_class_iff]
  constructor
  · intro apart
    refine ⟨fun a inA b inB same => ?_, fun service member name own taken => ?_,
      fun c member forward => ?_⟩
    · have first : OwnClass file (.service a) a.name := ⟨a, inA, .inl ⟨rfl, rfl⟩⟩
      have second : OwnClass file (.stub b) a.name := ⟨b, inB, .inr ⟨rfl, same⟩⟩
      cases apart _ _ _ _ (.inr ⟨rfl, first⟩) (.inr (.inr ⟨rfl, second⟩))
    · obtain ⟨id, own, fresh⟩ : ∃ id, OwnClass file id name ∧ id ≠ .runtime ∧ id ≠ .message := by
        simp only [List.mem_cons, List.not_mem_nil, or_false] at own
        rcases own with rfl | rfl
        · exact ⟨_, ⟨service, member, .inl ⟨rfl, rfl⟩⟩, ClassId.noConfusion, ClassId.noConfusion⟩
        · exact ⟨_, ⟨service, member, .inr ⟨rfl, rfl⟩⟩, ClassId.noConfusion, ClassId.noConfusion⟩
      have only (other : ClassId) := apart file.parts name id other (.inr ⟨rfl, own⟩)
      rcases List.mem_append.mp taken with others | message
      · rcases List.mem_append.mp others with forward | runtime
        · exact fresh.1 (only .runtime (.inr (.inl ⟨rfl, forward⟩)))
        · exact fresh.1 (only .runtime (.inl (.inr ⟨rfl, runtime⟩)))
      · exact fresh.2 (only .message (.inl (.inl ⟨rfl, message⟩)))
    · cases apart c.1 c.2 .runtime .message (.inl ⟨rfl, forward⟩) (.inl (.inl ⟨rfl, member⟩))
  · intro free path name one other declared known
    rcases declared with ⟨rfl, forward⟩ | ⟨rfl, own⟩
    · rcases known with (⟨rfl, message⟩ | ⟨rfl, _⟩) | (⟨rfl, _⟩ | ⟨rfl, own⟩)
      · exact absurd forward (free.messages _ message)
      · rfl
      · rfl
      · exact absurd (by simp [forward]) (own_not_taken file headers free own)
    · have fresh := own_not_taken file headers free own
      simp only [List.mem_append, not_or] at fresh
      rcases known with (⟨_, message⟩ | ⟨_, runtime⟩) | (⟨_, forward⟩ | ⟨_, second⟩)
      · exact absurd message fresh.2
      · exact absurd runtime fresh.1.2
      · exact absurd forward fresh.1.1
      · exact own_unique file free.stubs own second

end Classes

end Zqrpc.Scopes
