import Zqrpc.GeneratedClasses

/-! When the printed code is well scoped. The implementation of every service uses the
assign-once function, which is printed for some files only. -/
namespace Zqrpc.Scopes

open Numeral Scoping

/-- No printed class declaration names another class of its namespace, and every use in the
header and the source behind it finds its declaration. -/
structure CodeScoped (file : FileDescriptor) (headers : Headers) : Prop where
  apart : ∀ path name one other, (path, .classOf one name) ∈ printed file →
    (path, .classOf other name) ∈ headers.known file ++ printed file → one = other
  uses : Scope.WellScoped ⟨[], headers.known file⟩ (generateHeader file ++ generateSource file)

section Scoped

variable (file : FileDescriptor)

theorem wellScoped_declarations (service : ServiceDescriptor) (s : Scope Bytes Entity) :
    s.WellScoped (generateDeclarations service) := by
  have signatures (s : Scope Bytes Entity) (stub : Bool) :
      s.WellScoped (generateMethodSignatures service stub) := by
    apply wellScoped_of_unused
    intro item member
    obtain ⟨_, _, rfl⟩ := signatures_members item member
    exact id
  simp [generateDeclarations, generateInterface, generateStubDefinition, signatures, Scope.Ok]

theorem wellScoped_header (known : List (List Bytes × Entity)) :
    Scope.WellScoped ⟨[], known⟩ (generateHeader file) := by
  rw [generateHeader_eq, wellScoped_append, wellScoped_within]
  constructor
  · exact wellScoped_of_unused (by simp [forwardDeclarations, within, Item.IsUse])
  · rw [headerBody, wellScoped_append]
    constructor
    · exact wellScoped_of_unused (by simp [Item.IsUse])
    · exact wellScoped_flatMap fun service _ s => wellScoped_declarations service s

/-- What the source body finds declared in its scope: what the header declares for the
services, the descriptor variables, and the functions of the dependencies. -/
structure Prepared (s : Scope Bytes Entity) : Prop where
  declared : ∀ service ∈ file.services, ∀ entity,
    .declare entity ∈ generateDeclarations service → s.Visible entity
  pointers : ∀ service ∈ file.services, s.Visible (descriptorVariable service)
  adds : ∀ dependency ∈ file.dependencies, (packageParts dependency.package,
    .function (globalAddDescriptorsName dependency.name)) ∈ s.known

variable {file}

theorem Prepared.run {s : Scope Bytes Entity} {items : Text} (prepared : Prepared file s)
    (level : Level items) : Prepared file (s.run items) where
  declared := fun service member entity printed =>
    (level.visible s entity).mpr (.inl (prepared.declared service member entity printed))
  pointers := fun service member =>
    (level.visible s _).mpr (.inl (prepared.pointers service member))
  adds := fun dependency member => known_mono s items (prepared.adds dependency member)

variable {s : Scope Bytes Entity} (prepared : Prepared file s)
include prepared

theorem wellScoped_assigning : s.WellScoped (assigningFunctions file) := by
  rw [assigningFunctions, wellScoped_append, wellScoped_within]
  constructor
  · rw [wellScoped_append]
    constructor
    · exact wellScoped_of_unused (by simp [Item.IsUse])
    · apply wellScoped_of_uses (initializers_used file)
      intro item member
      obtain ⟨service, inFile, member⟩ := List.mem_flatMap.mp member
      rw [List.mem_singleton.mp member]
      exact (visible_declare s _ _).mpr (.inl (prepared.pointers service inFile))
  · have block (s : Scope Bytes Entity) (assigns : s.Visible (assignDescriptors file)) :
        s.WellScoped [.declare (.global (ascii "protobuf_AssignDescriptors_once_")),
          .declare assignDescriptorsOnce,
          .use (.global (ascii "protobuf_AssignDescriptors_once_")),
          .use (assignDescriptors file), .declare registerTypes, .use assignDescriptorsOnce] := by
      simp [Scope.Ok, assigns]
    apply block
    apply visible_within
    exact ((level_assigning file).visible s _).mpr
      (.inr (List.mem_append_left _ List.mem_cons_self))

theorem wellScoped_adding (types : hasDescriptorMethods file = true → s.Visible registerTypes) :
    s.WellScoped (addingFunctions file) := by
  rw [addingFunctions, wellScoped_append, wellScoped_append, wellScoped_append]
  refine ⟨⟨⟨wellScoped_of_unused (by simp [Item.IsUse]), ?_⟩, ?_⟩, ?_, trivial⟩
  · apply wellScoped_of_uses (dependencies_used file)
    intro item member
    obtain ⟨dependency, inFile, rfl⟩ := List.mem_map.mp member
    exact known_mono s _ (prepared.adds dependency inFile)
  · split
    · rename_i reflective
      exact ⟨((level_adding file).visible s _).mpr (.inl (types reflective)), trivial⟩
    · trivial
  · have front := (level_adding file).append (level_registering file)
    exact (front.visible s _).mpr (.inr (by simp))

theorem wellScoped_build : s.WellScoped (generateBuildDescriptors file) := by
  rw [generateBuildDescriptors, wellScoped_append]
  split
  · have level := level_assigningFunctions file
    refine ⟨wellScoped_assigning prepared, wellScoped_adding (prepared.run level) fun _ => ?_⟩
    exact (level.visible s _).mpr (.inr (by simp [assigningFunctions]))
  · rename_i lite
    exact ⟨trivial, wellScoped_adding prepared fun reflective => absurd reflective lite⟩

theorem wellScoped_implementations (once : s.Visible assignDescriptorsOnce) :
    s.WellScoped (file.services.flatMap generateImplementation) := by
  apply wellScoped_of_uses (implementations_used file)
  intro item member
  obtain ⟨service, inFile, member⟩ := List.mem_flatMap.mp member
  obtain ⟨entity, rfl, rfl | rfl | printed⟩ := implementation_relies item member
  · exact once
  · exact prepared.pointers service inFile
  · exact prepared.declared service inFile entity printed

theorem wellScoped_sourceBody
    (printed : file.services = [] ∨ hasDescriptorMethods file = true) :
    s.WellScoped (sourceBody file) := by
  rw [sourceBody, wellScoped_append]
  refine ⟨wellScoped_build prepared, ?_⟩
  rcases printed with empty | reflective
  · rw [empty]
    trivial
  · apply wellScoped_implementations (prepared.run (level_build file))
    refine ((level_build file).visible s _).mpr (.inr ?_)
    simp [generateBuildDescriptors, reflective, assigningFunctions]

end Scoped

section Main

variable (file : FileDescriptor) (headers : Headers)

theorem wellScoped_source (documented : headers.Documented file)
    (printed : file.services = [] ∨ hasDescriptorMethods file = true) :
    (Scope.run ⟨[], headers.known file⟩ (generateHeader file)).WellScoped
      (generateSource file) := by
  have stack := header_stack file (headers.known file)
  have known := mem_header file (headers.known file)
  generalize Scope.run ⟨[], headers.known file⟩ (generateHeader file) = s at stack known
  have front : Level (descriptorVariables file) := Level.unnamed (Level.of_plain (by simp))
  have quiet : s.WellScoped (descriptorVariables file) := by
    rw [descriptorVariables, wellScoped_within]
    apply wellScoped_of_unused
    intro item member
    obtain ⟨service, _, rfl⟩ := List.mem_map.mp member
    exact id
  rw [generateSource_eq, wellScoped_append, wellScoped_within, front.stack, stack]
  refine ⟨quiet, ?_⟩
  have kept := known_mono s (descriptorVariables file)
  have path : Scope.path ⟨[] ++ file.parts.map some, (s.run (descriptorVariables file)).known⟩ =
      file.parts := by simp [Scope.path, List.reduceOption]
  refine wellScoped_sourceBody ⟨?_, ?_, ?_⟩ printed
  · intro service member entity declared
    refine ⟨file.parts, by rw [path], kept ((known _).mpr (.inr (.inr ?_)))⟩
    refine ⟨entity, List.mem_append_right _ ?_, rfl⟩
    exact List.mem_flatMap.mpr ⟨service, member, declared⟩
  · intro service member
    have pointer : (s.run (descriptorVariables file)).Visible (descriptorVariable service) :=
      (front.visible s _).mpr (.inr (by simpa [descriptorVariables] using ⟨service, member, rfl⟩))
    have inside := visible_within pointer (file.parts.map some)
    rwa [front.stack, stack] at inside
  · intro dependency member
    apply kept
    refine (known _).mpr (.inl (List.mem_append_right _ ?_))
    exact List.mem_map.mpr ⟨_, documented.adds dependency member, rfl⟩

/-- The uses find their declarations exactly when the assign-once function is printed or no
service needs it. -/
theorem uses_iff (documented : headers.Documented file) :
    Scope.WellScoped ⟨[], headers.known file⟩ (generateHeader file ++ generateSource file) ↔
      file.services = [] ∨ hasDescriptorMethods file = true := by
  constructor
  · intro well
    by_contra neither
    obtain ⟨some', lite⟩ := not_or.mp neither
    obtain ⟨service, member⟩ := List.exists_mem_of_ne_nil _ some'
    have used : .use assignDescriptorsOnce ∈ generateHeader file ++ generateSource file := by
      refine List.mem_append_right _ (List.mem_append_left _ (List.mem_append_right _ ?_))
      exact List.mem_flatMap.mpr ⟨service, member, by simp [generateImplementation]⟩
    rcases declared_of_use well used with ⟨path, known⟩ | declared
    · exact documented.once path (by simpa [Headers.known, assignDescriptorsOnce] using known)
    · exact once_undeclared file (Bool.eq_false_iff.mpr lite) declared
  · intro printed
    rw [wellScoped_append]
    exact ⟨wellScoped_header file _, wellScoped_source file headers documented printed⟩

/-- The printed code is well formed exactly when the names of the services and stubs are
free and the file has descriptors or no services. -/
theorem code_scoped_iff (documented : headers.Documented file) :
    CodeScoped file headers ↔
      NamesFree file headers ∧ (file.services = [] ∨ hasDescriptorMethods file = true) := by
  rw [← apart_iff, ← uses_iff file headers documented]
  exact ⟨fun well => ⟨well.apart, well.uses⟩, fun ⟨apart, uses⟩ => ⟨apart, uses⟩⟩

end Main

/-- A service of one method, in a file that imports another. -/
def echoFile (optimizeFor : OptimizeMode) : FileDescriptor where
  name := ascii "echo.proto"
  package := ascii "demo.v1"
  messages := [.top (ascii "demo.v1.Ping"),
    .nested (.top (ascii "demo.v1.Ping")) (ascii "demo.v1.Ping.Body")]
  services := [⟨ascii "Echo", [⟨ascii "Say", ascii "demo.v1.Echo.Say", 0, 1,
    .top (ascii "demo.v1.Ping"), .top (ascii "demo.v1.Ping")⟩]⟩]
  dependencies := [⟨ascii "base.proto", ascii "demo"⟩]
  optimizeFor := optimizeFor
  distinct := by decide

/-- The classes of the runtime's headers and the functions of the two `.pb.h` files. -/
def echoHeaders : Headers where
  runtimeClasses :=
    ["RpcChannel", "RpcWorker", "RpcServer", "RpcMethod", "ZController", "ServiceBase",
      "ZSocket", "ZError", "RetryException", "TimeoutException", "FatalException",
      "ProxyException", "ExitException"].map (fun name => ([ascii "zqrpc"], ascii name)) ++
    ["Message", "MethodDescriptor", "ServiceDescriptor"].map fun name =>
      ([ascii "google", ascii "protobuf"], ascii name)
  messageClasses := [([ascii "demo"], ascii "Echo")]
  functions :=
    [([ascii "demo"], ascii "protobuf_AddDesc_base_2eproto"),
      ([ascii "demo"], ascii "protobuf_AssignDesc_base_2eproto"),
      ([ascii "demo"], ascii "protobuf_ShutdownFile_base_2eproto"),
      ([ascii "demo", ascii "v1"], ascii "protobuf_AddDesc_echo_2eproto"),
      ([ascii "demo", ascii "v1"], ascii "protobuf_AssignDesc_echo_2eproto"),
      ([ascii "demo", ascii "v1"], ascii "protobuf_ShutdownFile_echo_2eproto")]

theorem echoHeaders_documented (optimizeFor : OptimizeMode) :
    echoHeaders.Documented (echoFile optimizeFor) := by
  refine ⟨fun dependency member => ?_, fun path member => ?_⟩
  · rw [List.mem_singleton.mp member]
    decide
  · have named : ascii "protobuf_AssignDescriptorsOnce" ∈ echoHeaders.functions.map Prod.snd :=
      List.mem_map.mpr ⟨_, member, rfl⟩
    revert named
    decide

theorem code_scoped_iff_echo : CodeScoped (echoFile .speed) echoHeaders :=
  (code_scoped_iff (echoFile .speed) echoHeaders (echoHeaders_documented .speed)).mpr
    ⟨⟨by decide, by decide, by decide⟩, .inr rfl⟩

/-- In a file for the lite runtime the service uses a function that is not printed. -/
theorem lite_service_undeclared : ¬∀ file (headers : Headers), headers.Documented file →
    CodeScoped file headers := by
  intro claim
  have documented := echoHeaders_documented .liteRuntime
  have well := claim (echoFile .liteRuntime) echoHeaders documented
  rcases (uses_iff _ _ documented).mp well.uses with empty | reflective
  · cases empty
  · cases reflective

end Zqrpc.Scopes
