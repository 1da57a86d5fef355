import Zqrpc.GeneratedScopes

/-! What each function of the generator declares and relies on, one rule a function. -/
namespace Zqrpc.Scopes

open Numeral Scoping

section Level

/-- What the header declares in the namespace of the file. -/
def headerBody (file : FileDescriptor) : Text :=
  [.declare (assignDescriptors file), .declare (shutdownFile file)] ++
  file.services.flatMap generateDeclarations

/-- What the source has in the namespace of the file. -/
def sourceBody (file : FileDescriptor) : Text :=
  generateBuildDescriptors file ++ file.services.flatMap generateImplementation

theorem generateHeader_eq (file : FileDescriptor) : generateHeader file =
    forwardDeclarations ++ within (file.parts.map some) (headerBody file) := by
  simp [generateHeader, generateNamespaceOpeners, generateNamespaceClosers, within, headerBody,
    Function.comp_def]

theorem generateSource_eq (file : FileDescriptor) : generateSource file =
    descriptorVariables file ++ within (file.parts.map some) (sourceBody file) := by
  simp [generateSource, generateNamespaceOpeners, generateNamespaceClosers, within, sourceBody,
    Function.comp_def]

@[simp] theorem plain_declare (entity : Entity) : (.declare entity : Item Bytes Entity).Plain :=
  trivial

@[simp] theorem plain_use (entity : Entity) : (.use entity : Item Bytes Entity).Plain := trivial

theorem signatures_members {service : ServiceDescriptor} {stub : Bool} :
    ∀ item ∈ generateMethodSignatures service stub,
      ∃ id name, item = .declare (.member id name) := by
  intro item member
  obtain ⟨method, _, member⟩ := List.mem_flatMap.mp member
  cases stub with
  | false => exact ⟨_, _, List.mem_singleton.mp member⟩
  | true =>
    simp only [if_true, List.mem_cons, List.not_mem_nil, or_false] at member
    rcases member with rfl | rfl | rfl
    all_goals exact ⟨_, _, rfl⟩

theorem declarations_plain (service : ServiceDescriptor) :
    ∀ item ∈ generateDeclarations service, item.Plain := by
  have signatures (stub : Bool) : ∀ item ∈ generateMethodSignatures service stub, item.Plain := by
    intro item member
    obtain ⟨_, _, rfl⟩ := signatures_members item member
    trivial
  simp only [generateDeclarations, generateInterface, generateStubDefinition,
    List.forall_mem_append, List.forall_mem_cons, plain_declare, plain_use, List.not_mem_nil,
    false_implies, implies_true, and_self, and_true, true_and]
  exact ⟨signatures false, signatures true⟩

theorem level_headerBody (file : FileDescriptor) : Level (headerBody file) := by
  apply Level.of_plain
  intro item member
  rcases List.mem_append.mp member with function | member
  · simp only [List.mem_cons, List.not_mem_nil, or_false] at function
    rcases function with rfl | rfl
    all_goals trivial
  · obtain ⟨service, _, member⟩ := List.mem_flatMap.mp member
    exact declarations_plain service item member

end Level

section Uses

variable {service : ServiceDescriptor}

/-- A use of something that is printed for the service before its implementation. -/
def Relies (service : ServiceDescriptor) (item : Item Bytes Entity) : Prop :=
  ∃ entity, item = .use entity ∧ (entity = assignDescriptorsOnce ∨
    entity = descriptorVariable service ∨ .declare entity ∈ generateDeclarations service)

theorem relies_declared {entity : Entity}
    (declared : .declare entity ∈ generateDeclarations service) :
    Relies service (.use entity) :=
  ⟨entity, rfl, .inr (.inr declared)⟩

theorem relies_once : Relies service (.use assignDescriptorsOnce) := ⟨_, rfl, .inl rfl⟩

theorem relies_variable : Relies service (.use (descriptorVariable service)) :=
  ⟨_, rfl, .inr (.inl rfl)⟩

theorem serviceClass_declared :
    .declare (serviceClass service) ∈ generateDeclarations service := by
  simp [generateDeclarations, generateInterface]

theorem stubClass_declared : .declare (stubClass service) ∈ generateDeclarations service := by
  simp [generateDeclarations]

theorem method_declared (member : method ∈ service.methods) :
    .declare (serviceMember service method.name) ∈ generateDeclarations service := by
  have signature : .declare (serviceMember service method.name) ∈
      generateMethodSignatures service false :=
    List.mem_flatMap.mpr ⟨method, member, by simp⟩
  simp [generateDeclarations, generateInterface, signature]

theorem stubMethod_declared (member : method ∈ service.methods) (suffix : Bytes)
    (printed : suffix ∈ [[], ascii "_Send", ascii "_Recv"]) :
    .declare (stubMember service (method.name ++ suffix)) ∈ generateDeclarations service := by
  have signature : .declare (stubMember service (method.name ++ suffix)) ∈
      generateMethodSignatures service true := by
    refine List.mem_flatMap.mpr ⟨method, member, ?_⟩
    simp only [List.mem_cons, List.not_mem_nil, or_false] at printed
    rcases printed with rfl | rfl | rfl
    · simp
    · simp
    · simp
  simp [generateDeclarations, generateStubDefinition, signature]

theorem ofService_relies {name : Bytes}
    (declared : .declare (serviceMember service name) ∈ generateDeclarations service) :
    ∀ item ∈ ofService service name, Relies service item := by
  simp only [ofService, List.forall_mem_cons, List.not_mem_nil, false_implies, implies_true,
    and_true]
  exact ⟨relies_declared serviceClass_declared, relies_declared declared⟩

theorem ofStub_relies {name : Bytes}
    (declared : .declare (stubMember service name) ∈ generateDeclarations service) :
    ∀ item ∈ ofStub service name, Relies service item := by
  simp only [ofStub, List.forall_mem_cons, List.not_mem_nil, false_implies, implies_true,
    and_true]
  exact ⟨relies_declared stubClass_declared, relies_declared declared⟩

theorem channel_relies : Relies service (.use (stubMember service (ascii "channel_"))) :=
  relies_declared (by simp [generateDeclarations, generateStubDefinition])

theorem descriptor_declared :
    .declare (serviceMember service (ascii "descriptor")) ∈ generateDeclarations service := by
  simp [generateDeclarations, generateInterface]

theorem notImplemented_relies :
    ∀ item ∈ generateNotImplementedMethods service, Relies service item := by
  intro item member
  obtain ⟨method, known, member⟩ := List.mem_flatMap.mp member
  exact ofService_relies (method_declared known) item member

theorem callMethod_relies : ∀ item ∈ generateCallMethod service, Relies service item := by
  simp only [generateCallMethod, List.forall_mem_append, List.forall_mem_singleton]
  refine ⟨⟨ofService_relies (by simp [generateDeclarations, generateInterface]),
    relies_variable⟩, ?_⟩
  intro item member
  obtain ⟨c, known, rfl⟩ := List.mem_map.mp member
  obtain ⟨i, bound, rfl⟩ := List.mem_mapIdx.mp known
  exact relies_declared (method_declared (List.getElem_mem bound))

theorem getPrototype_relies (which : RequestOrResponse) :
    ∀ item ∈ generateGetPrototype service which, Relies service item := by
  simp only [generateGetPrototype, List.forall_mem_append, List.forall_mem_singleton]
  refine ⟨?_, relies_declared descriptor_declared⟩
  cases which
  · exact ofService_relies (by simp [generateDeclarations, generateInterface])
  · exact ofService_relies (by simp [generateDeclarations, generateInterface])

theorem stubMethods_relies : ∀ item ∈ generateStubMethods service, Relies service item := by
  intro item inside
  obtain ⟨method, known, member⟩ := List.mem_flatMap.mp inside
  have plain := stubMethod_declared known [] (by simp)
  have sends := stubMethod_declared known (ascii "_Send") (by simp)
  have receives := stubMethod_declared known (ascii "_Recv") (by simp)
  rw [List.append_nil] at plain
  clear inside
  revert item
  simp only [List.forall_mem_append, List.forall_mem_cons, List.not_mem_nil, false_implies,
    implies_true, and_true]
  exact ⟨⟨⟨⟨⟨⟨ofStub_relies plain, relies_declared sends, relies_declared receives⟩,
    ofStub_relies sends⟩, channel_relies⟩, ofService_relies descriptor_declared⟩,
    ofStub_relies receives⟩, channel_relies⟩

/-- Everything the implementation of a service mentions is printed for the service before,
or is the assign-once function of the file. -/
theorem implementation_relies : ∀ item ∈ generateImplementation service, Relies service item := by
  have destroyed : .declare (serviceMember service (ascii "~" ++ service.name)) ∈
      generateDeclarations service := by simp [generateDeclarations, generateInterface]
  have described : .declare (serviceMember service (ascii "GetDescriptor")) ∈
      generateDeclarations service := by simp [generateDeclarations, generateInterface]
  have made : .declare (stubMember service (stubName service)) ∈
      generateDeclarations service := by simp [generateDeclarations, generateStubDefinition]
  have unmade : .declare (stubMember service (ascii "~" ++ stubName service)) ∈
      generateDeclarations service := by simp [generateDeclarations, generateStubDefinition]
  simp only [generateImplementation, List.forall_mem_append, List.forall_mem_cons,
    List.not_mem_nil, false_implies, implies_true, and_true]
  refine ⟨⟨⟨⟨⟨⟨⟨⟨⟨⟨⟨⟨?_, ?_⟩, relies_once, relies_variable⟩, ?_⟩, relies_once, relies_variable⟩,
    notImplemented_relies⟩, callMethod_relies⟩, getPrototype_relies .request⟩,
    getPrototype_relies .response⟩, ?_⟩, channel_relies⟩, ?_⟩, stubMethods_relies⟩
  · exact ofService_relies destroyed
  · exact ofService_relies descriptor_declared
  · exact ofService_relies described
  · exact ofStub_relies made
  · exact ofStub_relies unmade

end Uses

section Declarations

variable (file : FileDescriptor)

theorem initializers_used :
    ∀ item ∈ file.services.flatMap generateDescriptorInitializer, item.IsUse := by
  intro item member
  obtain ⟨service, _, member⟩ := List.mem_flatMap.mp member
  rw [List.mem_singleton.mp member]
  trivial

theorem dependencies_used : ∀ item ∈ file.dependencies.map addDependency, item.IsUse := by
  intro item member
  obtain ⟨dependency, _, rfl⟩ := List.mem_map.mp member
  trivial

theorem implementations_used :
    ∀ item ∈ file.services.flatMap generateImplementation, item.IsUse := by
  intro item member
  obtain ⟨service, _, member⟩ := List.mem_flatMap.mp member
  obtain ⟨entity, rfl, _⟩ := implementation_relies item member
  trivial

theorem level_assigning : Level ([.declare (assignDescriptors file)] ++
    file.services.flatMap generateDescriptorInitializer) :=
  (Level.of_plain (by simp)).append (Level.of_uses (initializers_used file))

theorem level_assigningFunctions : Level (assigningFunctions file) :=
  (level_assigning file).append (Level.unnamed (Level.of_plain (by simp)))

/-- `AddDescriptors` up to the calls for the dependencies. -/
theorem level_adding : Level ([.declare (shutdownFile file), .declare (addDescriptors file)] ++
    file.dependencies.map addDependency) :=
  (Level.of_plain (by simp)).append (Level.of_uses (dependencies_used file))

theorem level_registering :
    Level (if hasDescriptorMethods file then [.use registerTypes] else [] : Text) := by
  split
  · exact Level.of_plain (by simp)
  · exact .nil

theorem level_addingFunctions : Level (addingFunctions file) :=
  ((level_adding file).append (level_registering file)).append (Level.of_plain (by simp))

theorem level_build : Level (generateBuildDescriptors file) := by
  refine Level.append ?_ (level_addingFunctions file)
  split
  · exact level_assigningFunctions file
  · exact .nil

/-- The declarations of a service declare its two classes and their members. -/
theorem declarations_declare {service : ServiceDescriptor} {entity : Entity}
    (declared : .declare entity ∈ generateDeclarations service) :
    entity = serviceClass service ∨ entity = stubClass service ∨
      ∃ id name, entity = .member id name := by
  simp only [generateDeclarations, generateInterface, generateStubDefinition, List.mem_append,
    List.mem_cons, Item.declare.injEq, reduceCtorEq, List.not_mem_nil, or_false, false_or]
    at declared
  have signatures {stub} (printed : .declare entity ∈ generateMethodSignatures service stub) :
      ∃ id name, entity = .member id name := by
    obtain ⟨_, _, same⟩ := signatures_members _ printed
    exact ⟨_, _, Item.declare.inj same⟩
  simp only [serviceMember, stubMember] at declared
  grind

theorem header_declares {entity : Entity} (declared : .declare entity ∈ headerBody file) :
    entity = assignDescriptors file ∨ entity = shutdownFile file ∨
      ∃ service ∈ file.services, .declare entity ∈ generateDeclarations service := by
  rcases List.mem_append.mp declared with function | member
  · simp only [List.mem_cons, Item.declare.injEq, List.not_mem_nil, or_false] at function
    rcases function with rfl | rfl
    · exact .inl rfl
    · exact .inr (.inl rfl)
  · exact .inr (.inr (List.mem_flatMap.mp member))

/-- The source declares variables and functions, those of `assigningFunctions` only where
the messages have descriptors. -/
theorem source_declares {entity : Entity} (declared : .declare entity ∈ generateSource file) :
    (∃ name, entity = .global name) ∨ entity = shutdownFile file ∨ entity = addDescriptors file ∨
      (hasDescriptorMethods file = true ∧ ∃ name, entity = .function name) := by
  rw [generateSource_eq, List.mem_append, declare_mem_within] at declared
  rcases declared with pointer | body
  · rw [descriptorVariables, declare_mem_within] at pointer
    obtain ⟨service, _, same⟩ := List.mem_map.mp pointer
    exact .inl ⟨_, (Item.declare.inj same).symm⟩
  rw [sourceBody, generateBuildDescriptors, List.mem_append, List.mem_append] at body
  rcases body with (assigning | adding) | implementation
  · split at assigning
    · rename_i reflective
      simp only [assigningFunctions, generateDescriptorInitializer, List.mem_append,
        List.mem_flatMap, List.mem_cons, declare_mem_within, Item.declare.injEq, reduceCtorEq,
        List.not_mem_nil, or_false, false_or, and_false, exists_false] at assigning
      rcases assigning with rfl | rfl | rfl | rfl
      · exact .inr (.inr (.inr ⟨reflective, _, rfl⟩))
      · exact .inl ⟨_, rfl⟩
      · exact .inr (.inr (.inr ⟨reflective, _, rfl⟩))
      · exact .inr (.inr (.inr ⟨reflective, _, rfl⟩))
    · cases assigning
  · have printed : entity = shutdownFile file ∨ entity = addDescriptors file := by
      revert adding
      cases hasDescriptorMethods file
      · simp [addingFunctions, addDependency]
      · simp [addingFunctions, addDependency]
    rcases printed with rfl | rfl
    · exact .inr (.inl rfl)
    · exact .inr (.inr (.inl rfl))
  · obtain ⟨service, _, member⟩ := List.mem_flatMap.mp implementation
    obtain ⟨_, same, _⟩ := implementation_relies _ member
    cases same

theorem source_no_class (id : ClassId) (name : Bytes) :
    .declare (.classOf id name) ∉ generateSource file := by
  intro declared
  rcases source_declares file declared with ⟨_, same⟩ | same | same | ⟨_, _, same⟩
  all_goals cases same

theorem once_ne (suffix : Bytes) :
    assignDescriptorsOnce ≠ .function (ascii "zqrpc_" ++ suffix) := by
  intro same
  have heads := congrArg List.head? (Entity.function.inj same)
  simp [ascii] at heads

/-- Without descriptors the assign-once function is printed nowhere. -/
theorem once_undeclared (lite : hasDescriptorMethods file = false) :
    .declare assignDescriptorsOnce ∉ generateHeader file ++ generateSource file := by
  intro declared
  rcases List.mem_append.mp declared with header | source
  · rw [generateHeader_eq, List.mem_append, declare_mem_within] at header
    rcases header with forward | body
    · simp [forwardDeclarations, assignDescriptorsOnce] at forward
    · rcases header_declares file body with same | same | ⟨service, _, printed⟩
      · exact once_ne _ same
      · exact once_ne _ same
      · rcases declarations_declare printed with same | same | ⟨_, _, same⟩
        all_goals cases same
  · rcases source_declares file source with ⟨_, same⟩ | same | same | ⟨reflective, _⟩
    · cases same
    · exact once_ne _ same
    · exact once_ne _ same
    · exact absurd (lite.symm.trans reflective) Bool.false_ne_true

end Declarations

end Zqrpc.Scopes
