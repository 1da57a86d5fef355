import Zqrpc.GeneratedScopeRules
import Zqrpc.Linkage

/-! The generated files of several proto files in one program: the names of their functions
and of the macros that guard their headers are made from the names of the proto files, and
those of their members stand in the classes of the services. -/
namespace Zqrpc.Scopes

open Numeral Scoping Linkage

section Identifiers

def charIdentifier (c : UInt8) : Bytes :=
  if asciiIsalnum c then [c] else ascii "_" ++ fastHexToBuffer c.toNat

theorem filenameIdentifier_eq (filename : Bytes) :
    filenameIdentifier filename = filename.flatMap charIdentifier := rfl

/-- The bytes whose hex code has two digits. -/
def twoDigits : Set UInt8 := {c | 16 ≤ c}

def hexValue (digits : Bytes) : Nat :=
  digits.foldl (fun value c => 16 * value + (c.toNat - if c < 97 then 48 else 87)) 0

theorem fastHexToBuffer_digits : ∀ n < 256, hexValue (fastHexToBuffer n) = n ∧
    (fastHexToBuffer n).all asciiIsalnum = true ∧
    (16 ≤ n → (fastHexToBuffer n).length = 2) := by
  decide +kernel

/-- The code of a character with two digits begins no other code. -/
theorem charIdentifier_free : PrefixFree twoDigits charIdentifier where
  apart a twoA b twoB begins := by
    have hexA := fastHexToBuffer_digits a.toNat a.toNat_lt
    have hexB := fastHexToBuffer_digits b.toNat b.toNat_lt
    have lengthA := hexA.2.2 (UInt8.le_iff_toNat_le.mp twoA)
    have lengthB := hexB.2.2 (UInt8.le_iff_toNat_le.mp twoB)
    unfold charIdentifier at begins
    split at begins
    · rename_i alnumA
      split at begins
      · simpa using begins
      · obtain ⟨rfl, -⟩ := List.cons_prefix_cons.mp begins
        cases alnumA
    · split at begins
      · have shorter := begins.length_le
        simp [ascii, lengthA] at shorter
      · have inside := (List.prefix_append_right_inj (ascii "_")).mp begins
        have same := inside.eq_of_length (lengthA.trans lengthB.symm)
        refine UInt8.toNat_inj.mp ?_
        rw [← hexA.1, same, hexB.1]
  some' a _ := by
    unfold charIdentifier
    split
    · exact List.cons_ne_nil _ _
    · exact List.cons_ne_nil _ _

theorem filenameIdentifier_injective {a b : Bytes} (inA : ∀ c ∈ a, 16 ≤ c)
    (inB : ∀ c ∈ b, 16 ≤ c) (same : filenameIdentifier a = filenameIdentifier b) : a = b :=
  charIdentifier_free.flatMap_injective inA inB same

/-- A control character has one digit, which the next character may continue. -/
example : filenameIdentifier [2, 100, 98] = filenameIdentifier (ascii "-b") := by decide

def identifierChar (c : UInt8) : Bool := asciiIsalnum c || c == 95

/-- A name of the C++ language. -/
def IsIdentifier (name : Bytes) : Prop :=
  name.all identifierChar = true ∧ ∃ c ∈ name.head?, ¬(48 ≤ c ∧ c ≤ 57)

theorem identifier_append {front back : Bytes} (first : IsIdentifier front)
    (second : back.all identifierChar = true) : IsIdentifier (front ++ back) := by
  obtain ⟨all, c, head, letter⟩ := first
  refine ⟨by rw [List.all_append, all, second]; rfl, c, ?_, letter⟩
  rw [List.head?_append, Option.mem_def.mp head]
  rfl

theorem filenameIdentifier_chars (filename : Bytes) :
    (filenameIdentifier filename).all identifierChar = true := by
  rw [filenameIdentifier_eq, List.all_flatMap, List.all_eq_true]
  intro c _
  unfold charIdentifier
  split
  · rename_i alnum
    simp [identifierChar, alnum]
  · have digits := List.all_eq_true.mp (fastHexToBuffer_digits c.toNat c.toNat_lt).2.1
    rw [List.all_append, Bool.and_eq_true]
    exact ⟨by decide, List.all_eq_true.mpr fun d member => by
      simp [identifierChar, digits d member]⟩

end Identifiers

section Functions

/-- The functions that `GenerateBuildDescriptors` writes for a file. -/
inductive FileFunction where
  | assign | shutdown | add
  deriving DecidableEq

namespace FileFunction

def label : FileFunction → Bytes
  | .assign => ascii "zqrpc_protobuf_AssignDesc_"
  | .shutdown => ascii "zqrpc_protobuf_ShutdownFile_"
  | .add => ascii "zqrpc_protobuf_AddDesc_"

def entity (function : FileFunction) (filename : Bytes) : Entity :=
  .function (function.label ++ filenameIdentifier filename)

theorem label_apart (f g : FileFunction) (begins : f.label <+: g.label) : f = g := by
  cases f <;> cases g <;> first | rfl | exact absurd begins (by decide)

theorem entity_injective {f g : FileFunction} {a b : Bytes} (inA : ∀ c ∈ a, 16 ≤ c)
    (inB : ∀ c ∈ b, 16 ≤ c) (same : f.entity a = g.entity b) : f = g ∧ a = b := by
  have names := Entity.function.inj same
  have labels : f = g := by
    rcases List.append_eq_append_iff.mp names with ⟨more, longer, _⟩ | ⟨more, longer, _⟩
    · exact label_apart f g ⟨more, longer.symm⟩
    · exact (label_apart g f ⟨more, longer.symm⟩).symm
  subst labels
  exact ⟨rfl, filenameIdentifier_injective inA inB (List.append_cancel_left names)⟩

theorem entity_identifier (f : FileFunction) (filename : Bytes) :
    ∃ name, f.entity filename = .function name ∧ IsIdentifier name := by
  refine ⟨_, rfl, identifier_append ?_ (filenameIdentifier_chars filename)⟩
  cases f
  all_goals exact ⟨by decide, 122, rfl, by decide⟩

end FileFunction

/-- The functions of a file that its options ask for. -/
def fileFunctions (file : FileDescriptor) : List FileFunction :=
  (if hasDescriptorMethods file then [.assign] else []) ++ [.shutdown, .add]

theorem fileFunctions_nodup (file : FileDescriptor) : (fileFunctions file).Nodup := by
  unfold fileFunctions
  split <;> decide

theorem external_assigning (file : FileDescriptor) {s : Scope Bytes Entity}
    (seen : s.stack.all Option.isSome = true) : external s (assigningFunctions file) =
      [(s.path, FileFunction.entity .assign file.name)] := by
  rw [assigningFunctions, external_append, external_append,
    external_of_uses (initializers_used file), external_unnamed (by simp)]
  simp [external, exported, seen]
  rfl

theorem external_adding (file : FileDescriptor) {s : Scope Bytes Entity}
    (seen : s.stack.all Option.isSome = true) : external s (addingFunctions file) =
      [(s.path, FileFunction.entity .shutdown file.name),
        (s.path, FileFunction.entity .add file.name)] := by
  have registering (s : Scope Bytes Entity) :
      external s (if hasDescriptorMethods file then [.use registerTypes] else []) = [] := by
    split <;> rfl
  rw [addingFunctions, external_append, external_append, external_append,
    external_of_uses (dependencies_used file), registering]
  simp [external, exported, seen, Scope.path, Scope.step]
  exact ⟨rfl, rfl⟩

theorem external_body (file : FileDescriptor) {s : Scope Bytes Entity}
    (seen : s.stack.all Option.isSome = true) : external s (sourceBody file) =
      (fileFunctions file).map fun f => (s.path, f.entity file.name) := by
  rw [sourceBody, generateBuildDescriptors, external_append, external_append,
    external_of_uses (implementations_used file), List.append_nil, fileFunctions]
  split
  · have level := level_assigningFunctions file
    rw [external_assigning file seen, external_adding file ((level.stack s).symm ▸ seen),
      level.path]
    rfl
  · exact external_adding file seen

/-- What a generated source defines for other files. -/
theorem external_source (file : FileDescriptor) :
    external ⟨[], []⟩ (generateSource file) =
      (fileFunctions file).map fun f => (file.parts, f.entity file.name) := by
  have hidden : external ⟨[], []⟩ (descriptorVariables file) = [] :=
    external_unnamed (by simp) _
  have level : Level (descriptorVariables file) := Level.unnamed (Level.of_plain (by simp))
  have path : Scope.path ⟨file.parts.map some, (Scope.run ⟨[], []⟩
      (descriptorVariables file)).known⟩ = file.parts := by simp [Scope.path, List.reduceOption]
  rw [generateSource_eq, external_append, hidden, external_within, level.stack]
  refine (external_body file (by simp)).trans ?_
  exact congrArg (fun path => (fileFunctions file).map fun f => (path, f.entity file.name)) path

end Functions

section Members

/-- A function without its scope. That many parameters are enough to tell functions of one name
apart. -/
structure Signature where
  name : Bytes
  parameters : Nat
  deriving DecidableEq

/-- The members of the class of a service that `GenerateImplementation` defines. -/
def serviceDefinitions (service : ServiceDescriptor) : List Signature :=
  [⟨ascii "~" ++ service.name, 0⟩, ⟨ascii "descriptor", 0⟩, ⟨ascii "GetDescriptor", 0⟩] ++
  service.methods.map (⟨·.name, 2⟩) ++
  [⟨ascii "CallMethod", 3⟩, ⟨ascii "GetRequestPrototype", 1⟩, ⟨ascii "GetResponsePrototype", 1⟩]

/-- The members of its stub. -/
def stubDefinitions (service : ServiceDescriptor) : List Signature :=
  [⟨stubName service, 1⟩, ⟨ascii "~" ++ stubName service, 0⟩] ++
  service.methods.flatMap fun method =>
    [⟨method.name, 4⟩, ⟨method.name ++ ascii "_Send", 2⟩, ⟨method.name ++ ascii "_Recv", 3⟩]

/-- The classes of a file, in their namespaces, with the members that its source defines. -/
def classDefinitions (file : FileDescriptor) : List (List Bytes × List Signature) :=
  file.services.flatMap fun service =>
    [(file.parts ++ [service.name], serviceDefinitions service),
      (file.parts ++ [stubName service], stubDefinitions service)]

variable {service : ServiceDescriptor}

theorem destructor_ne {name text : Bytes} (head : text.head? ≠ some 126) :
    ascii "~" ++ name ≠ text := by
  rintro rfl
  exact head rfl

/-- Members with different numbers of parameters are different. -/
theorem signatures_disjoint {front back : List Signature} (p : Nat → Prop)
    (first : ∀ d ∈ front, p d.parameters) (second : ∀ d ∈ back, ¬p d.parameters) :
    front.Disjoint back :=
  fun d inFront inBack => second d inBack (first d inFront)

theorem serviceDefinitions_nodup (methods : (service.methods.map MethodDescriptor.name).Nodup) :
    (serviceDefinitions service).Nodup := by
  have named : (service.methods.map fun method => (⟨method.name, 2⟩ : Signature)).Nodup := by
    refine List.Nodup.of_map Signature.name ?_
    rwa [List.map_map]
  have fixed : ([⟨ascii "~" ++ service.name, 0⟩, ⟨ascii "descriptor", 0⟩,
      ⟨ascii "GetDescriptor", 0⟩] : List Signature).Nodup := by
    have descriptor : ascii "~" ++ service.name ≠ ascii "descriptor" := destructor_ne (by decide)
    have getter : ascii "~" ++ service.name ≠ ascii "GetDescriptor" := destructor_ne (by decide)
    have apart : ascii "descriptor" ≠ ascii "GetDescriptor" := by decide
    simp [descriptor, getter, apart]
  refine .append (.append fixed named ?_) (by decide) ?_
  · exact signatures_disjoint (· = 0) (by simp) (by simp)
  · exact signatures_disjoint (fun n => n = 0 ∨ n = 2) (by simp) (by simp)

theorem stubDefinitions_nodup (methods : (service.methods.map MethodDescriptor.name).Nodup) :
    (stubDefinitions service).Nodup := by
  have named : (service.methods.flatMap fun method =>
      ([⟨method.name, 4⟩, ⟨method.name ++ ascii "_Send", 2⟩,
        ⟨method.name ++ ascii "_Recv", 3⟩] : List Signature)).Nodup := by
    refine List.nodup_flatMap.mpr ⟨by simp, (List.pairwise_map.mp methods).imp ?_⟩
    intro a b apart d inA inB
    simp only [List.mem_cons, List.not_mem_nil, or_false] at inA inB
    rcases inA with rfl | rfl | rfl
    all_goals simp [apart] at inB
  refine .append (by simp) named ?_
  refine signatures_disjoint (· ≤ 1) (by simp) fun d inside => ?_
  obtain ⟨method, -, kind⟩ := List.mem_flatMap.mp inside
  simp only [List.mem_cons, List.not_mem_nil, or_false] at kind
  rcases kind with rfl | rfl | rfl
  all_goals simp

/-- Every class has a destructor, which goes by its name. -/
def destructor (path : List Bytes) : Signature := ⟨ascii "~" ++ path.getLastD [], 0⟩

variable {file : FileDescriptor} {c : List Bytes × List Signature}

theorem mem_classDefinitions : c ∈ classDefinitions file ↔ ∃ service ∈ file.services,
    c = (file.parts ++ [service.name], serviceDefinitions service) ∨
    c = (file.parts ++ [stubName service], stubDefinitions service) := by
  simp [classDefinitions]

theorem destructor_defined (member : c ∈ classDefinitions file) : destructor c.1 ∈ c.2 := by
  obtain ⟨service, -, rfl | rfl⟩ := mem_classDefinitions.mp member
  · simp [destructor, serviceDefinitions]
  · simp [destructor, stubDefinitions]

theorem classDefinitions_nodup (methods : ∀ service ∈ file.services,
    (service.methods.map MethodDescriptor.name).Nodup) (member : c ∈ classDefinitions file) :
    c.2.Nodup := by
  obtain ⟨service, there, rfl | rfl⟩ := mem_classDefinitions.mp member
  · exact serviceDefinitions_nodup (methods service there)
  · exact stubDefinitions_nodup (methods service there)

/-- No member has the name of a function of a file and no parameters. -/
theorem member_head (member : c ∈ classDefinitions file) :
    ∀ d ∈ c.2, d.parameters = 0 → d.name.head? ≠ some 122 := by
  intro d inside none'
  have tilde (name : Bytes) : (ascii "~" ++ name).head? = some 126 := rfl
  obtain ⟨service, -, rfl | rfl⟩ := mem_classDefinitions.mp member
  · simp only [serviceDefinitions, List.mem_append, List.mem_cons, List.mem_map,
      List.not_mem_nil, or_false] at inside
    rcases inside with ((rfl | rfl | rfl) | ⟨_, _, rfl⟩) | rfl | rfl | rfl
    · exact tilde service.name ▸ by decide
    · decide
    · decide
    all_goals cases none'
  · simp only [stubDefinitions, List.mem_append, List.mem_cons, List.mem_flatMap,
      List.not_mem_nil, or_false] at inside
    rcases inside with (rfl | rfl) | ⟨_, _, rfl | rfl | rfl⟩
    · cases none'
    · exact tilde (stubName service) ▸ by decide
    all_goals cases none'

end Members

section Files

/-- The header of a file with the macro that guards it. -/
def generatedHeader (file : FileDescriptor) : Header Bytes (Item Bytes Entity) :=
  ⟨ascii "ZQRPC_" ++ filenameIdentifier file.name ++ ascii "__INCLUDED", generateHeader file⟩

variable {k : Nat} {files : Fin k → FileDescriptor}

theorem guard_injective (names : Function.Injective fun i => (files i).name)
    (spelled : ∀ i, ∀ c ∈ (files i).name, 16 ≤ c) :
    Function.Injective fun i => (generatedHeader (files i)).guard := by
  intro i j same
  have identifiers := List.append_cancel_left (List.append_cancel_right same)
  exact names (filenameIdentifier_injective (spelled i) (spelled j) identifiers)

/-- What the linker tells functions apart by. -/
abbrev Symbol := List Bytes × Signature

/-- A function of a file has no parameters. -/
def functionSymbol : List Bytes × Entity → Option Symbol
  | (path, .function name) => some (path, ⟨name, 0⟩)
  | _ => none

def functionSymbols (file : FileDescriptor) : List Symbol :=
  (external ⟨[], []⟩ (generateSource file)).filterMap functionSymbol

/-- All functions that a generated source defines for other files. -/
def symbols (file : FileDescriptor) : List Symbol :=
  functionSymbols file ++ membersOf (classDefinitions file)

theorem functionSymbols_eq (file : FileDescriptor) : functionSymbols file =
    (fileFunctions file).map fun f =>
      (file.parts, ⟨f.label ++ filenameIdentifier file.name, 0⟩) := by
  rw [functionSymbols, external_source, List.filterMap_map]
  exact congrFun List.filterMap_eq_map (fileFunctions file)

/-- The functions of all files have different names. -/
theorem names_nodup (names : Function.Injective fun i => (files i).name)
    (spelled : ∀ i, ∀ c ∈ (files i).name, 16 ≤ c) :
    (((List.finRange k).flatMap fun i =>
      external ⟨[], []⟩ (generateSource (files i))).map Prod.snd).Nodup := by
  rw [List.map_flatMap, List.nodup_flatMap]
  constructor
  · intro i _
    rw [external_source, List.map_map]
    refine (fileFunctions_nodup (files i)).map fun f g same => ?_
    exact (FileFunction.entity_injective (spelled i) (spelled i) same).1
  · refine (List.nodup_finRange k).imp fun {i j} other => ?_
    simp only [Function.onFun, external_source, List.map_map]
    intro entity inI inJ
    obtain ⟨f, _, rfl⟩ := List.mem_map.mp inI
    obtain ⟨g, _, same⟩ := List.mem_map.mp inJ
    exact other (names (FileFunction.entity_injective (spelled j) (spelled i) same).2.symm)

theorem functionSymbols_nodup (names : Function.Injective fun i => (files i).name)
    (spelled : ∀ i, ∀ c ∈ (files i).name, 16 ≤ c) :
    ((List.finRange k).flatMap fun i => functionSymbols (files i)).Nodup := by
  refine List.Nodup.of_map (fun symbol => Entity.function symbol.2.name) ?_
  have same : ((List.finRange k).flatMap fun i => functionSymbols (files i)).map
      (fun symbol => Entity.function symbol.2.name) = ((List.finRange k).flatMap fun i =>
        external ⟨[], []⟩ (generateSource (files i))).map Prod.snd := by
    rw [List.map_flatMap, List.map_flatMap]
    refine List.flatMap_congr fun i _ => ?_
    rw [functionSymbols_eq, external_source, List.map_map, List.map_map]
    rfl
  rw [same]
  exact names_nodup names spelled

/-- The classes of all files, in their namespaces. -/
def classes (files : Fin k → FileDescriptor) : List (List Bytes) :=
  (List.finRange k).flatMap fun i => (classDefinitions (files i)).map Prod.fst

/-- All members are different if and only if all classes are. -/
theorem members_nodup_iff (methods : ∀ i, ∀ service ∈ (files i).services,
      (service.methods.map MethodDescriptor.name).Nodup) :
    ((List.finRange k).flatMap fun i => membersOf (classDefinitions (files i))).Nodup ↔
      (classes files).Nodup := by
  rw [← membersOf_flatMap, classes, ← List.map_flatMap]
  refine membersOf_nodup_iff destructor (fun c member => ?_) fun c member => ?_
  · obtain ⟨i, -, there⟩ := List.mem_flatMap.mp member
    exact destructor_defined there
  · obtain ⟨i, -, there⟩ := List.mem_flatMap.mp member
    exact classDefinitions_nodup (methods i) there

/-- No member is a function of a file. -/
theorem functions_members_disjoint :
    List.Disjoint ((List.finRange k).flatMap fun i => functionSymbols (files i))
      ((List.finRange k).flatMap fun i => membersOf (classDefinitions (files i))) := by
  intro symbol function member
  obtain ⟨i, -, function⟩ := List.mem_flatMap.mp function
  obtain ⟨j, -, member⟩ := List.mem_flatMap.mp member
  rw [functionSymbols_eq] at function
  obtain ⟨f, -, rfl⟩ := List.mem_map.mp function
  obtain ⟨c, there, -, inside⟩ := mem_membersOf.mp member
  refine member_head there _ inside rfl ?_
  cases f <;> rfl

theorem symbols_nodup_iff (names : Function.Injective fun i => (files i).name)
    (spelled : ∀ i, ∀ c ∈ (files i).name, 16 ≤ c)
    (methods : ∀ i, ∀ service ∈ (files i).services,
      (service.methods.map MethodDescriptor.name).Nodup) :
    ((List.finRange k).flatMap fun i => symbols (files i)).Nodup ↔ (classes files).Nodup := by
  have parts := List.flatMap_append_perm (List.finRange k) (fun i => functionSymbols (files i))
    fun i => membersOf (classDefinitions (files i))
  rw [← members_nodup_iff methods]
  unfold symbols
  rw [← parts.nodup_iff, List.nodup_append']
  exact ⟨fun all => all.2.1, fun members =>
    ⟨functionSymbols_nodup names spelled, members, functions_members_disjoint⟩⟩

/-- The generated files of proto files with different names, in which no byte is below 16, define
no function twice if and only if no two of their classes, stubs included, have one name. The
functions outside of the classes have different names whatever the packages are, and a
translation unit that includes the headers in any order reads each of them once. -/
theorem files_link (names : Function.Injective fun i => (files i).name)
    (spelled : ∀ i, ∀ c ∈ (files i).name, 16 ≤ c)
    (methods : ∀ i, ∀ service ∈ (files i).services,
      (service.methods.map MethodDescriptor.name).Nodup) :
    (((List.finRange k).flatMap fun i => symbols (files i)).Nodup ↔ (classes files).Nodup) ∧
    (((List.finRange k).flatMap fun i =>
      external ⟨[], []⟩ (generateSource (files i))).map Prod.snd).Nodup ∧
    (∀ i, ∀ definition ∈ external ⟨[], []⟩ (generateSource (files i)),
      ∃ name, definition.2 = .function name ∧ IsIdentifier name) ∧
    ∀ includes : List (Fin k),
      includeAll [] (includes.map fun i => generatedHeader (files i)) =
        includes.eraseDups.flatMap fun i => generateHeader (files i) := by
  refine ⟨symbols_nodup_iff names spelled methods, names_nodup names spelled,
    fun i definition member => ?_, fun includes => ?_⟩
  · rw [external_source] at member
    obtain ⟨f, _, rfl⟩ := List.mem_map.mp member
    exact f.entity_identifier (files i).name
  · have all : includes.filter (· ∉ ([] : List (Fin k))) = includes := by simp
    have once := includeAll_once (guard_injective names spelled) [] includes
    rw [all] at once
    exact once

def sayMethod (name : Bytes) : MethodDescriptor where
  name := name
  fullName := ascii "p.Echo." ++ name
  index := 0
  service := 0
  inputType := .top (ascii "p.In")
  outputType := .top (ascii "p.Out")

/-- Two files of one package, whose names differ in a character that no C++ name has; one
method has the name of the stub method of another. -/
def slashAndDash : Fin 2 → FileDescriptor :=
  ![⟨ascii "a/b.proto", ascii "p", [], [⟨ascii "Echo", [sayMethod (ascii "Say"),
      sayMethod (ascii "Say_Send")]⟩], [], .speed, by decide⟩,
    ⟨ascii "a-b.proto", ascii "p", [], [⟨ascii "Ping", [sayMethod (ascii "Say")]⟩], [],
      .liteRuntime, by decide⟩]

theorem files_link_slash :
    ((List.finRange 2).flatMap fun i => symbols (slashAndDash i)).Nodup ∧
    (((List.finRange 2).flatMap fun i =>
      external ⟨[], []⟩ (generateSource (slashAndDash i))).map Prod.snd).Nodup := by
  have names : Function.Injective fun i => (slashAndDash i).name := by
    simp only [Function.Injective, Fin.forall_fin_two]
    decide +kernel
  have spelled : ∀ i, ((slashAndDash i).name.all fun c => 16 ≤ c) = true := by decide
  have methods : ∀ i, ∀ service ∈ (slashAndDash i).services,
      (service.methods.map MethodDescriptor.name).Nodup := by
    simp only [Fin.forall_fin_two, slashAndDash, sayMethod]
    decide +kernel
  have apart : (classes slashAndDash).Nodup := by decide +kernel
  obtain ⟨link, functions, -⟩ := files_link names
    (fun i c member => by simpa using List.all_eq_true.mp (spelled i) c member) methods
  exact ⟨link.mpr apart, functions⟩

/-- A stub and a service of one name do not go together. -/
example : ¬(classes ![⟨ascii "a.proto", ascii "p", [], [⟨ascii "Foo", []⟩], [], .speed, by decide⟩,
    ⟨ascii "b.proto", ascii "p", [], [⟨ascii "Foo_Stub", []⟩], [], .speed, by decide⟩]).Nodup := by
  decide +kernel

end Files

end Zqrpc.Scopes
