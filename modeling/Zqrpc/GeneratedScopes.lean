import Zqrpc.Scoping
import Zqrpc.ServiceGenerator

/-! What the printed header and source declare and use, namespace by namespace: the classes
of the services and their stubs, the descriptor variables and the functions around them. -/
namespace Zqrpc.Scopes

open Numeral Scoping

section Names

/-- The pieces between the delimiters, without the empty ones. -/
def splitStringUsing (full : Bytes) (delim : UInt8) : List Bytes :=
  (full.splitOn delim).filter fun piece => piece ≠ []

def packageParts (package : Bytes) : List Bytes := splitStringUsing package 46

def asciiIsalnum (c : UInt8) : Bool :=
  (97 ≤ c && c ≤ 122) || (65 ≤ c && c ≤ 90) || (48 ≤ c && c ≤ 57)

def fastHexToBuffer (i : Nat) : Bytes := (Nat.toDigits 16 i).map fun c => c.toNat.toUInt8

def filenameIdentifier (filename : Bytes) : Bytes :=
  filename.flatMap fun c => if asciiIsalnum c then [c] else ascii "_" ++ fastHexToBuffer c.toNat

example : filenameIdentifier (ascii "a/b.proto") = ascii "a_2fb_2eproto" := by decide

def globalAddDescriptorsName (filename : Bytes) : Bytes :=
  ascii "protobuf_AddDesc_" ++ filenameIdentifier filename

def globalAssignDescriptorsName (filename : Bytes) : Bytes :=
  ascii "protobuf_AssignDesc_" ++ filenameIdentifier filename

def globalShutdownFileName (filename : Bytes) : Bytes :=
  ascii "protobuf_ShutdownFile_" ++ filenameIdentifier filename

/-- `ClassName(descriptor, false)`; `outer->name()` is behind the last dot. -/
def unqualifiedClassName (descriptor : Descriptor) : Bytes :=
  let outerName := descriptor.outer.fullName
  let innerName := descriptor.fullName.drop outerName.length
  outerName.rtakeWhile (fun c => c ≠ 46) ++ dotsToUnderscores innerName

example : unqualifiedClassName (.nested (.top (ascii "foo.bar.Baz")) (ascii "foo.bar.Baz.Qux")) =
    ascii "Baz_Qux" := by decide

end Names

section Descriptors

structure ServiceDescriptor where
  name : Bytes
  methods : List MethodDescriptor

inductive OptimizeMode where
  | speed | codeSize | liteRuntime
  deriving DecidableEq

/-- What is used of `file->dependency(i)`. -/
structure Dependency where
  name : Bytes
  package : Bytes

structure FileDescriptor where
  name : Bytes
  package : Bytes
  /-- the message types, nested ones included -/
  messages : List Descriptor
  services : List ServiceDescriptor
  dependencies : List Dependency
  optimizeFor : OptimizeMode
  /-- protobuf refuses two services of one name -/
  distinct : (services.map ServiceDescriptor.name).Nodup

def FileDescriptor.parts (file : FileDescriptor) : List Bytes := packageParts file.package

def hasDescriptorMethods (file : FileDescriptor) : Bool := file.optimizeFor ≠ .liteRuntime

end Descriptors

/-- Which class is meant, whatever its name is. -/
inductive ClassId where
  | runtime
  | message
  | service (of : ServiceDescriptor)
  | stub (of : ServiceDescriptor)

inductive Entity where
  | classOf (id : ClassId) (name : Bytes)
  | function (name : Bytes)
  | global (name : Bytes)
  | member (of : ClassId) (name : Bytes)

abbrev Text := List (Item Bytes Entity)

def assignDescriptorsOnce : Entity := .function (ascii "protobuf_AssignDescriptorsOnce")

section ServiceGenerator

variable (service : ServiceDescriptor)

def stubName : Bytes := service.name ++ ascii "_Stub"

def descriptorVariable : Entity := .global (service.name ++ ascii "_descriptor_")

def serviceClass : Entity := .classOf (.service service) service.name
def stubClass : Entity := .classOf (.stub service) (stubName service)

def serviceMember (name : Bytes) : Entity := .member (.service service) name
def stubMember (name : Bytes) : Entity := .member (.stub service) name

/-- The calls with `VIRTUAL` and `NON_VIRTUAL`. -/
def generateMethodSignatures (stub : Bool) : Text :=
  service.methods.flatMap fun method =>
    if stub then
      [Item.declare (stubMember service method.name),
        Item.declare (stubMember service (method.name ++ ascii "_Send")),
        Item.declare (stubMember service (method.name ++ ascii "_Recv"))]
    else [Item.declare (serviceMember service method.name)]

def generateInterface : Text :=
  [Item.declare (serviceClass service),
    Item.declare (serviceMember service service.name),
    Item.declare (serviceMember service (ascii "~" ++ service.name)),
    Item.use (stubClass service),
    Item.declare (serviceMember service (ascii "Stub")),
    Item.declare (serviceMember service (ascii "descriptor"))] ++
  generateMethodSignatures service false ++
  [Item.declare (serviceMember service (ascii "GetDescriptor")),
    Item.declare (serviceMember service (ascii "CallMethod")),
    Item.declare (serviceMember service (ascii "GetRequestPrototype")),
    Item.declare (serviceMember service (ascii "GetResponsePrototype"))]

/-- The body of `channel()` is in the class and sees all its members. -/
def generateStubDefinition : Text :=
  [Item.declare (stubClass service),
    Item.declare (stubMember service (stubName service)),
    Item.declare (stubMember service (ascii "~" ++ stubName service)),
    Item.declare (stubMember service (ascii "channel"))] ++
  generateMethodSignatures service true ++
  [Item.declare (stubMember service (ascii "channel_")),
    Item.declare (stubMember service (ascii "owns_channel_")),
    Item.use (stubMember service (ascii "channel_"))]

def generateDeclarations : Text :=
  [Item.declare (stubClass service)] ++ generateInterface service ++ generateStubDefinition service

def generateDescriptorInitializer : Text := [Item.use (descriptorVariable service)]

/-- `$classname$::name` -/
def ofService (name : Bytes) : Text :=
  [Item.use (serviceClass service), Item.use (serviceMember service name)]

/-- `$classname$_Stub::name` -/
def ofStub (name : Bytes) : Text :=
  [Item.use (stubClass service), Item.use (stubMember service name)]

def generateNotImplementedMethods : Text :=
  service.methods.flatMap fun method => ofService service method.name

def generateCallMethod : Text :=
  ofService service (ascii "CallMethod") ++ [Item.use (descriptorVariable service)] ++
  (Zqrpc.generateCallMethod service.methods).map fun c => Item.use (serviceMember service c.name)

def generateGetPrototype (which : RequestOrResponse) : Text :=
  (match which with
    | .request => ofService service (ascii "GetRequestPrototype")
    | .response => ofService service (ascii "GetResponsePrototype")) ++
  [Item.use (serviceMember service (ascii "descriptor"))]

def generateStubMethods : Text :=
  service.methods.flatMap fun method =>
    ofStub service method.name ++
    [Item.use (stubMember service (method.name ++ ascii "_Send")),
      Item.use (stubMember service (method.name ++ ascii "_Recv"))] ++
    ofStub service (method.name ++ ascii "_Send") ++
    [Item.use (stubMember service (ascii "channel_"))] ++
    ofService service (ascii "descriptor") ++
    ofStub service (method.name ++ ascii "_Recv") ++
    [Item.use (stubMember service (ascii "channel_"))]

def generateImplementation : Text :=
  ofService service (ascii "~" ++ service.name) ++
  ofService service (ascii "descriptor") ++
  [Item.use assignDescriptorsOnce, Item.use (descriptorVariable service)] ++
  ofService service (ascii "GetDescriptor") ++
  [Item.use assignDescriptorsOnce, Item.use (descriptorVariable service)] ++
  generateNotImplementedMethods service ++
  generateCallMethod service ++
  generateGetPrototype service .request ++
  generateGetPrototype service .response ++
  ofStub service (stubName service) ++
  [Item.use (stubMember service (ascii "channel_"))] ++
  ofStub service (ascii "~" ++ stubName service) ++
  generateStubMethods service

end ServiceGenerator

section FileGenerator

variable (file : FileDescriptor)

def assignDescriptors : Entity :=
  .function (ascii "zqrpc_" ++ globalAssignDescriptorsName file.name)

def shutdownFile : Entity := .function (ascii "zqrpc_" ++ globalShutdownFileName file.name)

def addDescriptors : Entity := .function (ascii "zqrpc_" ++ globalAddDescriptorsName file.name)

def registerTypes : Entity := .function (ascii "protobuf_RegisterTypes")

def generateNamespaceOpeners : Text := file.parts.map fun part => .enter (some part)
def generateNamespaceClosers : Text := file.parts.map fun _ => .leave

/-- The classes of the runtime that the header declares itself. -/
def forwardDeclarations : Text :=
  within [some (ascii "google"), some (ascii "protobuf")]
    [Item.declare (.classOf .runtime (ascii "ServiceDescriptor")),
      Item.declare (.classOf .runtime (ascii "MethodDescriptor"))] ++
  within [some (ascii "zqrpc")] [Item.declare (.classOf .runtime (ascii "RpcChannel"))]

def generateHeader : Text :=
  forwardDeclarations ++ generateNamespaceOpeners file ++
  [Item.declare (assignDescriptors file), Item.declare (shutdownFile file)] ++
  file.services.flatMap generateDeclarations ++
  generateNamespaceClosers file

/-- The call of the `AddDescriptors` function of a dependency. -/
def addDependency (dependency : Dependency) : Item Bytes Entity :=
  .useAt (packageParts dependency.package) (.function (globalAddDescriptorsName dependency.name))

/-- The functions that assign the descriptors; two of them are in a namespace without a
name. -/
def assigningFunctions : Text :=
  [Item.declare (assignDescriptors file)] ++
  file.services.flatMap generateDescriptorInitializer ++
  within [none]
    [Item.declare (.global (ascii "protobuf_AssignDescriptors_once_")),
      Item.declare assignDescriptorsOnce,
      Item.use (.global (ascii "protobuf_AssignDescriptors_once_")),
      Item.use (assignDescriptors file),
      Item.declare registerTypes,
      Item.use assignDescriptorsOnce]

/-- `ShutdownFile` and `AddDescriptors`. -/
def addingFunctions : Text :=
  [Item.declare (shutdownFile file), Item.declare (addDescriptors file)] ++
  file.dependencies.map addDependency ++
  (if hasDescriptorMethods file then [Item.use registerTypes] else []) ++
  [Item.use (shutdownFile file)]

def generateBuildDescriptors : Text :=
  (if hasDescriptorMethods file then assigningFunctions file else []) ++ addingFunctions file

def descriptorVariables : Text :=
  within [none] (file.services.map fun service => Item.declare (descriptorVariable service))

def generateSource : Text :=
  descriptorVariables file ++ generateNamespaceOpeners file ++ generateBuildDescriptors file ++
  file.services.flatMap generateImplementation ++
  generateNamespaceClosers file

end FileGenerator

end Zqrpc.Scopes
