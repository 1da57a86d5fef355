import Zqrpc.Registry

/-! What the plugin generates for a service, and what the generated code does: the switch
of `CallMethod`, the two of the prototypes, and the stub. `method->index()` meets the labels
of the generated cases as text read back as a number. -/
namespace Zqrpc

open Numeral

/-- A message type, with the message it is declared in. -/
inductive Descriptor where
  | top (fullName : Bytes)
  | nested (containing : Descriptor) (fullName : Bytes)

namespace Descriptor

def fullName : Descriptor → Bytes
  | top fullName => fullName
  | nested _ fullName => fullName

/-- The descriptor of the top-level message the type is embedded in. -/
def outer : Descriptor → Descriptor
  | top fullName => top fullName
  | nested containing _ => containing.outer

end Descriptor

def replaceDots (text name : Bytes) : Bytes :=
  name.flatMap fun b => if b = 46 then text else [b]

def dotsToUnderscores (name : Bytes) : Bytes := replaceDots (ascii "_") name
def dotsToColons (name : Bytes) : Bytes := replaceDots (ascii "::") name

/-- `ClassName(descriptor, true)` -/
def className (descriptor : Descriptor) : Bytes :=
  let outerName := descriptor.outer.fullName
  let innerName := descriptor.fullName.drop outerName.length
  ascii "::" ++ dotsToColons outerName ++ dotsToUnderscores innerName

structure MethodDescriptor where
  name : Bytes
  fullName : Bytes
  index : Nat
  /-- `method->service()` -/
  service : Ptr
  inputType : Descriptor
  outputType : Descriptor

/-- `case $index$: $name$(down_cast<const $input_type$*>(request), …); break;` -/
structure CallCase where
  index : Bytes
  name : Bytes
  inputType : Bytes
  outputType : Bytes

def callCase (i : Nat) (method : MethodDescriptor) : CallCase :=
  ⟨decimal i, method.name, className method.inputType, className method.outputType⟩

def generateCallMethod (methods : List MethodDescriptor) : List CallCase :=
  methods.mapIdx callCase

inductive RequestOrResponse where
  | request | response

def RequestOrResponse.type (which : RequestOrResponse) (method : MethodDescriptor) : Descriptor :=
  match which with
  | request => method.inputType
  | response => method.outputType

/-- `case $index$: return $type$::default_instance();` -/
structure PrototypeCase where
  index : Bytes
  type : Bytes

def prototypeCase (which : RequestOrResponse) (i : Nat) (method : MethodDescriptor) :
    PrototypeCase :=
  ⟨decimal i, className (which.type method)⟩

def generateGetPrototype (which : RequestOrResponse) (methods : List MethodDescriptor) :
    List PrototypeCase :=
  methods.mapIdx (prototypeCase which)

/-- `$name$_Send`, which passes `descriptor()->method($index$)` to `ZSendMethod`. -/
structure StubMethod where
  name : Bytes
  index : Bytes

def stubMethod (i : Nat) (method : MethodDescriptor) : StubMethod :=
  ⟨method.name ++ ascii "_Send", decimal i⟩

def generateStubMethods (methods : List MethodDescriptor) : List StubMethod :=
  methods.mapIdx stubMethod

/-- A service object: its class, by the address of its descriptor, and its virtual methods. -/
structure ServiceObject (Msg : Type) where
  descriptor : Ptr
  handlers : Bytes → Msg → HandlerEnd Msg

/-- The descriptors and objects of the process, by their addresses. -/
structure World (Msg : Type) where
  methods : Ptr → MethodDescriptor
  /-- `descriptor->method(i)` of the service descriptor at an address -/
  services : Ptr → List Ptr
  objects : Ptr → ServiceObject Msg
  /-- `T::default_instance()` of the class of this name -/
  defaultInstance : Bytes → Ptr
  /-- the class of what `New()` on the instance at an address gives -/
  newClass : Ptr → Bytes

/-- `switch(index)`, over cases with their labels as text. -/
def switch {C : Type} (label : C → Bytes) (cases : List C) (index : Nat) : Option C :=
  cases.find? fun c => value (label c) = index

namespace World

variable {Msg : Type} (world : World Msg)

/-- The descriptors the code of a service was generated from. -/
def table (service : Ptr) : List MethodDescriptor := (world.services service).map world.methods

/-- `GetRequestPrototype` and `GetResponsePrototype`; `none` is the fatal log of the
`default` case or of `GOOGLE_DCHECK_EQ`. -/
def getPrototype (which : RequestOrResponse) (object method : Ptr) : Option Ptr :=
  let service := (world.objects object).descriptor
  if (world.methods method).service ≠ service then none
  else
    (switch PrototypeCase.index (generateGetPrototype which (world.table service))
      (world.methods method).index).map fun c => world.defaultInstance c.type

/-- The case of `CallMethod` that runs. -/
def callMethod (object method : Ptr) : Option CallCase :=
  let service := (world.objects object).descriptor
  if (world.methods method).service ≠ service then none
  else switch CallCase.index (generateCallMethod (world.table service)) (world.methods method).index

/-- The virtual call in the worker; protobuf's fatal log throws a `std::exception`. -/
def handler : Handler Msg := fun rpcMethod request =>
  match world.callMethod rpcMethod.service rpcMethod.method with
  | none => .threw .stdException
  | some c => (world.objects rpcMethod.service).handlers c.name request

/-- What `RegisterService` asks of an object for one of its methods. -/
def serviceMethod (object method : Ptr) : Option ServiceMethod :=
  match world.getPrototype .request object method, world.getPrototype .response object method with
  | some request, some response =>
    some ⟨(world.methods method).fullName, method, request, response⟩
  | _, _ => none

def service (object : Ptr) : Option Service :=
  ((world.services (world.objects object).descriptor).mapM (world.serviceMethod object)).map
    fun methods => ⟨object, methods⟩

/-- The opcode `ZSendMethod` sends for a call of a stub method: `method->full_name()`. -/
def stubSend (service : Ptr) (stub : StubMethod) : Option Bytes :=
  ((world.services service)[value stub.index]?).map fun method => (world.methods method).fullName

end World

end Zqrpc
