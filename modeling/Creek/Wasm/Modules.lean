import Creek.Wasm.Runtime

/-! The modules of a runtime: what `load_module` adds, what it leaves when it fails, and whose function a
call finds.
Every step is a whole call of the runtime, with the guest's part of it. The interpreter keeps a list of
its own, the newest module first. What it makes of a module's code is given, and so is what the guest
does; an exception of a host function leaves the interpreter and the call at once.
-/

namespace Creek.Wasm

open Tight (Bytes)

-- Modules

/-- How a function gets a name, in the order in which the parser comes upon them. -/
inductive Naming where
  | exported (name : String)
  | debug (name : String)
  deriving DecidableEq, Repr

/-- `d_m3MaxDuplicateFunctionImpl`. -/
def maxDuplicateFunctionImpl : Nat := 3

/-- The names of a function after one more: an export is left out when there are enough, and a debug
name when there is any.
-/
def addName (names : List String) : Naming → List String
  | .exported name => if names.length < maxDuplicateFunctionImpl then names ++ [name] else names
  | .debug name => if names.isEmpty then [name] else names

structure GuestFunction where
  isImported : Bool := false
  namings : List Naming := []
  deriving DecidableEq, Repr

/-- The names that the interpreter knows a function by. -/
def GuestFunction.names (function : GuestFunction) : List String :=
  function.namings.foldl addName []

structure MemoryInfo where
  initPages : UInt32
  maxPages : UInt32
  deriving DecidableEq, Repr

/-- A module as it is parsed; without a memory of its own it imports one. -/
structure GuestModule where
  functions : List GuestFunction := []
  memoryInfo : Option MemoryInfo := none
  deriving DecidableEq, Repr

/-- The module exports a function under a name. -/
def GuestModule.Exports (guest : GuestModule) (name : String) : Prop :=
  ∃ function ∈ guest.functions, .exported name ∈ function.namings

instance {guest : GuestModule} {name : String} : Decidable (guest.Exports name) :=
  inferInstanceAs (Decidable (∃ function ∈ guest.functions, .exported name ∈ function.namings))

/-- `v_FindFunction`: whether a module has a function of a name, imports apart. -/
def GuestModule.hasFunction (guest : GuestModule) (name : String) : Bool :=
  guest.functions.any fun function => !function.isImported && function.names.contains name

/-- A module and where it is. -/
structure M3Module where
  handle : Nat
  guest : GuestModule
  deriving DecidableEq, Repr

structure ModuleInfo where
  id : UInt32
  module : M3Module
  deriving DecidableEq, Repr

/-- A module in the list of the interpreter; it is ready when all of it is compiled and its start
function has run.
-/
structure LinkedModule where
  module : M3Module
  ready : Bool
  deriving DecidableEq, Repr

-- The guest

/-- What the guest does that the host can see. -/
inductive GuestAction where
  | grow (numPages : UInt32)
  | getMetadata (keyPtr keyLen : UInt32)
  | setMetadata (keyPtr keyLen valuePtr valueLen : UInt32)
  | log (msgPtr msgLen : UInt32)
  | poke (offset : Nat) (byte : UInt8)
  deriving DecidableEq, Repr

/-- The guest runs, unless an exception cuts it short, and there may be an error at the end. -/
structure GuestRun where
  actions : List GuestAction := []
  result : Option String := none
  deriving DecidableEq, Repr

namespace WasmRuntime

/-- The guest stays within the memory as it is. -/
def act (action : GuestAction) (runtime : WasmRuntime) : WasmRuntime × List WasmOutput :=
  match action with
  | .grow numPages =>
      match runtime.memory.resize (runtime.memory.numPages + numPages) with
      | .error _ => (runtime, [])
      | .ok memory => ({ runtime with memory }, [])
  | .getMetadata keyPtr keyLen => runtime.creekGetMetadata keyPtr keyLen
  | .setMetadata keyPtr keyLen valuePtr valueLen =>
      runtime.creekSetMetadata keyPtr keyLen valuePtr valueLen
  | .log msgPtr msgLen => runtime.creekLog msgPtr msgLen
  | .poke offset byte =>
      ({ runtime with memory := runtime.memory.store (some runtime.memory.block) offset [byte] }, [])

end WasmRuntime

/-- The exception that is shown. -/
def WasmOutput.exception? : WasmOutput → Option String
  | .thrown what => some what
  | _ => none

namespace WasmRuntime

/-- Acts up to an exception. -/
def actAll : List GuestAction → WasmRuntime → WasmRuntime × List WasmOutput × Option String
  | [], runtime => (runtime, [], none)
  | action :: rest, runtime =>
      let (runtime, outputs) := runtime.act action
      match outputs.findSome? WasmOutput.exception? with
      | some what => (runtime, outputs, some what)
      | none =>
          let (runtime, others, exception) := actAll rest runtime
          (runtime, outputs ++ others, exception)

/-- How the guest ends: with an exception, or with what the interpreter returns. -/
def runGuest (guest : GuestRun) (runtime : WasmRuntime)
    : WasmRuntime × List WasmOutput × Except String (Option String) :=
  match runtime.actAll guest.actions with
  | (runtime, outputs, some what) => (runtime, outputs, .error what)
  | (runtime, outputs, none) => (runtime, outputs, .ok guest.result)

end WasmRuntime

-- Loading

/-- `m3Err_functionLookupFailed`. -/
def functionLookupFailed : String := "function lookup failed"

/-- What the interpreter makes of a module that is loaded: the outcome of parsing, the data segments that
are copied and what is wrong with the globals, segments or elements, what comes of linking each host
function and of compiling, and the run of the start function.
-/
structure LoadAttempt where
  parsed : Except String GuestModule
  segments : List (Nat × Bytes) := []
  initialised : Option String := none
  linked : String → Option String := fun _ => none
  compiled : Option String := none
  start : GuestRun := {}

namespace Memory

/-- The pages a module allows its memory. -/
def limit (info : MemoryInfo) : UInt32 := if info.maxPages = 0 then 65536 else info.maxPages

/-- `InitMemory`: the limit stays when the pages cannot be had. -/
def initMemory (guest : GuestModule) (memory : Memory) : Memory × Option String :=
  match guest.memoryInfo with
  | none => (memory, none)
  | some info =>
      let memory := { memory with maxPages := limit info }
      match memory.resize info.initPages with
      | .error result => (memory, some result)
      | .ok memory => (memory, none)

/-- `InitDataSegments`. -/
def initDataSegments (segments : List (Nat × Bytes)) (memory : Memory) : Memory :=
  segments.foldl (fun memory segment => memory.store (some memory.block) segment.1 segment.2) memory

/-- `m3_LoadModule`, with its list left out. -/
def loadModule (guest : GuestModule) (attempt : LoadAttempt) (memory : Memory)
    : Memory × Option String :=
  match memory.initMemory guest with
  | (memory, some result) => (memory, some result)
  | (memory, none) => (memory.initDataSegments attempt.segments, attempt.initialised)

end Memory

/-- The runtime with `modules_` and the list of the interpreter. -/
structure Host where
  runtime : WasmRuntime := {}
  modules : List ModuleInfo := []
  linked : List LinkedModule := []
  nextHandle : Nat := 0

inductive HostEvent where
  | load (attempt : LoadAttempt)
  | call (callback : Callback) (moduleId : UInt32) (context : RpcContext) (find guest : GuestRun)

/-- What a call shows; `found` is the module whose function it has found. -/
inductive HostOutput where
  | runtime (output : WasmOutput)
  | loaded (id : UInt32)
  | found (handle : Nat)

namespace Host

/-- An exception leaves the call. -/
def throw_ (what : String) (host : Host) : Host × List HostOutput :=
  (host, [.runtime (.thrown what)])

/-- The names of the host functions, in the order in which they are linked. -/
def hostFunctions : List String :=
  ["creek_get_metadata", "creek_set_metadata", "creek_sleep", "creek_random", "creek_log"]

/-- Links up to the first host function that cannot be. -/
def registerHostImports (linked : String → Option String) : Option String :=
  hostFunctions.findSome? linked

/-- A module is in both tables from the end of `m3_LoadModule` on. -/
def push (id : UInt32) (module : M3Module) (memory : Memory) (host : Host) : Host :=
  {
    host with
    runtime := { host.runtime with memory, modules := host.runtime.modules ++ [id] }
    modules := host.modules ++ [{ id, module }]
    linked := { module, ready := false } :: host.linked
  }

/-- The newest module has been started. -/
def setReady (host : Host) : Host :=
  {
    host with
    linked :=
      match host.linked with
      | [] => []
      | newest :: older => { newest with ready := true } :: older
  }

/-- The end of a load. -/
def finishLoad (id : UInt32) (host : Host) : Host × List HostOutput :=
  match host.runtime.ensureMemory 2 with
  | (runtime, some what) => { host with runtime }.throw_ what
  | (runtime, none) => ({ host with runtime }, [.loaded id])

/-- What the guest has shown comes first. -/
def afterGuest (outputs : List WasmOutput) (rest : Host × List HostOutput)
    : Host × List HostOutput :=
  (rest.1, outputs.map .runtime ++ rest.2)

/-- The start function and what follows it; the interpreter's failing to look up a function is no error
here.
-/
def startModule (id : UInt32) (start : GuestRun) (host : Host) : Host × List HostOutput :=
  match host.runtime.runGuest start with
  | (runtime, outputs, .error _) => afterGuest outputs ({ host with runtime }, [])
  | (runtime, outputs, .ok none) =>
      afterGuest outputs ({ host with runtime }.setReady.finishLoad id)
  | (runtime, outputs, .ok (some result)) =>
      if result = functionLookupFailed then
        afterGuest outputs ({ host with runtime }.finishLoad id)
      else
        afterGuest outputs ({ host with runtime }.throw_ ("WasmRuntime: start failed: " ++ result))

/-- `load_module`. -/
def loadModule (attempt : LoadAttempt) (host : Host) : Host × List HostOutput :=
  let id := host.runtime.nextId
  let host := { host with runtime := { host.runtime with nextId := id + 1 } }
  match attempt.parsed with
  | .error result => host.throw_ ("WasmRuntime: parse failed: " ++ result)
  | .ok guest =>
      let module : M3Module := { handle := host.nextHandle, guest }
      let host := { host with nextHandle := host.nextHandle + 1 }
      match host.runtime.memory.loadModule guest attempt with
      | (memory, some result) =>
          { host with runtime := { host.runtime with memory } }.throw_
            ("WasmRuntime: load failed: " ++ result)
      | (memory, none) =>
          let host := host.push id module memory
          match registerHostImports attempt.linked with
          | some result => host.throw_ ("WasmRuntime: link failed: " ++ result)
          | none =>
              match attempt.compiled with
              | some result => host.throw_ ("WasmRuntime: compile failed: " ++ result)
              | none => host.startModule id attempt.start

-- Calls

/-- The newest module that has a function of a name. -/
def lookup (name : String) (host : Host) : Option LinkedModule :=
  host.linked.find? fun linked => linked.module.guest.hasFunction name

/-- `m3_FindFunction`: what is missing of the module's compilation and of its start is done first, and
there is no function when that fails.
-/
def findFunction (callback : Callback) (find : GuestRun) (host : Host)
    : Host × List WasmOutput × Except String (Option Nat) :=
  match host.lookup callback.text with
  | none => (host, [], .ok none)
  | some target =>
      if target.ready then (host, [], .ok (some target.module.handle))
      else
        match host.runtime.runGuest find with
        | (runtime, outputs, .error what) => ({ host with runtime }, outputs, .error what)
        | (runtime, outputs, .ok (some _)) => ({ host with runtime }, outputs, .ok none)
        | (runtime, outputs, .ok none) =>
            ({ host with runtime }, outputs, .ok (some target.module.handle))

/-- From the guest's start to the end of the call. -/
def runCall (json : Json) (callback : Callback) (resultPtr : UInt32) (guest : GuestRun)
    (runtime : WasmRuntime)
    : WasmRuntime × List WasmOutput :=
  match runtime.runGuest guest with
  | (runtime, outputs, .error _) => (runtime, outputs)
  | (runtime, outputs, .ok (some result)) =>
      let (runtime, thrown) := { runtime with currentCtx := none }.throw_
        ("WasmRuntime: call " ++ callback.text ++ " failed: " ++ result)
      (runtime, outputs ++ thrown)
  | (runtime, outputs, .ok none) =>
      let (runtime, others) := runtime.finish json resultPtr
      (runtime, outputs ++ others)

/-- What follows when a function has been found. -/
def invoke (json : Json) (callback : Callback) (context : RpcContext) (guest : GuestRun)
    (runtime : WasmRuntime)
    : WasmRuntime × List WasmOutput :=
  let (runtime, outputs) := runtime.prepare json callback context
  match runtime.phase with
  | .calling _ resultPtr =>
      let (runtime, others) := runCall json callback resultPtr guest runtime
      (runtime, outputs ++ others)
  | _ => (runtime, outputs)

def findModule (moduleId : UInt32) (host : Host) : Option ModuleInfo :=
  host.modules.find? fun info => info.id = moduleId

/-- `call_on_request` and `call_on_response`: of the module with the id nothing is used. -/
def call (json : Json) (callback : Callback) (moduleId : UInt32) (context : RpcContext)
    (find guest : GuestRun) (host : Host)
    : Host × List HostOutput :=
  match host.findModule moduleId with
  | none => host.throw_ ("WasmRuntime: module not found: " ++ toString moduleId)
  | some _ =>
      match host.findFunction callback find with
      | (host, outputs, .error _) => (host, outputs.map .runtime)
      | (host, outputs, .ok none) => (host, outputs.map .runtime ++ [.runtime (.context context)])
      | (host, outputs, .ok (some handle)) =>
          let (runtime, others) := invoke json callback context guest host.runtime
          ({ host with runtime }, outputs.map .runtime ++ .found handle :: others.map .runtime)

/-- One call, which never blocks. -/
def step (json : Json) (host : Host) : HostEvent → Except Empty (Host × List HostOutput)
  | .load attempt => .ok (host.loadModule attempt)
  | .call callback moduleId context find guest =>
      .ok (host.call json callback moduleId context find guest)

abbrev HostStage := Library.Stage Host HostEvent HostOutput

end Host

end Creek.Wasm
