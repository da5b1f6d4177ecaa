import Creek.Library.BlockMemory
import Creek.Library.Runs
import Creek.Mesh.Balancer

/-! The runtime of WebAssembly filters: the memory it shares with the guest, and the calls of
`on_request` and `on_response`.
A call is taken apart into the steps between which the guest runs. The guest is any sequence of host
calls, of changes of its memory and of attempts to grow it. Allocation always succeeds, and moves the
memory when its size changes. JSON is an argument.
-/

namespace Creek.Wasm

open Library (Blocks Span)
open Mesh (Metadata)
open Tight (Bytes)

/-- The JSON library: the text of an object, unless its strings are not UTF-8; and the members that are
assigned from a text, up to the first one that is not a string.
-/
structure Json where
  dump : Metadata → Except String Bytes
  parse : Bytes → List (Bytes × Bytes)

/-- The status is the 32 bits of the `int`. -/
structure RpcContext where
  service : Bytes := []
  method : Bytes := []
  metadata : Metadata := ∅
  statusCode : UInt32 := 0

-- The linear memory

/-- `d_m3MaxLinearMemoryPages`. -/
def maxLinearMemoryPages : UInt32 := 32768

/-- The linear memory of the WebAssembly runtime lies in one of the blocks. -/
structure Memory where
  blocks : Blocks UInt8 := fun _ _ => 0
  block : Nat := 0
  numPages : UInt32 := 0
  maxPages : UInt32 := 0
  bounded : numPages ≤ maxLinearMemoryPages := by decide

namespace Memory

def size (memory : Memory) : Nat := memory.numPages.toNat * 65536

/-- `m3_GetMemory`: the memory, unless it is empty, and its size. -/
def getMemory (memory : Memory) : Option Nat × UInt32 :=
  (if memory.size = 0 then none else some memory.block, UInt32.ofNat memory.size)

/-- `ResizeMemory`. -/
def resize (numPages : UInt32) (memory : Memory) : Except String Memory :=
  if numPages ≤ memory.maxPages then
    if bounded : numPages ≤ maxLinearMemoryPages then
      if numPages = memory.numPages then .ok memory
      else
        .ok {
          blocks := memory.blocks.move memory.block (memory.block + 1) memory.size 0
          block := memory.block + 1
          numPages
          maxPages := memory.maxPages
          bounded
        }
    else
      .error "linear memory limitation exceeded"
  else
    .error "runtime ran out of memory"

/-- Writes data from a pointer on. -/
def store (base : Option Nat) (offset : Nat) (data : Bytes) (memory : Memory) : Memory :=
  { memory with blocks := memory.blocks.store base offset data }

end Memory

-- The runtime

/-- Bytes that the host reads or writes, with the block and the size of the memory at that time. -/
structure Access where
  span : Span
  block : Nat
  size : Nat
  deriving DecidableEq, Repr

/-- Every byte lies in the memory. -/
def Access.InBounds (access : Access) : Prop := access.span.Within access.block access.size

instance {access : Access} : Decidable access.InBounds :=
  inferInstanceAs (Decidable (access.span.Within _ _))

/-- Which function of the guest is called. -/
inductive Callback where
  | onRequest
  | onResponse
  deriving DecidableEq, Repr

/-- The name of the guest's function in the text of an error. -/
def Callback.text : Callback → String
  | .onRequest => "on_request"
  | .onResponse => "on_response"

/-- Where in a call the runtime is: `finding` is within `m3_FindFunction`, which runs a start function
that has failed before.
-/
inductive Phase where
  | idle
  | finding (callback : Callback) (context : RpcContext)
  | calling (callback : Callback) (resultPtr : UInt32)

structure WasmRuntime where
  memory : Memory := {}
  modules : List UInt32 := []
  nextId : UInt32 := 1
  memBase : Option Nat := none
  memSize : UInt32 := 0
  scratchHead : UInt32 := 0
  currentCtx : Option RpcContext := none
  phase : Phase := .idle

/-- What happens: a module is loaded, with the two steps that use the memory; a call is made, and the
function is found or not; the guest grows its memory, calls the host, traps or returns; and anything
else, the guest included, writes to memory.
-/
inductive WasmEvent where
  | load (initPages maxPages : UInt32)
  | loaded
  | call (callback : Callback) (moduleId : UInt32) (context : RpcContext)
  | found (present : Bool)
  | grow (numPages : UInt32)
  | getMetadata (keyPtr keyLen : UInt32)
  | setMetadata (keyPtr keyLen valuePtr valueLen : UInt32)
  | log (msgPtr msgLen : UInt32)
  | poke (block offset : Nat) (byte : UInt8)
  | trapped (result : String)
  | finished

/-- What a step shows. -/
inductive WasmOutput where
  | access (access : Access)
  | called (args : List UInt32)
  | returned (value : UInt32)
  | logged (message : Bytes)
  | thrown (what : String)
  | context (context : RpcContext)

/-- The event has no place where the runtime is. -/
inductive Misplaced where
  | misplaced
  deriving DecidableEq, Repr

namespace WasmRuntime

def scratchBase : UInt32 := 65536

def resultBufSize : UInt32 := 4096

/-- An access through a pointer. -/
def touch (base : Option Nat) (offset length : UInt32) (runtime : WasmRuntime) : Access :=
  {
    span := { block := base, offset := offset.toNat, length := length.toNat }
    block := runtime.memory.block
    size := runtime.memory.size
  }

/-- Remembers where the memory is and its size. -/
def cacheMemory (runtime : WasmRuntime) : WasmRuntime :=
  { runtime with memBase := runtime.memory.getMemory.1, memSize := runtime.memory.getMemory.2 }

/-- Grows the memory to a number of pages, or says what went wrong. -/
def ensureMemory (minPages : UInt32) (runtime : WasmRuntime) : WasmRuntime × Option String :=
  let runtime := runtime.cacheMemory
  if runtime.memSize < minPages * 65536 then
    match runtime.memory.resize minPages with
    | .error result => (runtime, some ("WasmRuntime: memory resize failed: " ++ result))
    | .ok memory => ({ runtime with memory }.cacheMemory, none)
  else
    (runtime, none)

/-- The bytes of a string with its terminator, in 32 bits. -/
def copyLen (s : Bytes) : UInt32 := UInt32.ofNat s.length + 1

/-- Copies a string to the scratch area; nothing is written when it is found to overflow. -/
def writeNullStr (s : Bytes) (runtime : WasmRuntime) : Option (WasmRuntime × Access × UInt32) :=
  let offset := runtime.scratchHead
  let len := copyLen s
  if offset + len > runtime.memSize then none
  else
    let data := (s ++ [0]).take len.toNat
    some (
      {
        runtime with
        memory := runtime.memory.store runtime.memBase offset.toNat data
        scratchHead := offset + len
      },
      runtime.touch runtime.memBase offset len,
      offset
    )

def scratchOverflow : String := "WasmRuntime: scratch buffer overflow"

/-- Copies strings one after the other, up to one that overflows. -/
def writeNullStrs : List Bytes → WasmRuntime → WasmRuntime × List Access × Option (List UInt32)
  | [], runtime => (runtime, [], some [])
  | s :: rest, runtime =>
      match runtime.writeNullStr s with
      | none => (runtime, [], none)
      | some (runtime, access, ptr) =>
          let (runtime, accesses, ptrs) := writeNullStrs rest runtime
          (runtime, access :: accesses, ptrs.map (ptr :: ·))

/-- Clears the result buffer; it starts at the scratch head, which moves behind it. -/
def clearResult (runtime : WasmRuntime) : WasmRuntime × Access × UInt32 :=
  let resultPtr := runtime.scratchHead
  (
    {
      runtime with
      memory := runtime.memory.store runtime.memBase resultPtr.toNat
        (List.replicate resultBufSize.toNat 0)
      scratchHead := resultPtr + resultBufSize
    },
    runtime.touch runtime.memBase resultPtr resultBufSize,
    resultPtr
  )

/-- Reads a string up to its terminator; a terminator that is found is read as well. -/
def readNullStr (offset : UInt32) (runtime : WasmRuntime) : Access × Bytes :=
  if offset ≥ runtime.memSize then (runtime.touch runtime.memBase offset 0, [])
  else
    let maxLen := runtime.memSize - offset
    let s := runtime.memory.blocks.scan runtime.memBase 0 offset.toNat maxLen.toNat
    (runtime.touch runtime.memBase offset (UInt32.ofNat (min (s.length + 1) maxLen.toNat)), s)

/-- An exception leaves the call, but not the context. -/
def throw_ (what : String) (runtime : WasmRuntime) : WasmRuntime × List WasmOutput :=
  ({ runtime with phase := .idle }, [.thrown what])

-- Host functions

/-- The bytes the guest points at: the host is passed the memory as it is. -/
def hostRead (ptr len : UInt32) (runtime : WasmRuntime) : Access × Bytes :=
  let access := runtime.touch (some runtime.memory.block) ptr len
  (access, runtime.memory.blocks.load access.span)

/-- The value of a key in the context, or an empty string. -/
def metadataValue (key : Bytes) (runtime : WasmRuntime) : Bytes :=
  match runtime.currentCtx with
  | none => []
  | some context => context.metadata.getD key []

def creekGetMetadata (keyPtr keyLen : UInt32) (runtime : WasmRuntime)
    : WasmRuntime × List WasmOutput :=
  let (read, key) := runtime.hostRead keyPtr keyLen
  match runtime.writeNullStr (runtime.metadataValue key) with
  | none =>
      let (runtime, outputs) := runtime.throw_ scratchOverflow
      (runtime, .access read :: outputs)
  | some (runtime, written, ptr) => (runtime, [.access read, .access written, .returned ptr])

def creekSetMetadata (keyPtr keyLen valuePtr valueLen : UInt32) (runtime : WasmRuntime)
    : WasmRuntime × List WasmOutput :=
  let (keyRead, key) := runtime.hostRead keyPtr keyLen
  let (valueRead, value) := runtime.hostRead valuePtr valueLen
  let currentCtx := runtime.currentCtx.map fun context =>
    { context with metadata := context.metadata.insert key value }
  ({ runtime with currentCtx }, [.access keyRead, .access valueRead])

def creekLog (msgPtr msgLen : UInt32) (runtime : WasmRuntime) : WasmRuntime × List WasmOutput :=
  let (read, message) := runtime.hostRead msgPtr msgLen
  (runtime, [.access read, .logged message])

-- Loading and calls

/-- The memory of a new module is set up; a module without a limit may have all pages. -/
def loadModule (initPages maxPages : UInt32) (runtime : WasmRuntime)
    : WasmRuntime × List WasmOutput :=
  let id := runtime.nextId
  let memory := { runtime.memory with maxPages := if maxPages = 0 then 65536 else maxPages }
  let runtime := { runtime with nextId := id + 1, memory }
  match memory.resize initPages with
  | .error result => (runtime, [.thrown ("WasmRuntime: load failed: " ++ result)])
  | .ok memory => ({ runtime with memory, modules := runtime.modules ++ [id] }, [])

/-- The end of `load_module`. -/
def moduleLoaded (runtime : WasmRuntime) : WasmRuntime × List WasmOutput :=
  match runtime.ensureMemory 2 with
  | (runtime, some what) => runtime.throw_ what
  | (runtime, none) => (runtime, [])

/-- Up to `m3_FindFunction`. -/
def enter (callback : Callback) (moduleId : UInt32) (context : RpcContext) (runtime : WasmRuntime)
    : WasmRuntime × List WasmOutput :=
  if moduleId ∈ runtime.modules then
    ({ runtime with phase := .finding callback context }, [])
  else
    runtime.throw_ ("WasmRuntime: module not found: " ++ toString moduleId)

/-- The strings that a call hands to the guest. -/
def callStrings (callback : Callback) (context : RpcContext) (metaJson : Bytes) : List Bytes :=
  match callback with
  | .onRequest => [context.service, context.method, metaJson]
  | .onResponse => [metaJson]

/-- The arguments of a call. -/
def callArgs (callback : Callback) (context : RpcContext) (ptrs : List UInt32) (resultPtr : UInt32)
    : List UInt32 :=
  match callback with
  | .onRequest => ptrs ++ [resultPtr]
  | .onResponse => context.statusCode :: ptrs ++ [resultPtr]

/-- From the function's being found up to `m3_Call`. -/
def prepare (json : Json) (callback : Callback) (context : RpcContext) (runtime : WasmRuntime)
    : WasmRuntime × List WasmOutput :=
  match { runtime with scratchHead := scratchBase }.ensureMemory 2 with
  | (runtime, some what) => runtime.throw_ what
  | (runtime, none) =>
      let runtime := { runtime with currentCtx := some context }
      match json.dump context.metadata with
      | .error what => runtime.throw_ what
      | .ok metaJson =>
          match runtime.writeNullStrs (callStrings callback context metaJson) with
          | (runtime, accesses, none) =>
              let (runtime, outputs) := runtime.throw_ scratchOverflow
              (runtime, accesses.map .access ++ outputs)
          | (runtime, accesses, some ptrs) =>
              let (runtime, cleared, resultPtr) := runtime.clearResult
              (
                { runtime with phase := .calling callback resultPtr },
                accesses.map .access
                  ++ [.access cleared, .called (callArgs callback context ptrs resultPtr)]
              )

/-- From the return of `m3_Call` on. -/
def finish (json : Json) (resultPtr : UInt32) (runtime : WasmRuntime)
    : WasmRuntime × List WasmOutput :=
  let (read, resultJson) := runtime.readNullStr resultPtr
  let members := if resultJson.isEmpty then [] else json.parse resultJson
  let merged (context : RpcContext) : RpcContext :=
    { context with metadata := context.metadata.insertMany members }
  (
    { runtime with currentCtx := none, phase := .idle },
    .access read :: (runtime.currentCtx.toList.map fun context => .context (merged context))
  )

/-- One step. -/
def step (json : Json) (runtime : WasmRuntime) (event : WasmEvent)
    : Except Misplaced (WasmRuntime × List WasmOutput) :=
  match event, runtime.phase with
  | .load initPages maxPages, .idle => .ok (runtime.loadModule initPages maxPages)
  | .loaded, .idle => .ok runtime.moduleLoaded
  | .call callback moduleId context, .idle => .ok (runtime.enter callback moduleId context)
  | .found true, .finding callback context => .ok (runtime.prepare json callback context)
  | .found false, .finding _ context => .ok ({ runtime with phase := .idle }, [.context context])
  | .grow numPages, _ =>
      match runtime.memory.resize (runtime.memory.numPages + numPages) with
      | .error _ => .ok (runtime, [])
      | .ok memory => .ok ({ runtime with memory }, [])
  | .getMetadata keyPtr keyLen, _ => .ok (runtime.creekGetMetadata keyPtr keyLen)
  | .setMetadata keyPtr keyLen valuePtr valueLen, _ =>
      .ok (runtime.creekSetMetadata keyPtr keyLen valuePtr valueLen)
  | .log msgPtr msgLen, _ => .ok (runtime.creekLog msgPtr msgLen)
  | .poke block offset byte, _ =>
      .ok ({ runtime with memory := runtime.memory.store (some block) offset [byte] }, [])
  | .trapped result, .calling callback _ =>
      .ok
        ({ runtime with currentCtx := none }.throw_
          ("WasmRuntime: call " ++ callback.text ++ " failed: " ++ result))
  | .finished, .calling _ resultPtr => .ok (runtime.finish json resultPtr)
  | _, _ => .error .misplaced

abbrev WasmStage := Library.Stage WasmRuntime WasmEvent WasmOutput

end WasmRuntime

end Creek.Wasm
