import Creek.Proofs.Wasm.ModuleCalls

/-! What an error leaves behind. A load undoes its work only up to `m3_LoadModule`, and a call clears its
context only from `m3_Call` on: an exception in between stays in the runtime.
-/

namespace Creek.Wasm

open Library
open Tight (Bytes)

-- Room for two pages

namespace Memory

variable {memory : Memory} {guest : GuestModule} {attempt : LoadAttempt}

/-- The pages after at least two have been had. -/
def ensuredPages (memory : Memory) : UInt32 := if 2 ≤ memory.numPages then memory.numPages else 2

/-- There are two pages of memory, or they can be had. -/
def HasRoom (memory : Memory) : Prop := 2 ≤ memory.numPages ∨ 2 ≤ memory.maxPages

/-- The pages that a module asks for can be had. -/
def Admits (guest : GuestModule) : Prop :=
  ∀ info ∈ guest.memoryInfo, info.initPages ≤ limit info ∧ info.initPages ≤ maxLinearMemoryPages

/-- Two pages can be had after `m3_LoadModule`, with the limit that the module declares for its memory. -/
def HasRoomAfter (guest : GuestModule) (memory : Memory) : Prop :=
  match guest.memoryInfo with
  | none => memory.HasRoom
  | some info => 2 ≤ limit info ∨ ¬Admits guest ∧ 2 ≤ memory.numPages

theorem resize_ok (memory : Memory) {numPages : UInt32} (within : numPages ≤ memory.maxPages)
    (bounded : numPages ≤ maxLinearMemoryPages)
    : ∃ resized, memory.resize numPages = .ok resized ∧ resized.numPages = numPages
      ∧ resized.maxPages = memory.maxPages := by
  rw [resize, if_pos within, dif_pos bounded]
  by_cases same : numPages = memory.numPages
  · exact ⟨memory, if_pos same, same.symm, rfl⟩
  · exact ⟨_, if_neg same, rfl, rfl⟩

theorem resize_error (memory : Memory) {numPages : UInt32}
    (refused : ¬(numPages ≤ memory.maxPages ∧ numPages ≤ maxLinearMemoryPages))
    : ∃ result, memory.resize numPages = .error result := by
  rw [resize]
  split
  · rename_i within
    exact ⟨_, dif_neg fun bounded => refused ⟨within, bounded⟩⟩
  · exact ⟨_, rfl⟩

theorem initDataSegments_pages (segments : List (Nat × Bytes)) (memory : Memory)
    : (memory.initDataSegments segments).numPages = memory.numPages
      ∧ (memory.initDataSegments segments).maxPages = memory.maxPages := by
  rw [initDataSegments]
  induction segments generalizing memory with
  | nil => exact ⟨rfl, rfl⟩
  | cons segment rest ih => exact ih _

theorem loadModule_ok (guest : GuestModule) (attempt : LoadAttempt) (memory : Memory)
    : (memory.loadModule guest attempt).2 = none ↔ Admits guest ∧ attempt.initialised = none := by
  rw [loadModule, initMemory, Admits]
  rcases guest.memoryInfo with - | info
  · simp
  · by_cases admitted : info.initPages ≤ limit info ∧ info.initPages ≤ maxLinearMemoryPages
    · obtain ⟨resized, done, -, -⟩ :=
        resize_ok { memory with maxPages := limit info } admitted.1 admitted.2
      simp [done, admitted]
    · obtain ⟨result, refused⟩ :=
        resize_error { memory with maxPages := limit info } admitted
      simp only [refused]
      exact iff_of_false (Option.some_ne_none _) fun both => admitted (both.1 info rfl)

theorem loadModule_hasRoom (guest : GuestModule) (attempt : LoadAttempt) (memory : Memory)
    : (memory.loadModule guest attempt).1.HasRoom ↔ HasRoomAfter guest memory := by
  rw [loadModule, initMemory, HasRoomAfter, Admits]
  rcases guest.memoryInfo with - | info
  · obtain ⟨pages, limits⟩ := initDataSegments_pages attempt.segments memory
    simp only [HasRoom, pages, limits]
  · by_cases admitted : info.initPages ≤ limit info ∧ info.initPages ≤ maxLinearMemoryPages
    · obtain ⟨resized, done, initial, bound⟩ :=
        resize_ok { memory with maxPages := limit info } admitted.1 admitted.2
      obtain ⟨pages, limits⟩ := initDataSegments_pages attempt.segments resized
      have below : 2 ≤ info.initPages → 2 ≤ limit info := fun two => UInt32.le_trans two admitted.1
      simp [done, HasRoom, pages, limits, initial, bound, admitted]
      exact below
    · obtain ⟨result, refused⟩ :=
        resize_error { memory with maxPages := limit info } admitted
      simp [refused, HasRoom, admitted, or_comm]

end Memory

namespace WasmRuntime

variable {json : Json} {runtime after : WasmRuntime} {guest : GuestRun} {callback : Callback}
  {context : RpcContext}

/-- The memory is found short when it has less than two pages. -/
theorem cacheMemory_short (runtime : WasmRuntime)
    : runtime.cacheMemory.memSize < 2 * 65536 ↔ ¬2 ≤ runtime.memory.numPages := by
  have sized := getMemory_toNat runtime.memory
  rw [UInt32.not_le, UInt32.lt_iff_toNat_lt, UInt32.lt_iff_toNat_lt, cacheMemory_memSize, sized,
    Memory.size]
  show _ < 131072 ↔ _ < 2
  omega

/-- Two pages are ensured exactly when they are there or can be had. -/
theorem ensureMemory_ok (runtime : WasmRuntime)
    : (runtime.ensureMemory 2).2 = none ↔ runtime.memory.HasRoom := by
  have short := cacheMemory_short runtime
  rw [ensureMemory, Memory.HasRoom]
  by_cases few : runtime.cacheMemory.memSize < 2 * 65536
  · simp only [few, if_true, cacheMemory_memory]
    rw [or_iff_right (short.mp few)]
    by_cases within : 2 ≤ runtime.memory.maxPages
    · obtain ⟨resized, done, -, -⟩ := Memory.resize_ok _ within (by decide)
      simp [done, within]
    · obtain ⟨result, refused⟩ := Memory.resize_error runtime.memory fun both => within both.1
      simp [refused, within]
  · simp only [few, if_false]
    exact iff_of_true trivial (.inl (not_not.mp (mt short.mpr few)))

-- The context

theorem ensureMemory_currentCtx (minPages : UInt32) (runtime : WasmRuntime)
    : (runtime.ensureMemory minPages).1.currentCtx = runtime.currentCtx := by
  rw [ensureMemory]
  by_cases short : runtime.cacheMemory.memSize < minPages * 65536
  · simp only [short, if_true]
    rcases runtime.cacheMemory.memory.resize minPages with result | memory <;> rfl
  · simp only [short, if_false]
    rfl

theorem writeNullStr_currentCtx {s : Bytes} {access : Access} {ptr : UInt32}
    (written : runtime.writeNullStr s = some (after, access, ptr))
    : after.currentCtx = runtime.currentCtx := by
  rw [writeNullStr] at written
  dsimp only at written
  split at written
  · cases written
  · cases written
    rfl

/-- The guest may change the context, but it neither sets nor clears it. -/
theorem act_currentCtx (action : GuestAction) (runtime : WasmRuntime)
    : (runtime.act action).1.currentCtx.isSome = runtime.currentCtx.isSome := by
  cases action with
  | grow numPages =>
      rw [act]
      split <;> rfl
  | getMetadata keyPtr keyLen =>
      rw [act, creekGetMetadata]
      rcases copied : runtime.writeNullStr
        (runtime.metadataValue (runtime.hostRead keyPtr keyLen).2) with - | ⟨written, access, ptr⟩
      · simp only [copied, throw_]
      · simp only [copied, writeNullStr_currentCtx copied]
  | setMetadata keyPtr keyLen valuePtr valueLen => exact Option.isSome_map
  | log msgPtr msgLen => rfl
  | poke offset byte => rfl

theorem actAll_currentCtx (actions : List GuestAction) (runtime : WasmRuntime)
    : (runtime.actAll actions).1.currentCtx.isSome = runtime.currentCtx.isSome := by
  induction actions generalizing runtime with
  | nil => rfl
  | cons action rest ih =>
      have first := act_currentCtx action runtime
      rw [actAll]
      rcases acted : runtime.act action with ⟨middle, outputs⟩
      rw [acted] at first
      rcases shown : outputs.findSome? WasmOutput.exception? with - | what
      · simp only [shown]
        exact (ih middle).trans first
      · simp only [shown]
        exact first

theorem runGuest_fst (guest : GuestRun) (runtime : WasmRuntime)
    : (runtime.runGuest guest).1 = (runtime.actAll guest.actions).1 := by
  rw [runGuest]
  rcases runtime.actAll guest.actions with ⟨after, outputs, - | what⟩ <;> rfl

theorem runGuest_currentCtx (guest : GuestRun) (runtime : WasmRuntime)
    : (runtime.runGuest guest).1.currentCtx = none ↔ runtime.currentCtx = none := by
  rw [runGuest_fst, ← Option.not_isSome_iff_eq_none, ← Option.not_isSome_iff_eq_none,
    actAll_currentCtx]

theorem exists_thrown_iff {outputs : List WasmOutput}
    : (∃ what, .thrown what ∈ outputs) ↔ outputs.findSome? WasmOutput.exception? ≠ none := by
  rw [ne_eq, List.findSome?_eq_none_iff, not_forall₂]
  constructor
  · rintro ⟨what, member⟩
    exact ⟨_, member, nofun⟩
  · rintro ⟨output, member, shown⟩
    cases output with
    | thrown what => exact ⟨what, member⟩
    | _ => exact absurd rfl shown

theorem actAll_findSome (actions : List GuestAction) (runtime : WasmRuntime)
    : (runtime.actAll actions).2.1.findSome? WasmOutput.exception? = (runtime.actAll actions).2.2 := by
  induction actions generalizing runtime with
  | nil => rfl
  | cons action rest ih =>
      rw [actAll]
      rcases acted : runtime.act action with ⟨middle, outputs⟩
      rcases shown : outputs.findSome? WasmOutput.exception? with - | what
      · simp only [shown, List.findSome?_append, Option.none_or]
        exact ih middle
      · simp only [shown]

theorem runGuest_thrown (guest : GuestRun) (runtime : WasmRuntime)
    : (∃ what, .thrown what ∈ (runtime.runGuest guest).2.1)
      ↔ ∃ what, (runtime.runGuest guest).2.2 = .error what := by
  have shown := actAll_findSome guest.actions runtime
  rw [runGuest, exists_thrown_iff]
  rcases acted : runtime.actAll guest.actions with ⟨after, outputs, - | what⟩
  · rw [acted] at shown
    refine iff_of_false (not_not_intro shown) ?_
    rintro ⟨what, failed⟩
    cases failed
  · rw [acted] at shown
    exact iff_of_true (fun none_ => by cases shown.symm.trans none_) ⟨what, rfl⟩

-- What is handed to the guest

/-- The strings have room one behind the other, as their ends are compared in 32 bits. -/
def Copied (memSize : UInt32) : UInt32 → List Bytes → Prop
  | _, [] => True
  | head, s :: rest => head + copyLen s ≤ memSize ∧ Copied memSize (head + copyLen s) rest

/-- The metadata have a text, and with at least two pages of memory its strings have room. -/
def Hands (json : Json) (callback : Callback) (context : RpcContext) (memory : Memory) : Prop :=
  ∃ metaJson, json.dump context.metadata = .ok metaJson
    ∧ Copied (memory.ensuredPages * 65536) scratchBase (callStrings callback context metaJson)

theorem ensureMemory_memSize (runtime : WasmRuntime) (room : runtime.memory.HasRoom)
    : (runtime.ensureMemory 2).1.memSize = runtime.memory.ensuredPages * 65536 := by
  have sized (memory : Memory) : memory.getMemory.2 = memory.numPages * 65536 := by
    rw [Memory.getMemory, Memory.size, UInt32.ofNat_mul, UInt32.ofNat_toNat]
    rfl
  rw [ensureMemory, Memory.ensuredPages]
  by_cases two : 2 ≤ runtime.memory.numPages
  · simp only [mt (cacheMemory_short runtime).mp (not_not_intro two), if_false, two, if_true]
    exact sized runtime.memory
  · obtain ⟨resized, done, pages, -⟩ :=
      Memory.resize_ok runtime.memory (room.resolve_left two) (by decide)
    simp only [(cacheMemory_short runtime).mpr two, if_true, cacheMemory_memory, done, two, if_false]
    rw [cacheMemory_memSize, sized, pages]

theorem writeNullStrs_spec (strings : List Bytes) (runtime : WasmRuntime)
    : (runtime.writeNullStrs strings).1.currentCtx = runtime.currentCtx
      ∧ ((runtime.writeNullStrs strings).2.2.isSome = true
        ↔ Copied runtime.memSize runtime.scratchHead strings) := by
  induction strings generalizing runtime with
  | nil => exact ⟨rfl, iff_of_true rfl trivial⟩
  | cons s rest ih =>
      rw [writeNullStrs, Copied]
      rcases writeNullStr_cases s runtime with ⟨overflows, refused⟩
        | ⟨accepted, middle, copied, keeps, next⟩
      · simp only [refused]
        exact ⟨trivial, iff_of_false Bool.false_ne_true fun both =>
          UInt32.not_le.mpr overflows both.1⟩
      · obtain ⟨same, rest_⟩ := ih middle
        rw [keeps.memSize, next] at rest_
        simp only [copied, Option.isSome_map, rest_, same, writeNullStr_currentCtx copied]
        exact ⟨trivial, (and_iff_right (UInt32.not_lt.mp accepted)).symm⟩

/-- A call that has ensured the memory has its context, and comes to the guest exactly when it can hand
over its strings.
-/
theorem prepare_cases (json : Json) (callback : Callback) (context : RpcContext) (runtime : WasmRuntime)
    : ¬runtime.memory.HasRoom
        ∧ (runtime.prepare json callback context).1.phase = .idle
        ∧ (runtime.prepare json callback context).1.currentCtx = runtime.currentCtx
      ∨ runtime.memory.HasRoom
        ∧ (runtime.prepare json callback context).1.currentCtx = some context
        ∧ (Hands json callback context runtime.memory
            ∧ (∃ resultPtr, (runtime.prepare json callback context).1.phase = .calling callback resultPtr)
          ∨ ¬Hands json callback context runtime.memory
            ∧ (runtime.prepare json callback context).1.phase = .idle) := by
  have ok := ensureMemory_ok { runtime with scratchHead := scratchBase }
  have same := ensureMemory_currentCtx 2 { runtime with scratchHead := scratchBase }
  rw [prepare]
  rcases ensured : ensureMemory 2 { runtime with scratchHead := scratchBase } with ⟨ready, - | what⟩
  · rw [ensured] at ok
    have room : runtime.memory.HasRoom := ok.mp rfl
    have sized := ensureMemory_memSize { runtime with scratchHead := scratchBase } room
    have head := (ensureMemory_done ensured).2.2.2
    rw [ensured] at sized
    refine .inr ⟨room, ?_⟩
    dsimp only
    rcases dumped : json.dump context.metadata with what | metaJson
    · refine ⟨rfl, .inr ⟨?_, rfl⟩⟩
      rintro ⟨metaJson, text, -⟩
      cases dumped.symm.trans text
    · obtain ⟨kept, copied⟩ := writeNullStrs_spec (callStrings callback context metaJson)
        { ready with currentCtx := some context }
      have hands : Hands json callback context runtime.memory
          ↔ Copied ready.memSize ready.scratchHead (callStrings callback context metaJson) := by
        rw [sized, head, Hands]
        constructor
        · rintro ⟨text, dumps, room⟩
          cases dumped.symm.trans dumps
          exact room
        · exact fun room => ⟨metaJson, dumped, room⟩
      rw [hands, ← copied]
      rcases written : writeNullStrs (callStrings callback context metaJson)
        { ready with currentCtx := some context } with ⟨after, accesses, - | ptrs⟩
      · rw [written] at kept
        simp only [written, throw_]
        exact ⟨kept, .inr ⟨Bool.false_ne_true, trivial⟩⟩
      · rw [written] at kept
        simp only [written, clearResult]
        exact ⟨kept, .inl ⟨rfl, after.scratchHead, rfl⟩⟩
  · rw [ensured] at ok same
    exact .inl ⟨fun room => (by cases ok.mpr room), rfl, same⟩

end WasmRuntime

namespace Host

open WasmRuntime

variable {json : Json} {host after last : Host} {callback : Callback} {moduleId : UInt32}
  {context : RpcContext} {find guest : GuestRun} {outputs : List HostOutput}
  {history : List HostStage}

-- Calls

/-- Only a guest that has all its values, or returns an error, lets the call clear its context. -/
theorem runCall_currentCtx {runtime : WasmRuntime} (busy : runtime.currentCtx = some context)
    (resultPtr : UInt32)
    : (runCall json callback resultPtr guest runtime).1.currentCtx = none
      ↔ runtime.ServesAll guest.actions := by
  have ends := runGuest_eq_ok guest runtime
  have kept := runGuest_currentCtx guest runtime
  rw [runCall]
  rcases ran : runtime.runGuest guest with ⟨after, outputs, what | - | result⟩
  · rw [ran] at ends kept
    refine iff_of_false (fun clear => ?_) fun serves => nomatch (ends guest.result).mpr ⟨serves, rfl⟩
    cases busy.symm.trans (kept.mp clear)
  · rw [ran] at ends
    exact iff_of_true rfl ((ends none).mp rfl).1
  · rw [ran] at ends
    exact iff_of_true rfl ((ends (some result)).mp rfl).1

/-- A call that has ensured the memory clears its context exactly when it can hand over its strings and
the guest has all its values.
-/
theorem invoke_currentCtx {runtime : WasmRuntime} (idle : runtime.currentCtx = none)
    : (invoke json callback context guest runtime).1.currentCtx = none
      ↔ (runtime.memory.HasRoom
          → Hands json callback context runtime.memory
            ∧ (runtime.prepare json callback context).1.ServesAll guest.actions) := by
  have cases_ := prepare_cases json callback context runtime
  rw [invoke]
  rcases prepared : runtime.prepare json callback context with ⟨ready, outputs⟩
  rw [prepared] at cases_
  dsimp only at cases_ ⊢
  rcases cases_ with ⟨none_, phase, same⟩ | ⟨room, busy, ⟨hands, resultPtr, phase⟩ | ⟨refused, phase⟩⟩
  · simp only [phase]
    exact iff_of_true (same.trans idle) fun room => absurd room none_
  · simp only [phase]
    rw [runCall_currentCtx busy]
    exact ⟨fun serves _ => ⟨hands, serves⟩, fun all => (all room).2⟩
  · simp only [phase, busy]
    exact iff_of_false (Option.some_ne_none _) fun all => refused (all room).1

/-- The runtime when the lookup has come out at a module: its start function has run. -/
def foundRuntime (find : GuestRun) (target : LinkedModule) (host : Host) : WasmRuntime :=
  if target.ready then host.runtime else (host.runtime.actAll find.actions).1

/-- A call that has found its function and two pages of memory hands over its strings, and the guest has
every value it asks for.
-/
def ClearsContext (json : Json) (callback : Callback) (moduleId : UInt32) (context : RpcContext)
    (find guest : GuestRun) (host : Host)
    : Prop :=
  ∀ target, (∃ info ∈ host.modules, info.id = moduleId)
    → host.Newest callback.text target
    → host.Starts find target
    → (host.foundRuntime find target).memory.HasRoom
    → Hands json callback context (host.foundRuntime find target).memory
      ∧ ((host.foundRuntime find target).prepare json callback context).1.ServesAll guest.actions

theorem findFunction_runtime (find : GuestRun) {target : LinkedModule} (found : host.lookup callback.text = some target)
    : (host.findFunction callback find).1.runtime = host.foundRuntime find target := by
  rw [findFunction, foundRuntime, ← runGuest_fst]
  rcases ready : target.ready with - | -
  · rcases ran : host.runtime.runGuest find with ⟨runtime, outputs, what | - | error⟩
      <;> simp [found, ready]
  · simp [found, ready]

theorem foundRuntime_currentCtx (find : GuestRun) (idle : host.runtime.currentCtx = none)
    (target : LinkedModule)
    : (host.foundRuntime find target).currentCtx = none := by
  rw [foundRuntime, ← runGuest_fst]
  split
  · exact idle
  · exact (runGuest_currentCtx find host.runtime).mpr idle

theorem findModule_mem {info : ModuleInfo} (known : host.findModule moduleId = some info)
    : info ∈ host.modules ∧ info.id = moduleId := by
  rw [findModule] at known
  have same := List.find?_some known
  exact ⟨List.mem_of_find?_eq_some known, of_decide_eq_true same⟩

theorem call_currentCtx (idle : host.runtime.currentCtx = none)
    : (host.call json callback moduleId context find guest).1.runtime.currentCtx = none
      ↔ ClearsContext json callback moduleId context find guest host := by
  rw [call]
  rcases known : host.findModule moduleId with - | info
  · refine iff_of_true idle ?_
    rintro target ⟨info, member, same⟩
    exact absurd (decide_eq_true same) (List.find?_eq_none.mp known info member)
  have listed : ∃ info ∈ host.modules, info.id = moduleId := ⟨info, findModule_mem known⟩
  rcases found : host.lookup callback.text with - | target
  · rw [findFunction, found]
    refine iff_of_true idle fun target _ newest => ?_
    cases found.symm.trans (lookup_eq_some.mpr newest)
  have clears : ClearsContext json callback moduleId context find guest host
      ↔ (host.Starts find target → (host.foundRuntime find target).memory.HasRoom
        → Hands json callback context (host.foundRuntime find target).memory
          ∧ ((host.foundRuntime find target).prepare json callback context).1.ServesAll guest.actions) := by
    constructor
    · exact fun all => all target listed (lookup_eq_some.mp found)
    · intro own other _ newest
      obtain rfl := Option.some.inj (found.symm.trans (lookup_eq_some.mpr newest))
      exact own
  have outcome := findFunction_eq_ok find found
  have runtime_ := findFunction_runtime find found
  have idle_ := foundRuntime_currentCtx find idle target
  rw [clears]
  rcases result : host.findFunction callback find with ⟨middle, outputs, what | - | handle⟩
  · rw [result] at outcome runtime_
    refine iff_of_true (runtime_ ▸ idle_) fun starts => ?_
    cases (outcome (some target.module.handle)).mpr (.inl ⟨starts, rfl⟩)
  · rw [result] at outcome runtime_
    refine iff_of_true (runtime_ ▸ idle_) fun starts => ?_
    cases (outcome (some target.module.handle)).mpr (.inl ⟨starts, rfl⟩)
  · rw [result] at outcome runtime_
    have starts : host.Starts find target := by
      rcases (outcome (some handle)).mp rfl with ⟨starts, -⟩ | ⟨-, none_⟩
      · exact starts
      · cases none_
    dsimp only at runtime_ ⊢
    rw [runtime_, invoke_currentCtx idle_]
    exact ⟨fun clear _ => clear, fun all => all starts⟩

-- Loads

/-- The call ends with an exception. -/
def Threw (outputs : List HostOutput) : Prop := ∃ what, .runtime (.thrown what) ∈ outputs

/-- The modules, the functions that a lookup comes upon and whether a call gets to them are as before. -/
structure Unchanged (before after : Host) : Prop where
  modules : after.modules = before.modules
  linked : after.linked = before.linked
  room : after.runtime.memory.HasRoom ↔ before.runtime.memory.HasRoom

/-- The runtime when `m3_LoadModule` has accepted a module. -/
def loadedRuntime (guest : GuestModule) (attempt : LoadAttempt) (host : Host) : WasmRuntime :=
  {
    host.runtime with
    nextId := host.runtime.nextId + 1
    memory := (host.runtime.memory.loadModule guest attempt).1
    modules := host.runtime.modules ++ [host.runtime.nextId]
  }

/-- After `m3_LoadModule` nothing goes wrong: the host functions are linked, the module is compiled, its
start function has all its values and returns, and then there is room for two pages.
-/
structure GoesThrough (guest : GuestModule) (attempt : LoadAttempt) (host : Host) : Prop where
  linked : ∀ name ∈ hostFunctions, attempt.linked name = none
  compiled : attempt.compiled = none
  serves : (host.loadedRuntime guest attempt).ServesAll attempt.start.actions
  started : attempt.start.result = none ∨ attempt.start.result = some functionLookupFailed
  room : ((host.loadedRuntime guest attempt).actAll attempt.start.actions).1.memory.HasRoom

/-- The load is refused by the parser, or by `m3_LoadModule` with no change of the room for two pages, or
it goes through.
-/
def UndoesOrSucceeds (attempt : LoadAttempt) (host : Host) : Prop :=
  ∀ guest, attempt.parsed = .ok guest →
    (¬(Memory.Admits guest ∧ attempt.initialised = none)
        ∧ (Memory.HasRoomAfter guest host.runtime.memory ↔ host.runtime.memory.HasRoom))
      ∨ (Memory.Admits guest ∧ attempt.initialised = none) ∧ host.GoesThrough guest attempt

theorem finishLoad_spec (id : UInt32) (host : Host)
    : (host.finishLoad id).1.runtime.currentCtx = host.runtime.currentCtx
      ∧ (Threw (host.finishLoad id).2 ↔ ¬host.runtime.memory.HasRoom) := by
  have ok := ensureMemory_ok host.runtime
  have same := ensureMemory_currentCtx 2 host.runtime
  rw [finishLoad]
  rcases ensured : host.runtime.ensureMemory 2 with ⟨runtime, - | what⟩
  · rw [ensured] at ok same
    refine ⟨same, iff_of_false ?_ (not_not_intro (ok.mp rfl))⟩
    rintro ⟨what, member⟩
    simp at member
  · rw [ensured] at ok same
    exact ⟨same, iff_of_true ⟨what, List.mem_singleton_self _⟩ fun room => by cases ok.mpr room⟩

theorem threw_afterGuest {shown : List WasmOutput} {rest : Host × List HostOutput}
    : Threw (afterGuest shown rest).2 ↔ (∃ what, .thrown what ∈ shown) ∨ Threw rest.2 := by
  simp [Threw, afterGuest, exists_or]

/-- The start function and what follows end with an exception exactly when one of them goes wrong. -/
theorem startModule_spec (id : UInt32) (start : GuestRun) (host : Host)
    (idle : host.runtime.currentCtx = none)
    : (host.startModule id start).1.runtime.currentCtx = none
      ∧ (Threw (host.startModule id start).2
        ↔ ¬(host.runtime.ServesAll start.actions
            ∧ (start.result = none ∨ start.result = some functionLookupFailed)
            ∧ (host.runtime.actAll start.actions).1.memory.HasRoom)) := by
  have ends := runGuest_eq_ok start host.runtime
  have thrown := runGuest_thrown start host.runtime
  have kept := (runGuest_currentCtx start host.runtime).mpr idle
  rw [startModule, ← runGuest_fst]
  rcases ran : host.runtime.runGuest start with ⟨runtime, shown, what | - | result⟩
  · rw [ran] at ends thrown kept
    have cut : ¬host.runtime.ServesAll start.actions := fun serves =>
      by cases (ends start.result).mpr ⟨serves, rfl⟩
    refine ⟨kept, iff_of_true (threw_afterGuest.mpr (.inl (thrown.mpr ⟨what, rfl⟩))) ?_⟩
    exact fun all => cut all.1
  · rw [ran] at ends thrown kept
    obtain ⟨serves, result⟩ := (ends none).mp rfl
    have silent : ¬∃ what, .thrown what ∈ shown := fun some_ => by
      obtain ⟨what, failed⟩ := thrown.mp some_
      cases failed
    obtain ⟨same, threw⟩ := finishLoad_spec id { host with runtime }.setReady
    refine ⟨same.trans kept, ?_⟩
    rw [threw_afterGuest, or_iff_right silent, threw]
    simp [serves, result, setReady]
  · rw [ran] at ends thrown kept
    obtain ⟨serves, returned⟩ := (ends (some result)).mp rfl
    have silent : ¬∃ what, .thrown what ∈ shown := fun some_ => by
      obtain ⟨what, failed⟩ := thrown.mp some_
      cases failed
    by_cases tolerated : result = functionLookupFailed
    · obtain ⟨same, threw⟩ := finishLoad_spec id { host with runtime }
      simp only [if_pos tolerated]
      refine ⟨same.trans kept, ?_⟩
      rw [threw_afterGuest, or_iff_right silent, threw]
      simp [serves, returned, tolerated]
    · simp only [if_neg tolerated]
      refine ⟨kept, ?_⟩
      rw [threw_afterGuest, or_iff_right silent]
      simp [Threw, throw_, returned, tolerated]

theorem loadModule_pushed {guest : GuestModule} {attempt : LoadAttempt} {memory : Memory}
    (idle : host.runtime.currentCtx = none) (parsed : attempt.parsed = .ok guest)
    (loaded : host.runtime.memory.loadModule guest attempt = (memory, none))
    : (host.loadModule attempt).1.runtime.currentCtx = none
      ∧ (host.loadModule attempt).1.modules ≠ host.modules
      ∧ (Threw (host.loadModule attempt).2 ↔ ¬host.GoesThrough guest attempt) := by
  have longer (info : ModuleInfo) : host.modules ++ [info] ≠ host.modules :=
    fun same => by simpa using congrArg List.length same
  have threw (what : String) (opened : Host) : Threw (opened.throw_ what).2 :=
    ⟨what, List.mem_singleton_self _⟩
  rw [loadModule]
  simp only [parsed, loaded]
  rcases linked : registerHostImports attempt.linked with - | result
  · rcases compiled : attempt.compiled with - | result
    · dsimp only
      generalize opens : Host.push host.runtime.nextId { handle := host.nextHandle, guest } memory
        { host with
          runtime := { host.runtime with nextId := host.runtime.nextId + 1 }
          nextHandle := host.nextHandle + 1 } = opened
      have entry : opened.runtime = host.loadedRuntime guest attempt := by
        rw [← opens, loadedRuntime, loaded]
        rfl
      have pushed : opened.modules = host.modules ++ [⟨host.runtime.nextId, host.nextHandle, guest⟩] := by
        rw [← opens]
        rfl
      have idle_ : opened.runtime.currentCtx = none := entry ▸ idle
      obtain ⟨same, threw⟩ := startModule_spec host.runtime.nextId attempt.start opened idle_
      refine ⟨same, ?_, threw.trans (not_congr ?_)⟩
      · rw [(startModule_same _ _ _).modules, pushed]
        exact longer _
      · rw [entry]
        constructor
        · rintro ⟨serves, started, room⟩
          exact ⟨List.findSome?_eq_none_iff.mp linked, compiled, serves, started, room⟩
        · exact fun through => ⟨through.serves, through.started, through.room⟩
    · refine ⟨idle, longer _, iff_of_true (threw _ _) fun through => ?_⟩
      cases compiled.symm.trans through.compiled
  · refine ⟨idle, longer _, iff_of_true (threw _ _) fun through => ?_⟩
    cases linked.symm.trans (List.findSome?_eq_none_iff.mpr through.linked)

/-- A load that throws leaves everything as it was exactly when it undoes its work or goes through. -/
theorem loadModule_spec (attempt : LoadAttempt) (idle : host.runtime.currentCtx = none)
    : (host.loadModule attempt).1.runtime.currentCtx = none
      ∧ ((Threw (host.loadModule attempt).2 → host.Unchanged (host.loadModule attempt).1)
        ↔ host.UndoesOrSucceeds attempt) := by
  rcases parsed : attempt.parsed with result | guest
  · rw [loadModule, parsed]
    refine ⟨idle, iff_of_true (fun _ => ⟨rfl, rfl, Iff.rfl⟩) fun guest parses => ?_⟩
    cases parsed.symm.trans parses
  have own : host.UndoesOrSucceeds attempt
      ↔ (¬(Memory.Admits guest ∧ attempt.initialised = none)
          ∧ (Memory.HasRoomAfter guest host.runtime.memory ↔ host.runtime.memory.HasRoom))
        ∨ (Memory.Admits guest ∧ attempt.initialised = none) ∧ host.GoesThrough guest attempt := by
    constructor
    · exact fun all => all guest parsed
    · intro holds other parses
      cases parsed.symm.trans parses
      exact holds
  have accepts := Memory.loadModule_ok guest attempt host.runtime.memory
  have room := Memory.loadModule_hasRoom guest attempt host.runtime.memory
  rw [own, ← accepts]
  rcases loaded : host.runtime.memory.loadModule guest attempt with ⟨memory, - | result⟩
  · obtain ⟨same, longer, threw⟩ := loadModule_pushed idle parsed loaded
    refine ⟨same, ?_⟩
    rw [threw]
    constructor
    · exact fun undone => .inr ⟨rfl, not_not.mp fun fails => longer (undone fails).modules⟩
    · rintro (⟨refused, -⟩ | ⟨-, through⟩)
      · exact absurd rfl refused
      · exact fun fails => absurd through fails
  · rw [loaded] at room
    rw [loadModule]
    simp only [parsed, loaded]
    refine ⟨idle, ?_⟩
    rw [← room]
    constructor
    · intro undone
      exact .inl ⟨Option.some_ne_none _, (undone ⟨_, List.mem_singleton_self _⟩).room⟩
    · rintro (⟨-, same⟩ | ⟨none_, -⟩) -
      · exact ⟨rfl, rfl, same⟩
      · cases none_

-- Runs

/-- There is no context between calls, and a load that has thrown has left everything as it was. -/
structure Clean (history : List HostStage) (host : Host) : Prop where
  idle : host.runtime.currentCtx = none
  unchanged : ∀ stage ∈ history.getLast?, ∀ attempt, stage.event = .load attempt
    → Threw stage.outputs
    → Unchanged stage.before host

/-- A load undoes its work or goes through, and a call comes to where it clears its context. -/
def Settles (json : Json) (stage : HostStage) : Prop :=
  match stage.event with
  | .load attempt => stage.before.UndoesOrSucceeds attempt
  | .call callback moduleId context find guest =>
      ClearsContext json callback moduleId context find guest stage.before

theorem clean_append {stage : HostStage}
    : Clean (history ++ [stage]) host
      ↔ host.runtime.currentCtx = none
        ∧ ∀ attempt, stage.event = .load attempt → Threw stage.outputs
          → Unchanged stage.before host := by
  constructor
  · intro clean
    exact ⟨clean.idle, clean.unchanged stage (List.getLast?_concat ..)⟩
  · rintro ⟨idle, unchanged⟩
    refine ⟨idle, fun other last => ?_⟩
    rw [List.getLast?_concat] at last
    exact Option.some.inj last ▸ unchanged

/-- In every run, nothing is left behind after any call exactly when all loads undo their work or go
through, and all calls come to where they clear their context.
-/
theorem clean_iff (run : Run (step json) (fun _ _ _ => True) {} history last)
    : Throughout Clean history last ↔ ∀ stage ∈ history, Settles json stage := by
  refine run.throughout_iff ⟨rfl, fun _ last => by cases last⟩ ?_
  intro history host event after outputs _ clean _ taken
  rw [clean_append]
  cases event with
  | load attempt =>
      obtain ⟨rfl, rfl⟩ := Prod.mk.inj (Except.ok.inj taken)
      obtain ⟨idle, undoes⟩ := loadModule_spec attempt clean.idle
      refine (and_iff_right idle).trans (Iff.trans ?_ undoes)
      constructor
      · exact fun all => all attempt rfl
      · rintro own other ⟨⟩
        exact own
  | call callback moduleId context find guest =>
      obtain rfl := congrArg Prod.fst (Except.ok.inj taken)
      refine (and_iff_left ?_).trans (call_currentCtx clean.idle)
      intro attempt same
      cases same

/-- A module without imports, which cannot be linked. -/
def unlinked : LoadAttempt where
  parsed := .ok (exporting "on_request")
  linked _ := some functionLookupFailed

theorem run_unlinked
    : Run (step emptyJson) (fun _ _ _ => True) {}
        ([] ++ [{ before := {}, event := .load unlinked, outputs := (loadModule unlinked {}).2 }])
        (loadModule unlinked {}).1 :=
  .next .start trivial rfl

/-- Two loads and a call by an id, in which the guest traps. -/
theorem clean_iff_secondModule
    : ∃ history last, Run (step emptyJson) (fun _ _ _ => True) {} history last
      ∧ history.any misroutes = true
      ∧ (Throughout Clean history last ↔ ∀ stage ∈ history, Settles emptyJson stage) := by
  obtain ⟨history, last, run, called⟩ := secondModule_misroutes
  exact ⟨history, last, run, called, clean_iff run⟩

/-- The load has thrown, and the module stays where later calls find it. -/
theorem unlinked_stays
    : ∃ history last, Run (step emptyJson) (fun _ _ _ => True) {} history last
      ∧ ¬Throughout Clean history last := by
  refine ⟨_, _, run_unlinked, fun clean => ?_⟩
  have threw : Threw (loadModule unlinked {}).2 :=
    ⟨"WasmRuntime: link failed: function lookup failed", List.mem_singleton_self _⟩
  have undone := clean.2.unchanged _ rfl unlinked rfl threw
  cases undone.modules

end Host

end Creek.Wasm
