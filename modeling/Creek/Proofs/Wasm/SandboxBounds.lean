import Creek.Wasm.Runtime

/-! Which bytes the host touches in a call. It checks its own strings against the size of the memory it
remembers, and what the guest points at not at all.
-/

namespace Creek.Wasm.WasmRuntime

open Library
open Tight (Bytes)

variable {json : Json} {runtime after last : WasmRuntime} {event : WasmEvent}
  {outputs : List WasmOutput} {history : List WasmStage}

-- The remembered memory

theorem size_lt (memory : Memory) : memory.size < 2 ^ 32 := by
  have bounded : memory.numPages.toNat ≤ 32768 := memory.bounded
  show memory.numPages.toNat * 65536 < 2 ^ 32
  omega

theorem getMemory_toNat (memory : Memory) : memory.getMemory.2.toNat = memory.size := by
  simp only [Memory.getMemory, UInt32.toNat_ofNat']
  exact Nat.mod_eq_of_lt (size_lt memory)

theorem getMemory_base (memory : Memory)
    : memory.getMemory.1 = none ∨ memory.getMemory.1 = some memory.block := by
  rw [Memory.getMemory]
  exact ite_eq_or_eq _ _ _

theorem getMemory_nonempty {memory : Memory} (nonempty : 0 < memory.size)
    : memory.getMemory.1 = some memory.block := by
  rw [Memory.getMemory]
  exact if_neg (Nat.ne_of_gt nonempty)

/-- The runtime remembers the memory as it is. -/
def Current (runtime : WasmRuntime) : Prop := runtime.memBase = some runtime.memory.block

/-- If the runtime remembers the block of the memory, it remembers the size as well; later blocks are new.
-/
structure Coherent (runtime : WasmRuntime) : Prop where
  old : ∀ block, runtime.memBase = some block → block ≤ runtime.memory.block
  sized : runtime.Current → runtime.memSize.toNat = runtime.memory.size

@[simp] theorem cacheMemory_memory (runtime : WasmRuntime)
    : runtime.cacheMemory.memory = runtime.memory := by
  rw [cacheMemory]

@[simp] theorem cacheMemory_memBase (runtime : WasmRuntime)
    : runtime.cacheMemory.memBase = runtime.memory.getMemory.1 := by
  rw [cacheMemory]

@[simp] theorem cacheMemory_memSize (runtime : WasmRuntime)
    : runtime.cacheMemory.memSize = runtime.memory.getMemory.2 := by
  rw [cacheMemory]

@[simp] theorem cacheMemory_scratchHead (runtime : WasmRuntime)
    : runtime.cacheMemory.scratchHead = runtime.scratchHead := by
  rw [cacheMemory]

theorem cacheMemory_coherent (runtime : WasmRuntime) : runtime.cacheMemory.Coherent where
  old := by
    intro block same
    rw [cacheMemory_memBase] at same
    rw [cacheMemory_memory]
    rcases getMemory_base runtime.memory with empty | base
    · cases empty.symm.trans same
    · exact Nat.le_of_eq (Option.some.inj (same.symm.trans base))
  sized := by
    intro _
    rw [cacheMemory_memSize, cacheMemory_memory]
    exact getMemory_toNat runtime.memory

/-- Resizing either leaves the memory or moves it to a new block. -/
theorem resize_cases {memory resized : Memory} {numPages : UInt32}
    (done : memory.resize numPages = .ok resized)
    : resized.numPages = numPages
      ∧ (resized = memory ∨ resized.block = memory.block + 1) := by
  rw [Memory.resize] at done
  split at done
  · split at done
    · split at done
      · rename_i same
        cases done
        exact ⟨same.symm, .inl rfl⟩
      · cases done
        exact ⟨rfl, .inr rfl⟩
    · cases done
  · cases done

/-- Resizing the memory makes the remembered one wrong, but not misleading. -/
theorem Coherent.resized (coherent : runtime.Coherent) {memory : Memory} {numPages : UInt32}
    (done : runtime.memory.resize numPages = .ok memory)
    : ({ runtime with memory } : WasmRuntime).Coherent := by
  rcases (resize_cases done).2 with rfl | moved
  · exact coherent
  · constructor
    · intro block same
      exact moved ▸ Nat.le_succ_of_le (coherent.old block same)
    · intro current
      have bound := coherent.old memory.block current
      rw [moved] at bound
      exact absurd bound (Nat.not_succ_le_self _)

/-- Neither the memory's place and size nor what is remembered of them have changed. -/
structure Keeps (before after : WasmRuntime) : Prop where
  block : after.memory.block = before.memory.block
  size : after.memory.size = before.memory.size
  memBase : after.memBase = before.memBase
  memSize : after.memSize = before.memSize

theorem Keeps.trans {middle : WasmRuntime} (first : runtime.Keeps middle) (second : middle.Keeps after)
    : runtime.Keeps after where
  block := second.block.trans first.block
  size := second.size.trans first.size
  memBase := second.memBase.trans first.memBase
  memSize := second.memSize.trans first.memSize

theorem Keeps.current (keeps : runtime.Keeps after) : after.Current ↔ runtime.Current := by
  rw [Current, keeps.block, keeps.memBase, Current]

theorem Coherent.kept (coherent : runtime.Coherent) (keeps : runtime.Keeps after) : after.Coherent where
  old := by
    rw [keeps.block, keeps.memBase]
    exact coherent.old
  sized := by
    rw [keeps.current, keeps.size, keeps.memSize]
    exact coherent.sized

theorem cacheMemory_large {bytes : Nat} (some_ : 0 < bytes)
    (large : bytes ≤ runtime.memory.size)
    : runtime.cacheMemory.Current
      ∧ runtime.cacheMemory.memSize.toNat = runtime.cacheMemory.memory.size
      ∧ bytes ≤ runtime.cacheMemory.memory.size := by
  rw [Current, cacheMemory_memBase, cacheMemory_memSize, cacheMemory_memory]
  exact ⟨getMemory_nonempty (Nat.lt_of_lt_of_le some_ large), getMemory_toNat _, large⟩

/-- A memory that has been ensured is remembered as it is, and has the pages. -/
theorem ensureMemory_done {ensured : WasmRuntime} (done : runtime.ensureMemory 2 = (ensured, none))
    : ensured.Current ∧ ensured.memSize.toNat = ensured.memory.size ∧ 131072 ≤ ensured.memory.size
      ∧ ensured.scratchHead = runtime.scratchHead := by
  rw [ensureMemory] at done
  split at done
  · split at done
    · cases done
    · rename_i memory resized
      cases done
      have large : 131072 ≤ memory.size := by
        rw [Memory.size, (resize_cases resized).1]
        decide
      obtain ⟨current, sized, large⟩ := @cacheMemory_large
        { runtime.cacheMemory with memory } _ (by decide) large
      refine ⟨current, sized, large, ?_⟩
      rw [cacheMemory_scratchHead, cacheMemory_scratchHead]
  · rename_i enough
    cases done
    have large : 131072 ≤ runtime.memory.size := by
      rw [UInt32.not_lt, UInt32.le_iff_toNat_le, cacheMemory_memSize, getMemory_toNat] at enough
      exact enough
    obtain ⟨current, sized, large⟩ := cacheMemory_large (by decide) large
    exact ⟨current, sized, large, cacheMemory_scratchHead runtime⟩

theorem ensureMemory_coherent {ensured : WasmRuntime} {result : Option String} {minPages : UInt32}
    (done : runtime.ensureMemory minPages = (ensured, result))
    : ensured.Coherent := by
  rw [ensureMemory] at done
  split at done
  · split at done
    · cases done
      exact cacheMemory_coherent _
    · cases done
      exact cacheMemory_coherent _
  · cases done
    exact cacheMemory_coherent _

-- What lies in the memory

/-- What the guest points at lies in the memory, or is empty. -/
def PointsInside (memory : Memory) (ptr len : UInt32) : Prop :=
  len = 0 ∨ ptr.toNat + len.toNat ≤ memory.size

/-- The scratch area has no room for the string. -/
def Overflows (s : Bytes) (runtime : WasmRuntime) : Prop :=
  runtime.scratchHead + copyLen s > runtime.memSize

/-- A string is found to overflow, or it is copied to the memory as it is without wrapping around. -/
def CopiesInside (s : Bytes) (runtime : WasmRuntime) : Prop :=
  runtime.Overflows s
    ∨ copyLen s = 0
    ∨ runtime.Current ∧ runtime.scratchHead.toNat + (copyLen s).toNat < 2 ^ 32

/-- The strings from a scratch head on do not wrap around, and if there is room for all of them there is
also room for the result buffer.
-/
def StringsFit (size : Nat) : Nat → List Bytes → Prop
  | head, [] => head + resultBufSize.toNat ≤ size
  | head, s :: rest =>
      head + (copyLen s).toNat < 2 ^ 32
        ∧ (head + (copyLen s).toNat ≤ size → StringsFit size (head + (copyLen s).toNat) rest)

/-- In the memory that a call has ensured, the strings of the call fit. -/
def PreparesInside (json : Json) (callback : Callback) (context : RpcContext) (runtime : WasmRuntime)
    : Prop :=
  ∀ ensured metaJson,
    { runtime with scratchHead := scratchBase }.ensureMemory 2 = (ensured, none)
    → json.dump context.metadata = .ok metaJson
    → StringsFit ensured.memory.size scratchBase.toNat (callStrings callback context metaJson)

/-- A step after which no byte outside the memory has been touched. It depends on what the guest passes,
on how long the strings are, and on whether the memory is still where the call has found it.
-/
def StaysInside (json : Json) (stage : WasmStage) : Prop :=
  match stage.event, stage.before.phase with
  | .found true, .finding callback context =>
      PreparesInside json callback context stage.before
  | .getMetadata keyPtr keyLen, _ =>
      PointsInside stage.before.memory keyPtr keyLen
        ∧ stage.before.CopiesInside
            (stage.before.metadataValue (stage.before.hostRead keyPtr keyLen).2)
  | .setMetadata keyPtr keyLen valuePtr valueLen, _ =>
      PointsInside stage.before.memory keyPtr keyLen
        ∧ PointsInside stage.before.memory valuePtr valueLen
  | .log msgPtr msgLen, _ => PointsInside stage.before.memory msgPtr msgLen
  | .finished, .calling _ resultPtr => resultPtr ≥ stage.before.memSize ∨ stage.before.Current
  | _, _ => True

/-- All bytes that the host touches in a step lie in the memory. -/
def InBounds (stage : WasmStage) : Prop :=
  ∀ access, .access access ∈ stage.outputs → access.InBounds

theorem toNat_eq_zero {len : UInt32} : len.toNat = 0 ↔ len = 0 := by
  rw [← UInt32.toNat_inj]
  exact Iff.rfl

theorem hostRead_inBounds {ptr len : UInt32}
    : (runtime.hostRead ptr len).1.InBounds ↔ PointsInside runtime.memory ptr len := by
  refine Span.within_iff.trans (or_congr toNat_eq_zero ?_)
  exact and_iff_right rfl

theorem copy_inBounds (coherent : runtime.Coherent) {s : Bytes} (accepted : ¬runtime.Overflows s)
    : (runtime.touch runtime.memBase runtime.scratchHead (copyLen s)).InBounds
      ↔ runtime.CopiesInside s := by
  refine Span.within_iff.trans ?_
  rw [CopiesInside, or_iff_right accepted]
  refine or_congr toNat_eq_zero (and_congr_right fun current => ?_)
  have sized := coherent.sized current
  have fits : (runtime.scratchHead + copyLen s).toNat ≤ runtime.memSize.toNat :=
    UInt32.le_iff_toNat_le.mp (UInt32.not_lt.mp accepted)
  rw [UInt32.toNat_add, sized] at fits
  have bound := size_lt runtime.memory
  show runtime.scratchHead.toNat + (copyLen s).toNat ≤ runtime.memory.size ↔ _
  constructor
  · intro inside
    exact Nat.lt_of_le_of_lt inside bound
  · intro unwrapped
    rwa [Nat.mod_eq_of_lt unwrapped] at fits

/-- A string is copied exactly when it is not found to overflow. -/
theorem writeNullStr_cases (s : Bytes) (runtime : WasmRuntime)
    : runtime.Overflows s ∧ runtime.writeNullStr s = none
      ∨ ¬runtime.Overflows s
        ∧ ∃ after, runtime.writeNullStr s =
            some (after, runtime.touch runtime.memBase runtime.scratchHead (copyLen s),
              runtime.scratchHead)
          ∧ runtime.Keeps after ∧ after.scratchHead = runtime.scratchHead + copyLen s := by
  by_cases overflows : runtime.Overflows s
  · exact .inl ⟨overflows, if_pos overflows⟩
  · exact .inr ⟨overflows, _, if_neg overflows, ⟨rfl, rfl, rfl, rfl⟩, rfl⟩

-- The steps of a call

/-- Strings that are copied one after the other, and the result buffer behind them. -/
theorem writeNullStrs_inBounds {strings : List Bytes} {accesses : List Access}
    {ptrs : Option (List UInt32)} (written : runtime.writeNullStrs strings = (after, accesses, ptrs))
    (coherent : runtime.Coherent) (current : runtime.Current)
    (head : runtime.scratchHead.toNat ≤ runtime.memory.size)
    : runtime.Keeps after
      ∧ ((∀ access ∈ accesses, access.InBounds)
          ∧ (ptrs ≠ none → after.scratchHead.toNat + resultBufSize.toNat ≤ runtime.memory.size)
        ↔ StringsFit runtime.memory.size runtime.scratchHead.toNat strings) := by
  induction strings generalizing runtime accesses ptrs with
  | nil =>
      cases written
      refine ⟨⟨rfl, rfl, rfl, rfl⟩, ?_⟩
      rw [StringsFit, and_iff_right fun _ => nofun]
      exact ⟨fun all => all nofun, fun inside _ => inside⟩
  | cons s rest ih =>
      have sized := coherent.sized current
      have bound := size_lt runtime.memory
      have sum := UInt32.toNat_add runtime.scratchHead (copyLen s)
      have short := UInt32.toNat_lt (copyLen s)
      rw [writeNullStrs] at written
      rcases writeNullStr_cases s runtime with ⟨overflows, refused⟩
        | ⟨accepted, middle, copied, keeps, next⟩
      · rw [refused] at written
        cases written
        refine ⟨⟨rfl, rfl, rfl, rfl⟩, iff_of_true ⟨fun _ => nofun, absurd rfl⟩ ?_⟩
        have exceeds := UInt32.lt_iff_toNat_lt.mp overflows
        exact ⟨by omega, fun inside => by omega⟩
      · rcases others : middle.writeNullStrs rest with ⟨final, more, offsets⟩
        simp only [copied, others] at written
        cases written
        have fits := UInt32.le_iff_toNat_le.mp (UInt32.not_lt.mp accepted)
        have room : middle.scratchHead.toNat ≤ middle.memory.size := by
          rw [next, keeps.size, ← sized]
          exact fits
        obtain ⟨later, rest_⟩ := ih others (coherent.kept keeps) (keeps.current.mpr current) room
        refine ⟨keeps.trans later, ?_⟩
        have copy : (runtime.touch runtime.memBase runtime.scratchHead (copyLen s)).InBounds
            ↔ runtime.scratchHead.toNat + (copyLen s).toNat < 2 ^ 32 := by
          rw [copy_inBounds coherent accepted, CopiesInside, or_iff_right accepted, and_iff_right current,
            or_iff_right_of_imp]
          intro empty
          rw [empty]
          exact UInt32.toNat_lt runtime.scratchHead
        rw [List.forall_mem_cons, copy, StringsFit, and_assoc]
        refine and_congr_right fun unwrapped => ?_
        rw [Nat.mod_eq_of_lt unwrapped] at sum
        rw [keeps.size, next, sum] at rest_
        rw [← rest_, ne_eq, Option.map_eq_none_iff]
        exact ⟨fun all _ => all, fun all => all (by omega)⟩

/-- The bytes shown by the strings and the result buffer, and nothing else. -/
theorem prepare_spec {callback : Callback} {context : RpcContext}
    (prepared : runtime.prepare json callback context = (after, outputs))
    : after.Coherent
      ∧ ((∀ access, .access access ∈ outputs → access.InBounds)
        ↔ runtime.PreparesInside json callback context) := by
  rw [prepare] at prepared
  rcases ensured : ensureMemory 2 { runtime with scratchHead := scratchBase } with ⟨ready, result⟩
  have coherent := ensureMemory_coherent ensured
  rw [ensured] at prepared
  rcases result with none_ | what
  · obtain ⟨current, sized, large, head⟩ := ensureMemory_done ensured
    rcases dumped : json.dump context.metadata with what | metaJson
    · simp only [dumped, throw_] at prepared
      cases prepared
      refine ⟨coherent.kept ⟨rfl, rfl, rfl, rfl⟩, iff_of_true (by simp) ?_⟩
      intro other metaJson _ dumps
      cases dumped.symm.trans dumps
    · rcases copied : writeNullStrs (callStrings callback context metaJson)
        { ready with currentCtx := some context } with ⟨written, accesses, ptrs⟩
      have started : ({ ready with currentCtx := some context } : WasmRuntime).Coherent :=
        coherent.kept ⟨rfl, rfl, rfl, rfl⟩
      have room : ready.scratchHead.toNat ≤ ready.memory.size := by
        rw [head]
        exact Nat.le_trans (by decide : scratchBase.toNat ≤ 131072) large
      obtain ⟨keeps, inside⟩ := writeNullStrs_inBounds copied started current room
      have fits : runtime.PreparesInside json callback context
          ↔ StringsFit ready.memory.size ready.scratchHead.toNat
              (callStrings callback context metaJson) := by
        constructor
        · intro prepares
          rw [head]
          exact prepares ready metaJson ensured dumped
        · intro fits other text same dumps
          obtain rfl := (Prod.mk.inj (ensured.symm.trans same)).1
          obtain rfl := Except.ok.inj (dumped.symm.trans dumps)
          rwa [head] at fits
      have kept := started.kept keeps
      rw [fits, ← inside]
      rcases ptrs with none_ | ptrs
      · simp only [dumped, copied, throw_] at prepared
        cases prepared
        exact ⟨kept.kept ⟨rfl, rfl, rfl, rfl⟩, by simp⟩
      · simp only [dumped, copied, clearResult] at prepared
        cases prepared
        refine ⟨kept.kept ⟨rfl, rfl, rfl, rfl⟩, ?_⟩
        have cleared : (written.touch written.memBase written.scratchHead resultBufSize).InBounds
            ↔ written.scratchHead.toNat + resultBufSize.toNat ≤ ready.memory.size := by
          refine Span.within_iff.trans ((or_iff_right (by decide : resultBufSize.toNat ≠ 0)).trans ?_)
          rw [← keeps.size]
          exact and_iff_right (keeps.current.mpr current)
        simp [cleared, or_imp, forall_and]
  · simp only [throw_] at prepared
    cases prepared
    refine ⟨coherent.kept ⟨rfl, rfl, rfl, rfl⟩, iff_of_true (by simp) ?_⟩
    intro other metaJson same
    cases ensured.symm.trans same

/-- Reading a result that starts within the remembered size touches at least one byte, and none beyond
that size.
-/
theorem readNullStr_inBounds (coherent : runtime.Coherent) (offset : UInt32)
    : (runtime.readNullStr offset).1.InBounds ↔ offset ≥ runtime.memSize ∨ runtime.Current := by
  rw [readNullStr]
  split
  · rename_i beyond
    exact iff_of_true (Span.within_iff.mpr (.inl rfl)) (.inl beyond)
  · rename_i before
    have order := UInt32.not_le.mp before
    have room := UInt32.toNat_sub_of_le _ _ (UInt32.le_of_lt order)
    have position := UInt32.lt_iff_toNat_lt.mp order
    have small := UInt32.toNat_lt runtime.memSize
    refine Span.within_iff.trans ?_
    rw [or_iff_right before]
    show (UInt32.ofNat (min _ _)).toNat = 0
      ∨ runtime.Current ∧ offset.toNat + (UInt32.ofNat (min _ _)).toNat ≤ runtime.memory.size ↔ _
    rw [UInt32.toNat_ofNat_of_lt' (Nat.lt_of_le_of_lt (Nat.min_le_right _ _) (UInt32.toNat_lt _)),
      room, or_iff_right (by omega)]
    refine and_iff_left_of_imp fun current => ?_
    have sized := coherent.sized current
    omega

-- Runs

theorem loadModule_spec {initPages maxPages : UInt32}
    (done : runtime.loadModule initPages maxPages = (after, outputs)) (coherent : runtime.Coherent)
    : after.Coherent ∧ ∀ access, .access access ∉ outputs := by
  rw [loadModule] at done
  split at done
  · cases done
    exact ⟨coherent.kept ⟨rfl, rfl, rfl, rfl⟩, by simp⟩
  · rename_i resized
    cases done
    have limited : ({
        runtime with
        memory := { runtime.memory with maxPages := if maxPages = 0 then 65536 else maxPages }
      } : WasmRuntime).Coherent := coherent.kept ⟨rfl, rfl, rfl, rfl⟩
    exact ⟨(limited.resized resized).kept ⟨rfl, rfl, rfl, rfl⟩, nofun⟩

theorem moduleLoaded_spec (done : runtime.moduleLoaded = (after, outputs))
    : after.Coherent ∧ ∀ access, .access access ∉ outputs := by
  rw [moduleLoaded] at done
  split at done
  · rename_i ensured
    cases done
    exact ⟨(ensureMemory_coherent ensured).kept ⟨rfl, rfl, rfl, rfl⟩, by simp⟩
  · rename_i ensured
    cases done
    exact ⟨ensureMemory_coherent ensured, nofun⟩

theorem enter_spec {callback : Callback} {moduleId : UInt32} {context : RpcContext}
    (done : runtime.enter callback moduleId context = (after, outputs))
    : runtime.Keeps after ∧ ∀ access, .access access ∉ outputs := by
  rw [enter] at done
  split at done
  · cases done
    exact ⟨⟨rfl, rfl, rfl, rfl⟩, nofun⟩
  · cases done
    exact ⟨⟨rfl, rfl, rfl, rfl⟩, by simp⟩

theorem creekGetMetadata_spec {keyPtr keyLen : UInt32}
    (done : runtime.creekGetMetadata keyPtr keyLen = (after, outputs)) (coherent : runtime.Coherent)
    : runtime.Keeps after
      ∧ ((∀ access, .access access ∈ outputs → access.InBounds)
        ↔ PointsInside runtime.memory keyPtr keyLen
          ∧ runtime.CopiesInside (runtime.metadataValue (runtime.hostRead keyPtr keyLen).2)) := by
  rw [creekGetMetadata, ← hostRead_inBounds] at *
  rcases read : runtime.hostRead keyPtr keyLen with ⟨access, key⟩
  rcases writeNullStr_cases (runtime.metadataValue key) runtime
    with ⟨overflows, refused⟩ | ⟨accepted, written, copied, keeps, -⟩
  · simp only [read, refused, throw_] at done
    cases done
    refine ⟨⟨rfl, rfl, rfl, rfl⟩, ?_⟩
    rw [and_iff_left (.inl overflows)]
    simp
  · simp only [read, copied] at done
    cases done
    refine ⟨keeps, ?_⟩
    rw [← copy_inBounds coherent accepted]
    simp

theorem creekSetMetadata_spec {keyPtr keyLen valuePtr valueLen : UInt32}
    (done : runtime.creekSetMetadata keyPtr keyLen valuePtr valueLen = (after, outputs))
    : runtime.Keeps after
      ∧ ((∀ access, .access access ∈ outputs → access.InBounds)
        ↔ PointsInside runtime.memory keyPtr keyLen
          ∧ PointsInside runtime.memory valuePtr valueLen) := by
  cases done
  refine ⟨⟨rfl, rfl, rfl, rfl⟩, ?_⟩
  rw [← hostRead_inBounds, ← hostRead_inBounds]
  simp [hostRead]

theorem creekLog_spec {msgPtr msgLen : UInt32}
    (done : runtime.creekLog msgPtr msgLen = (after, outputs))
    : runtime.Keeps after
      ∧ ((∀ access, .access access ∈ outputs → access.InBounds)
        ↔ PointsInside runtime.memory msgPtr msgLen) := by
  cases done
  refine ⟨⟨rfl, rfl, rfl, rfl⟩, ?_⟩
  rw [← hostRead_inBounds]
  simp [hostRead]

theorem finish_spec {resultPtr : UInt32} (done : runtime.finish json resultPtr = (after, outputs))
    (coherent : runtime.Coherent)
    : runtime.Keeps after
      ∧ ((∀ access, .access access ∈ outputs → access.InBounds)
        ↔ resultPtr ≥ runtime.memSize ∨ runtime.Current) := by
  rcases read : runtime.readNullStr resultPtr with ⟨access, resultJson⟩
  simp only [finish, read] at done
  cases done
  refine ⟨⟨rfl, rfl, rfl, rfl⟩, ?_⟩
  rw [← readNullStr_inBounds coherent, read]
  simp

/-- One step keeps what is remembered coherent, and stays inside the memory exactly when its condition
holds.
-/
theorem step_spec (taken : runtime.step json event = .ok (after, outputs))
    (coherent : runtime.Coherent)
    : after.Coherent
      ∧ (InBounds { before := runtime, event, outputs }
        ↔ StaysInside json { before := runtime, event, outputs }) := by
  have silent (nothing : ∀ access, .access access ∉ outputs)
      : InBounds { before := runtime, event, outputs } :=
    fun access member => absurd member (nothing access)
  unfold step at taken
  split at taken
  · obtain ⟨kept, nothing⟩ := loadModule_spec (Except.ok.inj taken) coherent
    exact ⟨kept, iff_of_true (silent nothing) trivial⟩
  · obtain ⟨kept, nothing⟩ := moduleLoaded_spec (Except.ok.inj taken)
    exact ⟨kept, iff_of_true (silent nothing) trivial⟩
  · obtain ⟨keeps, nothing⟩ := enter_spec (Except.ok.inj taken)
    exact ⟨coherent.kept keeps, iff_of_true (silent nothing) trivial⟩
  · rename_i callback context phase
    obtain ⟨kept, inside⟩ := prepare_spec (Except.ok.inj taken)
    refine ⟨kept, inside.trans (Eq.to_iff ?_)⟩
    rw [StaysInside, phase]
  · cases taken
    exact ⟨coherent.kept ⟨rfl, rfl, rfl, rfl⟩, iff_of_true (silent (by simp)) trivial⟩
  · split at taken
    · cases taken
      exact ⟨coherent, iff_of_true (silent nofun) trivial⟩
    · rename_i resized
      cases taken
      exact ⟨coherent.resized resized, iff_of_true (silent nofun) trivial⟩
  · obtain ⟨keeps, inside⟩ := creekGetMetadata_spec (Except.ok.inj taken) coherent
    exact ⟨coherent.kept keeps, inside⟩
  · obtain ⟨keeps, inside⟩ := creekSetMetadata_spec (Except.ok.inj taken)
    exact ⟨coherent.kept keeps, inside⟩
  · obtain ⟨keeps, inside⟩ := creekLog_spec (Except.ok.inj taken)
    exact ⟨coherent.kept keeps, inside⟩
  · cases taken
    exact ⟨coherent.kept ⟨rfl, rfl, rfl, rfl⟩, iff_of_true (silent nofun) trivial⟩
  · cases taken
    exact ⟨coherent.kept ⟨rfl, rfl, rfl, rfl⟩, iff_of_true (silent (by simp)) trivial⟩
  · rename_i resultPtr phase
    obtain ⟨keeps, inside⟩ := finish_spec (Except.ok.inj taken) coherent
    refine ⟨coherent.kept keeps, inside.trans (Eq.to_iff ?_)⟩
    rw [StaysInside, phase]
  · cases taken

/-- Between any two steps of a run what is remembered is coherent. -/
theorem run_coherent {allowed : List WasmStage → WasmRuntime → WasmEvent → Prop}
    (run : Run (step json) allowed {} history last)
    : last.Coherent :=
  run.invariant (fun _ runtime => runtime.Coherent) ⟨nofun, nofun⟩
    fun _ _ _ _ _ _ coherent _ taken => (step_spec taken coherent).1

/-- In every run the calls touch no byte outside the memory exactly when all their steps meet their
conditions.
-/
theorem inBounds_iff_staysInside (run : Run (step json) (fun _ _ _ => True) {} history last)
    : (∀ stage ∈ history, stage.before.phase ≠ .idle → InBounds stage)
      ↔ ∀ stage ∈ history, stage.before.phase ≠ .idle → StaysInside json stage := by
  have each : ∀ stage ∈ history, (InBounds stage ↔ StaysInside json stage) :=
    run.forall_stage (fun _ _ => run_coherent)
      fun _ _ _ _ _ coherent _ taken => (step_spec taken coherent).2
  exact forall₃_congr fun stage member _ => each stage member

/-- JSON as the library has it for empty metadata and an empty result. -/
def emptyJson : Json where
  dump _ := .ok [123, 125]
  parse _ := []

/-- A guest of one page grows its memory by a page and asks for the value of the empty key. -/
def growingGuest : List WasmEvent :=
  [.load 1 0, .loaded, .call .onRequest 1 {}, .found true, .grow 1, .getMetadata 0 0]

/-- A step of a call that touches a byte outside the memory. -/
def escapes (stage : WasmStage) : Bool :=
  match stage.before.phase with
  | .idle => false
  | _ => stage.outputs.any fun output =>
      match output with
      | .access access => !decide access.InBounds
      | _ => false

theorem not_inBounds_of_escapes {stage : WasmStage} (outside : escapes stage = true)
    : stage.before.phase ≠ .idle ∧ ¬InBounds stage := by
  rw [escapes] at outside
  split at outside
  · cases outside
  · rename_i busy
    refine ⟨busy, fun inside => ?_⟩
    obtain ⟨output, shown, bad⟩ := List.any_eq_true.mp outside
    split at bad
    · simp [inside _ shown] at bad
    · cases bad

theorem inBounds_iff_staysInside_growingGuest
    : ∃ (history : List WasmStage) (last : WasmRuntime),
      Run (step emptyJson) (fun _ _ _ => True) {} history last
      ∧ history.any escapes = true
      ∧ ((∀ stage ∈ history, stage.before.phase ≠ .idle → InBounds stage)
        ↔ ∀ stage ∈ history, stage.before.phase ≠ .idle → StaysInside emptyJson stage) := by
  obtain ⟨history, last, run, outside⟩ := Run.of_shows
    (show shows (step emptyJson) {} growingGuest (fun history => history.any escapes) = true by
      decide +kernel)
  exact ⟨history, last, run, outside, inBounds_iff_staysInside run⟩

/-- The value is written to the block that the memory has left: its offset would be in bounds, but there
is no memory any more.
-/
theorem guest_outside
    : ∃ (history : List WasmStage) (last : WasmRuntime),
      Run (step emptyJson) (fun _ _ _ => True) {} history last
      ∧ ¬∀ stage ∈ history, stage.before.phase ≠ .idle → InBounds stage := by
  obtain ⟨history, last, run, outside⟩ := Run.of_shows
    (show shows (step emptyJson) {} growingGuest (fun history => history.any escapes) = true by
      decide +kernel)
  obtain ⟨stage, member, bad⟩ := List.any_eq_true.mp outside
  obtain ⟨busy, escaped⟩ := not_inBounds_of_escapes bad
  exact ⟨history, last, run, fun inside => escaped (inside stage member busy)⟩

end Creek.Wasm.WasmRuntime
