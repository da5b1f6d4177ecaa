import Creek.Wasm.Modules
import Creek.Proofs.Wasm.SandboxBounds

/-! Whose function a call runs. The lookup is by name over all modules, whatever the id of the call, so
that it has to come out at the module with the id.
-/

namespace Creek.Wasm

open Library
open Tight (Bytes)

-- What the guest can do

/-- An action of the guest as an event of the runtime. -/
def GuestAction.event (runtime : WasmRuntime) : GuestAction → WasmEvent
  | .grow numPages => .grow numPages
  | .getMetadata keyPtr keyLen => .getMetadata keyPtr keyLen
  | .setMetadata keyPtr keyLen valuePtr valueLen => .setMetadata keyPtr keyLen valuePtr valueLen
  | .log msgPtr msgLen => .log msgPtr msgLen
  | .poke offset byte => .poke runtime.memory.block offset byte

namespace WasmRuntime

variable {runtime : WasmRuntime} {guest : GuestRun}

/-- A value that the guest asks for has room in the scratch area. -/
def HasRoomFor (runtime : WasmRuntime) : GuestAction → Prop
  | .getMetadata keyPtr keyLen =>
      ¬runtime.Overflows (runtime.metadataValue (runtime.hostRead keyPtr keyLen).2)
  | _ => True

/-- Every value that the guest asks for has room at that time. -/
def ServesAll : List GuestAction → WasmRuntime → Prop
  | [], _ => True
  | action :: rest, runtime => runtime.HasRoomFor action ∧ ServesAll rest (runtime.act action).1

theorem act_exception (action : GuestAction) (runtime : WasmRuntime)
    : (runtime.act action).2.findSome? WasmOutput.exception? = none ↔ runtime.HasRoomFor action := by
  cases action with
  | grow numPages =>
      refine iff_of_true ?_ trivial
      rw [act]
      split <;> rfl
  | getMetadata keyPtr keyLen =>
      rw [act, HasRoomFor, creekGetMetadata]
      rcases writeNullStr_cases (runtime.metadataValue (runtime.hostRead keyPtr keyLen).2) runtime
        with ⟨overflows, refused⟩ | ⟨accepted, written, copied, -, -⟩
      · simp only [refused, throw_]
        exact iff_of_false (Option.some_ne_none _) (not_not_intro overflows)
      · simp only [copied]
        exact iff_of_true rfl accepted
  | setMetadata keyPtr keyLen valuePtr valueLen => exact iff_of_true rfl trivial
  | log msgPtr msgLen => exact iff_of_true rfl trivial
  | poke offset byte => exact iff_of_true rfl trivial

theorem act_no_context (action : GuestAction) (runtime : WasmRuntime) (context : RpcContext)
    : .context context ∉ (runtime.act action).2 := by
  cases action with
  | grow numPages =>
      rw [act]
      split <;> exact List.not_mem_nil
  | getMetadata keyPtr keyLen =>
      rw [act, creekGetMetadata]
      rcases writeNullStr_cases (runtime.metadataValue (runtime.hostRead keyPtr keyLen).2) runtime
        with ⟨overflows, refused⟩ | ⟨accepted, written, copied, -, -⟩
      · simp [refused, throw_]
      · simp [copied]
  | setMetadata keyPtr keyLen valuePtr valueLen => simp [act, creekSetMetadata]
  | log msgPtr msgLen => simp [act, creekLog]
  | poke offset byte => exact List.not_mem_nil

theorem actAll_exception (actions : List GuestAction) (runtime : WasmRuntime)
    : (runtime.actAll actions).2.2 = none ↔ runtime.ServesAll actions := by
  induction actions generalizing runtime with
  | nil => exact iff_of_true rfl trivial
  | cons action rest ih =>
      rw [ServesAll, ← act_exception, ← ih, actAll]
      rcases shown : (runtime.act action).2.findSome? WasmOutput.exception? with - | what
      · simp only [shown, true_and]
      · simp only [shown]
        exact iff_of_false nofun fun both => nomatch both.1

theorem actAll_no_context (actions : List GuestAction) (runtime : WasmRuntime) (context : RpcContext)
    : .context context ∉ (runtime.actAll actions).2.1 := by
  induction actions generalizing runtime with
  | nil => exact List.not_mem_nil
  | cons action rest ih =>
      have first := act_no_context action runtime context
      rw [actAll]
      rcases acted : runtime.act action with ⟨middle, outputs⟩
      rw [acted] at first
      rcases shown : outputs.findSome? WasmOutput.exception? with - | what
      · simp only [shown]
        exact fun member => (List.mem_append.mp member).elim first (ih _)
      · simp only [shown]
        exact first

/-- The guest comes to its end exactly when every value it asks for has room. -/
theorem runGuest_eq_ok (guest : GuestRun) (runtime : WasmRuntime) (result : Option String)
    : (runtime.runGuest guest).2.2 = .ok result
      ↔ runtime.ServesAll guest.actions ∧ guest.result = result := by
  rw [← actAll_exception, runGuest]
  rcases runtime.actAll guest.actions with ⟨after, outputs, - | what⟩
  · simp only [Except.ok.injEq, true_and]
  · exact iff_of_false nofun fun both => nomatch both.1

theorem runGuest_no_context (guest : GuestRun) (runtime : WasmRuntime) (context : RpcContext)
    : .context context ∉ (runtime.runGuest guest).2.1 := by
  have absent := actAll_no_context guest.actions runtime context
  rw [runGuest]
  rcases acted : runtime.actAll guest.actions with ⟨after, outputs, - | what⟩
  · rw [acted] at absent
    exact absent
  · rw [acted] at absent
    exact absent

end WasmRuntime

namespace Host

open WasmRuntime

variable {json : Json} {host after last : Host} {callback : Callback} {moduleId : UInt32}
  {context : RpcContext} {find guest : GuestRun} {outputs : List HostOutput}
  {history : List HostStage}

-- The two tables

/-- Both tables hold the same modules, in opposite orders, and no two of them are in one place. -/
structure Paired (host : Host) : Prop where
  reversed : host.linked.map (·.module) = (host.modules.map (·.module)).reverse
  apart : (host.modules.map (·.module.handle)).Nodup
  fresh : ∀ info ∈ host.modules, info.module.handle < host.nextHandle

theorem Paired.initial : ({} : Host).Paired where
  reversed := rfl
  apart := List.nodup_nil
  fresh := nofun

/-- The tables are as they were, but for what is ready, and no place has become free. -/
structure SameTables (before after : Host) : Prop where
  modules : after.modules = before.modules
  linked : after.linked.map (·.module) = before.linked.map (·.module)
  nextHandle : before.nextHandle ≤ after.nextHandle

theorem SameTables.trans {middle : Host} (first : host.SameTables middle)
    (second : middle.SameTables after)
    : host.SameTables after where
  modules := second.modules.trans first.modules
  linked := second.linked.trans first.linked
  nextHandle := Nat.le_trans first.nextHandle second.nextHandle

theorem Paired.kept (paired : host.Paired) (same : host.SameTables after) : after.Paired where
  reversed := by rw [same.linked, same.modules, paired.reversed]
  apart := by rw [same.modules]; exact paired.apart
  fresh := by
    rw [same.modules]
    exact fun info member => Nat.lt_of_lt_of_le (paired.fresh info member) same.nextHandle

theorem Paired.push (paired : host.Paired) (id : UInt32) (guest : GuestModule) (memory : Memory)
    : ({ host with nextHandle := host.nextHandle + 1 }.push id { handle := host.nextHandle, guest }
        memory).Paired where
  reversed := by
    rw [Host.push, List.map_append, List.reverse_append, ← paired.reversed]
    rfl
  apart := by
    rw [Host.push, List.map_append, List.nodup_append]
    refine ⟨paired.apart, List.nodup_singleton _, ?_⟩
    intro handle old other new
    obtain ⟨info, member, rfl⟩ := List.mem_map.mp old
    rw [List.mem_singleton.mp new]
    exact Nat.ne_of_lt (paired.fresh info member)
  fresh := by
    intro info member
    rcases List.mem_append.mp member with old | new
    · exact Nat.lt_succ_of_lt (paired.fresh info old)
    · rw [List.mem_singleton.mp new]
      exact Nat.lt_succ_self _

theorem setReady_same (host : Host) : host.SameTables host.setReady where
  modules := rfl
  linked := by
    rw [setReady]
    rcases host.linked with - | ⟨newest, older⟩ <;> rfl
  nextHandle := Nat.le_refl _

theorem Paired.module_eq (paired : host.Paired) {info : ModuleInfo} {linked : LinkedModule}
    (known : info ∈ host.modules) (member : linked ∈ host.linked)
    (same : linked.module.handle = info.module.handle)
    : linked.module = info.module := by
  have mapped : linked.module ∈ (host.modules.map (·.module)).reverse :=
    paired.reversed ▸ List.mem_map_of_mem member
  obtain ⟨other, listed, eq⟩ := List.mem_map.mp (List.mem_reverse.mp mapped)
  rw [← eq] at same ⊢
  exact congrArg _ (List.inj_on_of_nodup_map paired.apart listed known same)

theorem finishLoad_same (id : UInt32) (host : Host) : host.SameTables (host.finishLoad id).1 := by
  rw [finishLoad]
  split <;> exact ⟨rfl, rfl, Nat.le_refl _⟩

theorem startModule_same (id : UInt32) (start : GuestRun) (host : Host)
    : host.SameTables (host.startModule id start).1 := by
  have unchanged (runtime : WasmRuntime) : host.SameTables { host with runtime } :=
    ⟨rfl, rfl, Nat.le_refl _⟩
  rw [startModule]
  rcases host.runtime.runGuest start with ⟨runtime, outputs, what | - | result⟩
  · exact unchanged runtime
  · exact ((unchanged runtime).trans (setReady_same _)).trans (finishLoad_same id _)
  · dsimp only
    split
    · exact (unchanged runtime).trans (finishLoad_same id _)
    · exact unchanged runtime

theorem loadModule_paired (paired : host.Paired) (attempt : LoadAttempt)
    : (host.loadModule attempt).1.Paired := by
  have unchanged (runtime : WasmRuntime) (nextHandle : Nat) (later : host.nextHandle ≤ nextHandle)
      : ({ host with runtime, nextHandle } : Host).Paired :=
    paired.kept ⟨rfl, rfl, later⟩
  rw [loadModule]
  rcases attempt.parsed with result | guest
  · exact unchanged _ _ (Nat.le_refl _)
  · dsimp only
    split
    · exact unchanged _ _ (Nat.le_succ _)
    · rename_i memory _
      have pushed := (unchanged { host.runtime with nextId := host.runtime.nextId + 1 } _
        (Nat.le_refl _)).push host.runtime.nextId guest memory
      split
      · exact pushed
      · split
        · exact pushed
        · exact pushed.kept (startModule_same _ _ _)

theorem findFunction_same (callback : Callback) (find : GuestRun) (host : Host)
    : host.SameTables (host.findFunction callback find).1 := by
  have unchanged (runtime : WasmRuntime) : host.SameTables { host with runtime } := ⟨rfl, rfl, Nat.le_refl _⟩
  rw [findFunction]
  split
  · exact unchanged host.runtime
  · split
    · exact unchanged host.runtime
    · split
      · exact unchanged _
      · exact unchanged _
      · exact unchanged _

theorem call_same
    : host.SameTables (host.call json callback moduleId context find guest).1 := by
  rw [call]
  split
  · exact ⟨rfl, rfl, Nat.le_refl _⟩
  · have same := findFunction_same callback find host
    split <;> rename_i found <;> rw [found] at same
    · exact same
    · exact same
    · exact ⟨same.modules, same.linked, same.nextHandle⟩

theorem run_paired {allowed : List HostStage → Host → HostEvent → Prop}
    (run : Run (step json) allowed {} history last)
    : last.Paired := by
  refine run.invariant (fun _ host => host.Paired) .initial ?_
  intro _ host event after outputs _ paired _ taken
  cases event with
  | load attempt =>
      obtain rfl := congrArg Prod.fst (Except.ok.inj taken)
      exact loadModule_paired paired attempt
  | call callback moduleId context find guest =>
      obtain rfl := congrArg Prod.fst (Except.ok.inj taken)
      exact paired.kept call_same

-- The function that is found

/-- The module has the function, and no newer one does. -/
def Newest (name : String) (target : LinkedModule) (host : Host) : Prop :=
  ∃ newer older, host.linked = newer ++ target :: older
    ∧ target.module.guest.hasFunction name = true
    ∧ ∀ other ∈ newer, other.module.guest.hasFunction name = false

/-- The module's function can be had: its start function has run, or runs now. -/
def Starts (find : GuestRun) (host : Host) (target : LinkedModule) : Prop :=
  target.ready = true ∨ host.runtime.ServesAll find.actions ∧ find.result = none

/-- The module's function cannot be had, as it is not compiled or its start function returns an error. -/
def FailsToStart (find : GuestRun) (host : Host) (target : LinkedModule) : Prop :=
  target.ready = false ∧ host.runtime.ServesAll find.actions ∧ find.result ≠ none

theorem lookup_eq_some {name : String} {target : LinkedModule}
    : host.lookup name = some target ↔ host.Newest name target := by
  rw [lookup, List.find?_eq_some_iff_append, Newest]
  constructor
  · rintro ⟨has, newer, older, split, none_⟩
    exact ⟨newer, older, split, has, fun other member => Bool.not_eq_true' _ ▸ none_ other member⟩
  · rintro ⟨newer, older, split, has, none_⟩
    exact ⟨has, newer, older, split, fun other member => (Bool.not_eq_true' _).mpr (none_ other member)⟩

theorem lookup_eq_none {name : String}
    : host.lookup name = none
      ↔ ∀ linked ∈ host.linked, linked.module.guest.hasFunction name = false := by
  rw [lookup, List.find?_eq_none]
  exact forall₂_congr fun _ _ => Bool.not_eq_true _ ▸ Iff.rfl

theorem findFunction_eq_ok (find : GuestRun) {target : LinkedModule} (found : host.lookup callback.text = some target)
    (result : Option Nat)
    : (host.findFunction callback find).2.2 = .ok result
      ↔ host.Starts find target ∧ result = some target.module.handle
        ∨ host.FailsToStart find target ∧ result = none := by
  have ends := runGuest_eq_ok find host.runtime
  rw [findFunction, Starts, FailsToStart]
  rcases ready : target.ready with - | -
  · rcases ran : host.runtime.runGuest find with ⟨runtime, outputs, what | - | error⟩
    · rw [ran] at ends
      have cut : ¬host.runtime.ServesAll find.actions := fun serves =>
        nomatch (ends find.result).mpr ⟨serves, rfl⟩
      simp [found, ready, cut]
    · rw [ran] at ends
      have ended := (ends none).mp rfl
      simp [found, ready, ended, eq_comm]
    · rw [ran] at ends
      have ended := (ends (some error)).mp rfl
      simp [found, ready, ended, eq_comm]
  · simp [found, ready, eq_comm]

theorem findFunction_eq_some {handle : Nat}
    : (host.findFunction callback find).2.2 = .ok (some handle)
      ↔ ∃ target, host.Newest callback.text target ∧ target.module.handle = handle
        ∧ host.Starts find target := by
  simp only [← lookup_eq_some]
  rcases found : host.lookup callback.text with - | target
  · rw [findFunction, found]
    exact iff_of_false nofun fun ⟨_, none_, _⟩ => nomatch none_
  · rw [findFunction_eq_ok find found]
    simp [and_comm, eq_comm]

theorem findFunction_eq_none
    : (host.findFunction callback find).2.2 = .ok none
      ↔ (∀ linked ∈ host.linked, linked.module.guest.hasFunction callback.text = false)
        ∨ ∃ target, host.Newest callback.text target ∧ host.FailsToStart find target := by
  simp only [← lookup_eq_some, ← lookup_eq_none]
  rcases found : host.lookup callback.text with - | target
  · rw [findFunction, found]
    exact iff_of_true rfl (.inl rfl)
  · rw [findFunction_eq_ok find found]
    simp

-- Calls

/-- The call has returned the context as it was, without a function. -/
def Skips (context : RpcContext) (outputs : List HostOutput) : Prop :=
  (∀ handle, .found handle ∉ outputs) ∧ .runtime (.context context) ∈ outputs

/-- The guest has been called, unless an exception has come before that. -/
def Enters (outputs : List WasmOutput) : Prop :=
  (∃ args, .called args ∈ outputs) ∨ ∃ what, .thrown what ∈ outputs

/-- The call has found the function of a module, and what follows runs it unless it throws. -/
def RunsFunctionOf (handle : Nat) (outputs : List HostOutput) : Prop :=
  ∃ before others, outputs = before ++ .found handle :: others.map .runtime ∧ Enters others

/-- A call by the id of a module runs the function of that module, and returns the context as it was
exactly when the module exports none.
-/
def Routed (stage : HostStage) : Prop :=
  match stage.event with
  | .load _ => True
  | .call callback moduleId context _ _ =>
      ∀ info ∈ stage.before.modules, info.id = moduleId
        → (info.module.guest.Exports callback.text → RunsFunctionOf info.module.handle stage.outputs)
          ∧ (Skips context stage.outputs ↔ ¬info.module.guest.Exports callback.text)

/-- The lookup of a call comes out at the module with the id: it has the exported function by its name, no
newer module has one of that name, and it starts. When the module exports none, no module has one, or
the newest of them fails to start.
-/
def Unshadowed (stage : HostStage) : Prop :=
  match stage.event with
  | .load _ => True
  | .call callback moduleId _ find _ =>
      ∀ info ∈ stage.before.modules, info.id = moduleId
        → (info.module.guest.Exports callback.text
            → ∃ target, stage.before.Newest callback.text target ∧ target.module = info.module
              ∧ stage.before.Starts find target)
          ∧ (¬info.module.guest.Exports callback.text
            → (∀ linked ∈ stage.before.linked,
                linked.module.guest.hasFunction callback.text = false)
              ∨ ∃ target, stage.before.Newest callback.text target
                ∧ stage.before.FailsToStart find target)

/-- Only an error from the interpreter leaves without a function and without the context. -/
theorem findFunction_no_context (host : Host) (callback : Callback) (find : GuestRun)
    (context : RpcContext)
    : .context context ∉ (host.findFunction callback find).2.1 := by
  have absent := runGuest_no_context find host.runtime context
  rw [findFunction]
  split
  · exact List.not_mem_nil
  · split
    · exact List.not_mem_nil
    · split <;> rename_i ran <;> rw [ran] at absent <;> exact absent

theorem found_mem_call {handle : Nat} {info : ModuleInfo} (known : host.findModule moduleId = some info)
    : .found handle ∈ (host.call json callback moduleId context find guest).2
      ↔ (host.findFunction callback find).2.2 = .ok (some handle) := by
  rw [call, known]
  rcases host.findFunction callback find with ⟨middle, outputs, what | - | own⟩
  · simp
  · simp
  · simp [eq_comm]

theorem Enters.append {outputs : List WasmOutput} (enters : Enters outputs) (others : List WasmOutput)
    : Enters (outputs ++ others) :=
  enters.imp (fun ⟨args, member⟩ => ⟨args, List.mem_append_left _ member⟩)
    fun ⟨what, member⟩ => ⟨what, List.mem_append_left _ member⟩

/-- Everything before the guest's call either succeeds or throws. -/
theorem invoke_enters (json : Json) (callback : Callback) (context : RpcContext) (guest : GuestRun)
    (runtime : WasmRuntime)
    : Enters (invoke json callback context guest runtime).2 := by
  have prepared : Enters (runtime.prepare json callback context).2 := by
    rw [prepare]
    split
    · exact .inr ⟨_, List.mem_singleton_self _⟩
    · dsimp only
      split
      · exact .inr ⟨_, List.mem_singleton_self _⟩
      · split
        · exact .inr ⟨_, List.mem_append_right _ (List.mem_singleton_self _)⟩
        · exact .inl ⟨_, List.mem_append_right _ (List.mem_cons_of_mem _ (List.mem_singleton_self _))⟩
  rw [invoke]
  dsimp only
  split
  · exact prepared.append _
  · exact prepared

theorem runs_call {handle : Nat} {info : ModuleInfo} (known : host.findModule moduleId = some info)
    : RunsFunctionOf handle (host.call json callback moduleId context find guest).2
      ↔ (host.findFunction callback find).2.2 = .ok (some handle) := by
  rw [← found_mem_call known]
  constructor
  · rintro ⟨before, others, split, -⟩
    rw [split]
    exact List.mem_append_right _ List.mem_cons_self
  · intro member
    have found := (found_mem_call known).mp member
    rw [call, known]
    rcases looked : host.findFunction callback find with ⟨middle, outputs, result⟩
    rw [looked] at found
    cases found
    exact ⟨_, _, rfl, invoke_enters json callback context guest middle.runtime⟩

theorem skips_call {info : ModuleInfo} (known : host.findModule moduleId = some info)
    : Skips context (host.call json callback moduleId context find guest).2
      ↔ (host.findFunction callback find).2.2 = .ok none := by
  have absent := findFunction_no_context host callback find context
  simp only [Skips, found_mem_call known]
  rw [call, known]
  rcases found : host.findFunction callback find with ⟨middle, outputs, what | - | own⟩
  · rw [found] at absent
    simp [absent]
  · simp
  · simp

theorem findModule_of_mem {info : ModuleInfo} (member : info ∈ host.modules)
    : ∃ known, host.findModule info.id = some known := by
  refine Option.isSome_iff_exists.mp (List.find?_isSome.mpr ⟨info, member, ?_⟩)
  exact decide_eq_true rfl

theorem call_routed_iff (paired : host.Paired) {event : HostEvent}
    (taken : step json host event = .ok (after, outputs))
    : Routed { before := host, event, outputs } ↔ Unshadowed { before := host, event, outputs } := by
  cases event with
  | load attempt => exact Iff.rfl
  | call callback moduleId context find guest =>
      obtain rfl := congrArg Prod.snd (Except.ok.inj taken)
      refine forall₃_congr fun info member same => ?_
      subst same
      obtain ⟨other, known⟩ := findModule_of_mem member
      have own : (host.findFunction callback find).2.2 = .ok (some info.module.handle)
          ↔ ∃ target, host.Newest callback.text target ∧ target.module = info.module
            ∧ host.Starts find target := by
        rw [findFunction_eq_some]
        refine exists_congr fun target => and_congr_right fun newest => and_congr_left fun _ => ?_
        obtain ⟨newer, older, split, -⟩ := newest
        have listed : target ∈ host.linked :=
          split ▸ List.mem_append_right _ List.mem_cons_self
        exact ⟨paired.module_eq member listed, congrArg M3Module.handle⟩
      rw [runs_call known, skips_call known, ← findFunction_eq_none, own]
      refine and_congr_right fun exported => ⟨Iff.mpr, fun missing => ⟨fun none_ exports => ?_, missing⟩⟩
      cases none_.symm.trans (own.mpr (exported exports))

/-- In every run, a call by a module's id runs that module's function exactly when the lookup comes out
at it.
-/
theorem routed_iff (run : Run (step json) (fun _ _ _ => True) {} history last)
    : ∀ stage ∈ history, (Routed stage ↔ Unshadowed stage) :=
  run.forall_stage (fun _ _ => run_paired) fun _ _ _ _ _ paired _ taken =>
    call_routed_iff paired taken

/-- A module with two pages of memory that exports a function. -/
def exporting (name : String) : GuestModule where
  functions := [{ namings := [.exported name] }]
  memoryInfo := some { initPages := 2, maxPages := 0 }

/-- Two modules that export `on_request`, and a call by the id of the first, in which the guest traps. -/
def secondModule : List HostEvent :=
  [
    .load { parsed := .ok (exporting "on_request") },
    .load { parsed := .ok (exporting "on_request") },
    .call .onRequest 1 {} {} { result := some "[trap] unreachable executed" }
  ]

/-- A call by the id of a module that exports the function, without that function. -/
def misroutes (stage : HostStage) : Bool :=
  match stage.event with
  | .load _ => false
  | .call callback moduleId _ _ _ =>
      stage.before.modules.any fun info =>
        info.id = moduleId && decide (info.module.guest.Exports callback.text)
          && !stage.outputs.any fun output =>
            match output with
            | .found handle => handle = info.module.handle
            | _ => false

theorem not_routed_of_misroutes {stage : HostStage} (elsewhere : misroutes stage = true)
    : ¬Routed stage := by
  intro routed
  rcases stage with ⟨before, attempt | ⟨callback, moduleId, context, find, guest⟩, outputs⟩
  · cases elsewhere
  · obtain ⟨info, member, bad⟩ := List.any_eq_true.mp elsewhere
    simp only [Bool.and_eq_true, decide_eq_true_eq] at bad
    obtain ⟨⟨same, exported⟩, missing⟩ := bad
    obtain ⟨before, others, split, -⟩ := (routed info member same).1 exported
    have shown : .found info.module.handle ∈ outputs :=
      (congrArg (_ ∈ ·) split).mpr (List.mem_append_right _ List.mem_cons_self)
    have some_ : (outputs.any fun output =>
        match output with
        | .found handle => handle = info.module.handle
        | _ => false) = true :=
      List.any_eq_true.mpr ⟨_, shown, decide_eq_true rfl⟩
    rw [some_] at missing
    cases missing

theorem secondModule_misroutes
    : ∃ history last, Run (step emptyJson) (fun _ _ _ => True) {} history last
      ∧ history.any misroutes = true :=
  Run.of_shows
    (show shows (step emptyJson) {} secondModule (fun history => history.any misroutes) = true by
      decide +kernel)

theorem routed_iff_secondModule
    : ∃ history last, Run (step emptyJson) (fun _ _ _ => True) {} history last
      ∧ history.any misroutes = true
      ∧ ∀ stage ∈ history, (Routed stage ↔ Unshadowed stage) := by
  obtain ⟨history, last, run, elsewhere⟩ := secondModule_misroutes
  exact ⟨history, last, run, elsewhere, routed_iff run⟩

/-- The call runs the function of the second module. -/
theorem second_module_answers
    : ∃ history last, Run (step emptyJson) (fun _ _ _ => True) {} history last
      ∧ ¬∀ stage ∈ history, Routed stage := by
  obtain ⟨history, last, run, elsewhere⟩ := secondModule_misroutes
  obtain ⟨stage, member, bad⟩ := List.any_eq_true.mp elsewhere
  exact ⟨history, last, run, fun routed => not_routed_of_misroutes bad (routed stage member)⟩

end Host

end Creek.Wasm
