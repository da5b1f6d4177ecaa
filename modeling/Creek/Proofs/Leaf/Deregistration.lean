import Creek.Proofs.Leaf.OwnEndpoints

/-! What a deregistration leaves behind. A registration that was asked to go and one whose backend has
fallen silent are the same dead record, which stays for the grace period of the sweep, so a late
heartbeat revives either. The directory numbers its records on its own, so a record that the leaf has
published may outrank the one that says the endpoint is down.
-/

namespace Creek.Leaf

open Tight (Bytes)
open Mesh
open Library

namespace LeafRuntime

/-- An endpoint is dead where it is registered and in the directory, if it is there. -/
structure Down (leaf : LeafRuntime) (endpointId : Bytes) : Prop where
  registration : ¬leaf.Live endpointId
  record : ∀ record, leaf.directory.find endpointId = some record → record.alive = false

/-- Whether a step accepts the deregistration of an id. -/
def Deregisters (endpointId : Bytes) (stage : Stage LeafRuntime LeafEvent LeafOutput) : Prop :=
  ∃ now, stage.event = .deregister endpointId now ∧ stage.outputs = [.deregisterReply true]

/-- Whether a step accepts a registration under an id. -/
def Registers (endpointId : Bytes) (stage : Stage LeafRuntime LeafEvent LeafOutput) : Prop :=
  ∃ index now clock endpoint, stage.event = .registerLocked index now clock
    ∧ stage.before.registering[index]? = some endpoint
    ∧ endpoint.endpointId = endpointId

/-- A deregistration of an id was accepted, and no registration of it since. -/
def Deregistered (history : History) (endpointId : Bytes) : Prop :=
  Since (Deregisters endpointId) (fun later => ¬Registers endpointId later) history

/-- An event that brings no endpoint of an id back: a heartbeat that finds no registration under it, and
a snapshot whose newest contender for it is dead or removed.
-/
def Silent (leaf : LeafRuntime) (endpointId : Bytes) : LeafEvent → Prop
  | .heartbeat heartbeatId _ _ => heartbeatId = endpointId → leaf.localEndpoints[endpointId]? = none
  | .directory received _ =>
      ∀ record, Foremost stamp (leaf.contenders received endpointId) record
        → Outlasts received endpointId record
        → record.alive = false
  | _ => True

/-- What was deregistered is down. -/
def StaysDown (history : History) (leaf : LeafRuntime) : Prop :=
  ∀ endpointId, Deregistered history endpointId → leaf.Down endpointId

variable {leaf after : LeafRuntime} {endpointId : Bytes} {now : UInt64} {clock : Int}

-- One step

/-- An endpoint is down as long as nothing changes under its id. -/
theorem Down.congr (down : leaf.Down endpointId)
    (registration : after.localEndpoints[endpointId]? = leaf.localEndpoints[endpointId]?)
    (record : after.directory.find endpointId = leaf.directory.find endpointId)
    : after.Down endpointId := by
  obtain ⟨notLive, dead⟩ := down
  refine ⟨?_, record ▸ dead⟩
  rintro ⟨entry, found, live⟩
  exact notLive ⟨entry, registration.symm.trans found, live⟩

/-- An endpoint that is stored goes down or comes up with what is stored. -/
theorem down_upsert_iff {entry : LocalEndpoint} (id : entry.endpoint.endpointId = endpointId)
    (named : endpointId ≠ [])
    (registrations : after.localEndpoints = leaf.localEndpoints.insert endpointId entry)
    (directory : after.directory = leaf.directory.upsertLocal entry.endpoint now)
    : after.Down endpointId ↔ entry.endpoint.alive = false := by
  subst id
  have stores := (EndpointDirectory.upsertLocal_lookup leaf.directory now
    entry.endpoint.endpointId entry.endpoint named).1
  rw [if_pos rfl, ← directory] at stores
  have registered : after.localEndpoints[entry.endpoint.endpointId]? = some entry := by
    rw [registrations, Std.TreeMap.getElem?_insert_self]
  constructor
  · intro down
    have dead := down.record _ stores
    exact dead
  · intro dead
    refine ⟨?_, ?_⟩
    · rintro ⟨other, found, live⟩
      obtain rfl := Option.some.inj (registered.symm.trans found)
      cases dead.symm.trans live
    · intro record found
      obtain rfl := Option.some.inj (stores.symm.trans found)
      exact dead

theorem Down.upsert_other {otherId : Bytes} (down : leaf.Down endpointId) (entry : LocalEndpoint)
    (id : entry.endpoint.endpointId = otherId) (named : otherId ≠ []) (other : otherId ≠ endpointId)
    (registrations : after.localEndpoints = leaf.localEndpoints.insert otherId entry)
    (directory : after.directory = leaf.directory
      ∨ after.directory = leaf.directory.upsertLocal entry.endpoint now)
    : after.Down endpointId := by
  refine down.congr ?_ ?_
  · rw [registrations, getElem?_insert_ne _ _ other]
  · rcases directory with same | stored
    · rw [same]
    · have stores := (EndpointDirectory.upsertLocal_lookup leaf.directory now endpointId
        entry.endpoint (id ▸ named)).1
      rw [if_neg (id ▸ other), ← stored] at stores
      exact stores

theorem Down.sweep {state : LeafRuntime × List Endpoint} (down : state.1.Down endpointId)
    (entry : Bytes × LocalEndpoint)
    : (LeafRuntime.sweep now clock state entry).1.Down endpointId := by
  obtain ⟨notLive, dead⟩ := down
  unfold LeafRuntime.sweep
  split
  · refine ⟨?_, ?_⟩
    · rintro ⟨other, found, live⟩
      rw [Std.TreeMap.getElem?_erase] at found
      split at found
      · cases found
      · exact notLive ⟨other, found, live⟩
    · intro record found
      rw [removeLocal_find] at found
      split at found
      · cases found
      · exact dead record found
  · split
    · refine ⟨?_, dead⟩
      rintro ⟨other, found, live⟩
      by_cases own : entry.1 = endpointId
      · subst own
        rw [Std.TreeMap.getElem?_insert_self] at found
        obtain rfl := Option.some.inj found
        cases live
      · rw [getElem?_insert_ne _ _ own] at found
        exact notLive ⟨other, found, live⟩
    · exact ⟨notLive, dead⟩

theorem Down.foldl_sweep {state : LeafRuntime × List Endpoint} (down : state.1.Down endpointId)
    (entries : List (Bytes × LocalEndpoint))
    : (entries.foldl (LeafRuntime.sweep now clock) state).1.Down endpointId := by
  induction entries generalizing state with
  | nil => exact down
  | cons entry rest ih => exact ih (down.sweep entry)

/-- The heartbeat task only marks endpoints dead and drops them. -/
theorem Down.doHeartbeatWork (down : leaf.Down endpointId) (registered : leaf.Registered)
    : (leaf.doHeartbeatWork now clock).Down endpointId := by
  have swept := @Registered.swept leaf now clock registered
  obtain ⟨notLive, dead⟩ := @foldl_sweep endpointId now clock (leaf, []) down
    leaf.localEndpoints.toList
  refine ⟨notLive, ?_⟩
  refine foldl_upsert_dead (fun endpoint member => ?_) (.inr dead)
  obtain ⟨named, isDead, -⟩ := swept.dead endpoint member
  exact ⟨named, isDead⟩

theorem Registered.deregister_down (registered : leaf.Registered)
    (accepted : (leaf.handleDeregister endpointId now).2 = [.deregisterReply true])
    : (leaf.handleDeregister endpointId now).1.Down endpointId := by
  unfold handleDeregister at accepted ⊢
  split at accepted
  · cases accepted
  · rename_i entry found
    obtain ⟨id, named, -⟩ := registered.keyed endpointId entry found
    exact (@down_upsert_iff leaf _ endpointId now
      { entry with endpoint := leaf.restamp false now entry.endpoint } id named rfl rfl).mpr rfl

/-- What is down stays down in a step exactly when the step is silent about it, unless it registers the
endpoint anew.
-/
theorem Down.step_iff {event : LeafEvent} {outputs : List LeafOutput} (down : leaf.Down endpointId)
    (registered : leaf.Registered) (named : endpointId ≠ [])
    (anew : ¬Registers endpointId { before := leaf, event, outputs })
    (taken : leaf.step event = .ok (after, outputs))
    : after.Down endpointId ↔ leaf.Silent endpointId event := by
  cases event with
  | register request now =>
      obtain rfl : after = (leaf.prepareRegister request now).1 :=
        (congrArg Prod.fst (Except.ok.inj taken)).symm
      refine iff_of_true ?_ trivial
      unfold prepareRegister
      split
      · exact down
      · split
        · exact down
        · exact down.congr rfl rfl
  | registerLocked index now clock =>
      rw [LeafRuntime.step] at taken
      split at taken
      · rename_i endpoint waits
        cases taken
        obtain ⟨someId, -, -⟩ := registered.waiting endpoint (List.mem_of_getElem? waits)
        have other : endpoint.endpointId ≠ endpointId :=
          fun same => anew ⟨index, now, clock, endpoint, rfl, waits, same⟩
        refine iff_of_true ?_ trivial
        exact down.upsert_other { endpoint := endpoint, lastHeartbeat := clock } rfl someId other rfl
          (.inr rfl)
      · cases taken
  | heartbeat heartbeatId now clock =>
      obtain rfl : after = (leaf.handleHeartbeat heartbeatId now clock).1 :=
        (congrArg Prod.fst (Except.ok.inj taken)).symm
      rw [handleHeartbeat, Silent]
      split
      · rename_i missing
        exact iff_of_true down fun same => same ▸ missing
      · rename_i entry found
        obtain ⟨id, someId, -⟩ := registered.keyed heartbeatId entry found
        by_cases own : heartbeatId = endpointId
        · -- the registration is there, and dead: the heartbeat revives it
          subst own
          have dead : ¬entry.endpoint.alive = true :=
            fun live => down.registration ⟨entry, found, live⟩
          rw [if_neg dead]
          refine iff_of_false ?_ ?_
          · rw [@down_upsert_iff leaf _ heartbeatId now
              { endpoint := leaf.restamp true now entry.endpoint, lastHeartbeat := clock } id someId
              rfl rfl]
            exact Bool.noConfusion
          · intro missing
            cases found.symm.trans (missing rfl)
        · refine iff_of_true ?_ fun same => absurd same own
          split
          · exact @Down.upsert_other leaf _ endpointId now _ down
              { entry with lastHeartbeat := clock } id someId own rfl (.inl rfl)
          · exact down.upsert_other
              { endpoint := leaf.restamp true now entry.endpoint, lastHeartbeat := clock } id someId
              own rfl (.inr rfl)
  | deregister deregisterId now =>
      obtain rfl : after = (leaf.handleDeregister deregisterId now).1 :=
        (congrArg Prod.fst (Except.ok.inj taken)).symm
      refine iff_of_true ?_ trivial
      rw [handleDeregister]
      split
      · exact down
      · rename_i entry found
        obtain ⟨id, someId, -⟩ := registered.keyed deregisterId entry found
        by_cases own : deregisterId = endpointId
        · subst own
          exact (@down_upsert_iff leaf _ deregisterId now
            { entry with endpoint := leaf.restamp false now entry.endpoint } id someId rfl rfl).mpr rfl
        · exact down.upsert_other
            { entry with endpoint := leaf.restamp false now entry.endpoint } id someId own rfl
            (.inr rfl)
  | heartbeatWork now clock =>
      cases taken
      exact iff_of_true (down.doHeartbeatWork registered) trivial
  | directory received now =>
      cases taken
      constructor
      · intro still record foremost outlasts
        exact still.record record ((find_handleDirectory named received record).mpr
          ⟨foremost, outlasts⟩)
      · intro silent
        refine ⟨down.registration, fun record found => ?_⟩
        obtain ⟨foremost, outlasts⟩ := (find_handleDirectory named received record).mp found
        exact silent record foremost outlasts
  | sendSnapshot now =>
      cases taken
      exact iff_of_true (down.congr rfl rfl) trivial
  | query now =>
      cases taken
      exact iff_of_true (down.congr rfl rfl) trivial
  | parent activeParent =>
      cases taken
      exact iff_of_true (down.congr rfl rfl) trivial

-- Runs

/-- An accepted deregistration finds the endpoint registered. -/
theorem Registered.deregisters {event : LeafEvent} {outputs : List LeafOutput}
    (registered : leaf.Registered) (taken : leaf.step event = .ok (after, outputs))
    (deregisters : Deregisters endpointId { before := leaf, event, outputs })
    : after.Down endpointId ∧ endpointId ≠ [] ∧ leaf.Silent endpointId event := by
  obtain ⟨now, rfl, rfl⟩ := deregisters
  obtain ⟨rfl, accepted⟩ := Prod.ext_iff.mp (Except.ok.inj taken)
  refine ⟨registered.deregister_down accepted, ?_, trivial⟩
  rcases found : leaf.localEndpoints[endpointId]? with _ | entry
  · rw [handleDeregister, found] at accepted
    cases accepted
  · exact (registered.keyed endpointId entry found).2.1

theorem Deregistered.named {config : LeafConfig} {history : History} {last : LeafRuntime}
    (deregistered : Deregistered history endpointId)
    (run : Run LeafRuntime.step (fun _ _ _ => True) (create config now) history last)
    : endpointId ≠ [] := by
  obtain ⟨front, stage, back, split, deregisters, -⟩ := deregistered
  obtain ⟨earlier, -, after, taken⟩ := run.at_stage split
  exact ((run_registered earlier).deregisters taken deregisters).2.1

/-- In every run what was deregistered is down in every state until it is registered anew exactly when
every step since the deregistration is silent about it.
-/
theorem stays_down_iff_silent {config : LeafConfig} {history : History} {last : LeafRuntime}
    (run : Run LeafRuntime.step (fun _ _ _ => True) (create config now) history last)
    : Throughout StaysDown history last
      ↔ ∀ front stage back, history = front ++ stage :: back
        → ∀ endpointId, Deregistered front endpointId
        → stage.before.Silent endpointId stage.event := by
  refine run.throughout_iff_split ?_ ?_
  · exact fun endpointId deregistered => absurd deregistered not_since_nil
  · intro history leaf event after outputs earlier down _ taken
    have registered := run_registered earlier
    refine forall_congr' fun endpointId => ?_
    unfold Deregistered
    rw [since_append]
    by_cases deregisters : Deregisters endpointId { before := leaf, event, outputs }
    · obtain ⟨isDown, -, silent⟩ := registered.deregisters taken deregisters
      exact iff_of_true (fun _ => isDown) fun _ => silent
    · by_cases anew : Registers endpointId { before := leaf, event, outputs }
      · refine iff_of_true ?_ ?_
        · rintro (now | ⟨-, unregistered⟩)
          · exact absurd now deregisters
          · exact absurd anew unregistered
        · obtain ⟨index, now, clock, endpoint, rfl, -⟩ := anew
          exact fun _ => trivial
      · constructor
        · intro still deregistered
          have named := Deregistered.named deregistered earlier
          exact ((down endpointId deregistered).step_iff registered named anew taken).mp
            (still (.inr ⟨deregistered, anew⟩))
        · rintro silent (now | ⟨deregistered, -⟩)
          · exact absurd now deregisters
          · have named := Deregistered.named deregistered earlier
            exact ((down endpointId deregistered).step_iff registered named anew taken).mpr
              (silent deregistered)

/-- A registration, a deregistration, a sweep, and the leaf's own record once more. -/
def withdrawn : List LeafEvent :=
  [
    .register (some { endpointId := [1], service := [2], target := [3] }) 1001,
    .registerLocked 0 1002 0,
    .deregister [1] 1003,
    .heartbeatWork 1004 5000000000,
    .directory { endpoints := [{ endpointId := [1], version := 1001, alive := true }] } 1005
  ]

theorem stays_down_iff_silent_withdrawn
    : ∃ history last, Run LeafRuntime.step (fun _ _ _ => True) (create { id := [9] } 1000) history last
      ∧ history.length = 5
      ∧ (Throughout StaysDown history last
        ↔ ∀ front stage back, history = front ++ stage :: back
          → ∀ endpointId, Deregistered front endpointId
          → stage.before.Silent endpointId stage.event) := by
  have shown : shows LeafRuntime.step (create { id := [9] } 1000) withdrawn (fun history =>
      history.length = 5) = true := by
    decide +kernel
  obtain ⟨history, last, run, length⟩ := Run.of_shows shown
  exact ⟨history, last, run, of_decide_eq_true length, stays_down_iff_silent run⟩

/-- The run of `heartbeat_after_deregister`: an endpoint is deregistered, sends a heartbeat, and is sent as
alive.
-/
def sendsWithdrawn (history : History) : Bool :=
  match history with
  | [_, _, deregistered, beat, sent] =>
      deregistered.event = .deregister [1] 1003
      && deregistered.outputs = [.deregisterReply true]
      && beat.event = .heartbeat [1] 1004 1000000
      && (sent.before.localEndpoints[([1] : Bytes)]?).any fun entry => entry.endpoint.alive
  | _ => false

/-- A heartbeat that arrives after the deregistration brings the endpoint back. -/
theorem heartbeat_after_deregister
    : ¬ ∀ config now history last,
        Run LeafRuntime.step (fun _ _ _ => True) (create config now) history last
        → Throughout StaysDown history last := by
  intro always
  have shown : shows LeafRuntime.step (create { id := [9] } 1000)
      [
        .register (some { endpointId := [1], service := [2], target := [3] }) 1001,
        .registerLocked 0 1002 0,
        .deregister [1] 1003,
        .heartbeat [1] 1004 1000000,
        .sendSnapshot 1005
      ]
      sendsWithdrawn = true := by
    decide +kernel
  obtain ⟨history, last, run, found⟩ := Run.of_shows shown
  unfold sendsWithdrawn at found
  split at found
  · rename_i registered stored deregistered beat sent
    simp only [Bool.and_eq_true, decide_eq_true_eq, Option.any_eq_true] at found
    obtain ⟨⟨⟨asked, accepted⟩, beats⟩, entry, held, live⟩ := found
    have withdrawn : Deregistered [registered, stored, deregistered, beat] [1] := by
      refine ⟨[registered, stored], deregistered, [beat], rfl, ⟨1003, asked, accepted⟩, ?_⟩
      rintro later member ⟨index, now, clock, endpoint, stores, -⟩
      obtain rfl := List.mem_singleton.mp member
      cases beats.symm.trans stores
    have down := (always _ _ _ last run).1 _ sent [] rfl [1] withdrawn
    exact down.registration ⟨entry, held, live⟩
  · cases found

end LeafRuntime

end Creek.Leaf
