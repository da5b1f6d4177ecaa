import Creek.Leaf.LocalEndpoints
import Creek.Library.Lookups
import Creek.Library.Runs
import Creek.Proofs.Mesh.NodeDirectory
import Creek.Proofs.Mesh.Replication

/-! The endpoints of a leaf and the directory it routes by.
Whatever the leaf does itself keeps the two together. What comes from its parents is merged by
versions alone, also for records of the leaf, and keeps them together exactly when the record that
prevails for each id says what the leaf has registered.
-/

namespace Creek.Leaf

open Tight (Bytes)
open Mesh
open Library

/-- A record routes to a registered endpoint of a leaf. -/
structure LocalEndpoint.Served (entry : LocalEndpoint) (leafId : Bytes) (record : Endpoint) : Prop where
  service : record.service = entry.endpoint.service
  target : record.target = entry.endpoint.target
  ownerLeaf : record.ownerLeaf = leafId
  alive : record.alive = true

namespace LeafRuntime

/-- Whether an id is registered and alive. -/
def Live (leaf : LeafRuntime) (endpointId : Bytes) : Prop :=
  ∃ entry, leaf.localEndpoints[endpointId]? = some entry ∧ entry.endpoint.alive = true

/-- The registration of an id and its record in the directory agree. -/
structure RoutableAt (leaf : LeafRuntime) (endpointId : Bytes) : Prop where
  listed : ∀ entry, leaf.localEndpoints[endpointId]? = some entry → entry.endpoint.alive = true
    → ∃ record, leaf.directory.find endpointId = some record ∧ entry.Served leaf.config.id record
  owned : ∀ record, leaf.directory.find endpointId = some record
    → record.ownerLeaf = leaf.config.id
    → record.alive = true
    → leaf.Live endpointId

/-- The leaf routes to its own endpoints and to no others as its own. -/
def Routable (leaf : LeafRuntime) : Prop :=
  ∀ endpointId, leaf.RoutableAt endpointId

/-- The records that contend for an id when a snapshot is merged: the one that is held, and those of
the snapshot that no tombstone keeps out.
-/
def contenders (leaf : LeafRuntime) (received : DirectorySnapshot) (endpointId : Bytes)
    : List Endpoint :=
  (leaf.directory.find endpointId).toList
  ++ received.endpoints.filter fun endpoint =>
    endpoint.endpointId = endpointId
    && !(leaf.directory.tombstones[endpointId]?).any fun tombstone =>
      endpoint.version ≤ tombstone.version

/-- Whether the removals of a snapshot leave a record in place. -/
def Outlasts (received : DirectorySnapshot) (endpointId : Bytes) (record : Endpoint) : Prop :=
  ∀ removed ∈ received.removedEndpoints, removed.endpointId = endpointId
    → removed.version < record.version

/-- A snapshot says of the leaf's endpoints what the leaf has registered: for a live one the newest
contender serves it and is not removed, and for any other id it is removed or not a live one of
the leaf.
-/
structure Spares (leaf : LeafRuntime) (received : DirectorySnapshot) : Prop where
  live : ∀ endpointId entry record, leaf.localEndpoints[endpointId]? = some entry
    → entry.endpoint.alive = true
    → Foremost stamp (leaf.contenders received endpointId) record
    → Outlasts received endpointId record ∧ entry.Served leaf.config.id record
  other : ∀ endpointId record, endpointId ≠ []
    → ¬leaf.Live endpointId
    → Foremost stamp (leaf.contenders received endpointId) record
    → record.ownerLeaf = leaf.config.id
    → record.alive = true
    → ¬Outlasts received endpointId record

end LeafRuntime

/-- Whether the snapshot that a step merges, if any, spares the leaf's endpoints. -/
def LeafEvent.Harmless (leaf : LeafRuntime) (event : LeafEvent) : Prop :=
  ∀ received now, event = .directory received now → leaf.Spares received

namespace LeafRuntime

variable {leaf : LeafRuntime} {endpointId : Bytes} {now : UInt64} {clock : Int}

-- Merging a snapshot

/-- What a snapshot leaves under an id: the newest contender, unless it is removed. -/
theorem find_handleDirectory (named : endpointId ≠ []) (received : DirectorySnapshot)
    (record : Endpoint)
    : (leaf.handleDirectory received now).directory.find endpointId = some record
      ↔ Foremost stamp (leaf.contenders received endpointId) record
        ∧ Outlasts received endpointId record := by
  have admits : ∀ endpoint : Endpoint,
      (leaf.directory.register endpointId).admits stamp stampVersion endpoint
      ↔ ¬(leaf.directory.tombstones[endpointId]?).any (fun tombstone =>
        endpoint.version ≤ tombstone.version) = true := by
    intro endpoint
    rcases known : leaf.directory.tombstones[endpointId]? with _ | tombstone
    · simp [Register.admits, EndpointDirectory.register, known]
    · simp [Register.admits, EndpointDirectory.register, known, stamp, stampVersion,
        UInt64.le_iff_toNat_le]
  have admitted : ((received.endpoints.filter fun endpoint => endpoint.endpointId = endpointId).filter
        fun endpoint => (leaf.directory.register endpointId).admits stamp stampVersion endpoint) =
      received.endpoints.filter fun endpoint =>
        endpoint.endpointId = endpointId
        && !(leaf.directory.tombstones[endpointId]?).any fun tombstone =>
          endpoint.version ≤ tombstone.version := by
    rw [List.filter_filter]
    refine List.filter_congr fun endpoint _ => ?_
    simp only [admits, Bool.and_comm, Bool.not_eq_true]
    grind
  have updates : updatesOf endpointId received.messages =
      ((received.endpoints.filter fun endpoint => endpoint.endpointId = endpointId).map Update.put)
      ++ ((received.removedEndpoints.filter fun shell => shell.endpointId = endpointId).map
        fun shell => shell.version.toNat).map Update.remove := by
    rw [DirectorySnapshot.messages, updatesOf_append, updatesOf_removals,
      updatesOf_map _ Endpoint.endpointId _ _ fun _ _ => rfl]
    rfl
  have outlasts : Outlasts received endpointId record
      ↔ ∀ removed ∈ (received.removedEndpoints.filter fun shell =>
        shell.endpointId = endpointId).map fun shell => shell.version.toNat,
        removed < stampVersion (stamp record) := by
    rw [List.forall_mem_map]
    simp only [Outlasts, List.mem_filter, decide_eq_true_eq, and_imp, UInt64.lt_iff_toNat_lt]
    exact Iff.rfl
  rw [EndpointDirectory.find, handleDirectory, EndpointDirectory.mergeSnapshot_lookup named, updates,
    List.foldl_append, Register.foldl_remove_held, Option.filter_eq_some_iff,
    Register.foldl_put_held, admitted, decide_eq_true_eq, ← outlasts]
  rfl

-- What the leaf does itself

/-- What the handlers keep: endpoints are registered under their ids and for this leaf, and so are those
that wait.
-/
structure Registered (leaf : LeafRuntime) : Prop where
  keyed : ∀ endpointId (entry : LocalEndpoint), leaf.localEndpoints[endpointId]? = some entry
    → entry.endpoint.endpointId = endpointId ∧ endpointId ≠ []
      ∧ entry.endpoint.ownerLeaf = leaf.config.id
  waiting : ∀ endpoint ∈ leaf.registering, endpoint.endpointId ≠ []
    ∧ endpoint.ownerLeaf = leaf.config.id
    ∧ endpoint.alive = true
  unnamed : leaf.directory.find [] = none

/-- What agrees for an id keeps agreeing as long as neither side changes there. -/
theorem RoutableAt.congr {after : LeafRuntime} (routable : leaf.RoutableAt endpointId)
    (config : after.config = leaf.config)
    (registration : after.localEndpoints[endpointId]? = leaf.localEndpoints[endpointId]?)
    (record : after.directory.find endpointId = leaf.directory.find endpointId)
    : after.RoutableAt endpointId := by
  obtain ⟨listed, owned⟩ := routable
  refine ⟨?_, ?_⟩
  · rw [registration, record, config]
    exact listed
  · unfold Live
    rw [registration, record, config]
    exact owned

/-- What is registered and stored in the directory agrees, alive or dead. -/
theorem RoutableAt.stored {entry : LocalEndpoint} {record : Endpoint}
    (registration : leaf.localEndpoints[endpointId]? = some entry)
    (found : leaf.directory.find endpointId = some record)
    (service : record.service = entry.endpoint.service)
    (target : record.target = entry.endpoint.target) (owner : record.ownerLeaf = leaf.config.id)
    (alive : record.alive = entry.endpoint.alive)
    : leaf.RoutableAt endpointId := by
  refine ⟨?_, ?_⟩
  · intro other same live
    obtain rfl := Option.some.inj (registration.symm.trans same)
    exact ⟨record, found, service, target, owner, alive.trans live⟩
  · intro other same _ live
    obtain rfl := Option.some.inj (found.symm.trans same)
    exact ⟨entry, registration, alive.symm.trans live⟩

theorem RoutableAt.absent (registration : leaf.localEndpoints[endpointId]? = none)
    (gone : leaf.directory.find endpointId = none)
    : leaf.RoutableAt endpointId := by
  refine ⟨?_, ?_⟩
  · intro entry same
    rw [registration] at same
    cases same
  · intro record same
    rw [gone] at same
    cases same

/-- Storing an endpoint in the directory and under its id, whatever was there. -/
theorem Routable.upsert {after : LeafRuntime} {entry : LocalEndpoint} (routable : leaf.Routable)
    (named : entry.endpoint.endpointId ≠ []) (owner : entry.endpoint.ownerLeaf = leaf.config.id)
    (config : after.config = leaf.config)
    (registrations : after.localEndpoints =
      leaf.localEndpoints.insert entry.endpoint.endpointId entry)
    (directory : after.directory = leaf.directory.upsertLocal entry.endpoint now)
    : after.Routable := by
  intro endpointId
  have stores := (EndpointDirectory.upsertLocal_lookup leaf.directory now endpointId entry.endpoint
    named).1
  by_cases own : entry.endpoint.endpointId = endpointId
  · subst own
    rw [if_pos rfl, ← directory] at stores
    refine .stored ?_ stores rfl rfl (owner.trans (congrArg LeafConfig.id config.symm)) rfl
    rw [registrations, Std.TreeMap.getElem?_insert_self]
  · rw [if_neg own, ← directory] at stores
    refine (routable endpointId).congr config ?_ stores
    rw [registrations, Std.TreeMap.getElem?_insert, if_neg]
    exact fun same => own (Std.LawfulEqCmp.eq_of_compare same)

/-- A sweep over endpoints keeps all but the dead ones in agreement, which it lists. -/
structure Swept (start : LeafRuntime) (state : LeafRuntime × List Endpoint) : Prop where
  config : state.1.config = start.config
  waiting : state.1.registering = start.registering
  keyed : ∀ endpointId (entry : LocalEndpoint), state.1.localEndpoints[endpointId]? = some entry
    → entry.endpoint.endpointId = endpointId ∧ endpointId ≠ []
      ∧ entry.endpoint.ownerLeaf = start.config.id
  unnamed : state.1.directory.find [] = none
  dead : ∀ endpoint ∈ state.2, endpoint.endpointId ≠ [] ∧ endpoint.alive = false
    ∧ ¬state.1.Live endpoint.endpointId
  others : start.Routable → ∀ endpointId, (∃ endpoint ∈ state.2, endpoint.endpointId = endpointId)
    ∨ state.1.RoutableAt endpointId

/-- A removal leaves nothing under its id and what there is under the others. -/
theorem removeLocal_find (directory : EndpointDirectory) (removedId : Bytes)
    : (directory.removeLocal removedId now).1.find endpointId =
      if removedId = endpointId then none else directory.find endpointId := by
  rcases present : directory.endpoints[removedId]? with _ | existing
  · simp only [EndpointDirectory.removeLocal, present]
    by_cases own : removedId = endpointId
    · rw [if_pos own, ← own]
      exact present
    · rw [if_neg own]
  · exact (EndpointDirectory.removeLocal_lookup now endpointId present).1

theorem Swept.sweep {start : LeafRuntime} {state : LeafRuntime × List Endpoint}
    (swept : Swept start state) {entry : Bytes × LocalEndpoint}
    (id : entry.2.endpoint.endpointId = entry.1) (named : entry.1 ≠ [])
    (owner : entry.2.endpoint.ownerLeaf = start.config.id)
    : Swept start (LeafRuntime.sweep now clock state entry) := by
  obtain ⟨config, waiting, keyed, unnamed, dead, others⟩ := swept
  unfold LeafRuntime.sweep
  split
  · refine ⟨config, waiting, ?_, ?_, ?_, ?_⟩
    · intro endpointId other found
      rw [Std.TreeMap.getElem?_erase] at found
      split at found
      · cases found
      · exact keyed endpointId other found
    · rw [removeLocal_find, if_neg named]
      exact unnamed
    · intro endpoint listed
      obtain ⟨someId, isDead, notLive⟩ := dead endpoint listed
      refine ⟨someId, isDead, ?_⟩
      rintro ⟨other, found, live⟩
      rw [Std.TreeMap.getElem?_erase] at found
      split at found
      · cases found
      · exact notLive ⟨other, found, live⟩
    · intro routable endpointId
      by_cases own : entry.1 = endpointId
      · subst own
        refine .inr (.absent ?_ ?_)
        · exact Std.TreeMap.getElem?_erase_self
        · rw [removeLocal_find, if_pos rfl]
      · refine (others routable endpointId).imp_right fun still => still.congr rfl ?_ ?_
        · exact getElem?_erase_ne _ own
        · rw [removeLocal_find, if_neg own]
  · split
    · refine ⟨config, waiting, ?_, unnamed, ?_, ?_⟩
      · intro endpointId other found
        by_cases own : entry.1 = endpointId
        · subst own
          rw [Std.TreeMap.getElem?_insert_self] at found
          obtain rfl := Option.some.inj found
          exact ⟨id, named, owner⟩
        · rw [getElem?_insert_ne _ _ own] at found
          exact keyed endpointId other found
      · intro endpoint listed
        have notLive : ∀ endpointId, entry.1 = endpointId ∨ ¬state.1.Live endpointId
            → ¬ ∃ other, (state.1.localEndpoints.insert entry.1
              { entry.2 with endpoint := state.1.restamp false now entry.2.endpoint })[endpointId]? =
                some other ∧ other.endpoint.alive = true := by
          rintro endpointId still ⟨other, found, live⟩
          by_cases own : entry.1 = endpointId
          · subst own
            rw [Std.TreeMap.getElem?_insert_self] at found
            obtain rfl := Option.some.inj found
            cases live
          · rw [getElem?_insert_ne _ _ own] at found
            exact (still.resolve_left own) ⟨other, found, live⟩
        rcases List.mem_append.mp listed with earlier | last
        · obtain ⟨someId, isDead, wasNotLive⟩ := dead endpoint earlier
          exact ⟨someId, isDead, notLive _ (.inr wasNotLive)⟩
        · obtain rfl := List.mem_singleton.mp last
          exact ⟨id.symm ▸ named, rfl, notLive _ (.inl id.symm)⟩
      · intro routable endpointId
        by_cases own : entry.1 = endpointId
        · exact .inl ⟨_, List.mem_append_right _ List.mem_cons_self, id.trans own⟩
        · rcases others routable endpointId with ⟨endpoint, listed, same⟩ | still
          · exact .inl ⟨endpoint, List.mem_append_left _ listed, same⟩
          · exact .inr (still.congr rfl (getElem?_insert_ne _ _ own) rfl)
    · exact ⟨config, waiting, keyed, unnamed, dead, others⟩

/-- Once there are only dead records under an id, storing dead ones leaves it so. -/
theorem foldl_upsert_dead {dead : List Endpoint} {directory : EndpointDirectory}
    (each : ∀ endpoint ∈ dead, endpoint.endpointId ≠ [] ∧ endpoint.alive = false)
    (reached : (∃ endpoint ∈ dead, endpoint.endpointId = endpointId)
      ∨ ∀ record, directory.find endpointId = some record → record.alive = false)
    : ∀ record, (dead.foldl (fun directory endpoint => directory.upsertLocal endpoint now)
        directory).find endpointId = some record
      → record.alive = false := by
  induction dead generalizing directory with
  | nil =>
      refine reached.resolve_left ?_
      rintro ⟨endpoint, member, -⟩
      exact absurd member List.not_mem_nil
  | cons first rest ih =>
      obtain ⟨named, isDead⟩ := each first List.mem_cons_self
      refine ih (fun endpoint member => each endpoint (List.mem_cons_of_mem _ member)) ?_
      have stores := (EndpointDirectory.upsertLocal_lookup directory now endpointId first named).1
      by_cases own : first.endpointId = endpointId
      · refine .inr fun record found => ?_
        rw [if_pos own] at stores
        obtain rfl := Option.some.inj (stores.symm.trans found)
        exact isDead
      · rw [if_neg own] at stores
        refine reached.imp ?_ fun all record found => all record (stores.symm.trans found)
        rintro ⟨endpoint, member, same⟩
        rcases List.mem_cons.mp member with rfl | later
        · exact absurd same own
        · exact ⟨endpoint, later, same⟩

theorem foldl_upsert_other {endpoints : List Endpoint} {directory : EndpointDirectory}
    (named : ∀ endpoint ∈ endpoints, endpoint.endpointId ≠ [])
    (others : ∀ endpoint ∈ endpoints, endpoint.endpointId ≠ endpointId)
    : (endpoints.foldl (fun directory endpoint => directory.upsertLocal endpoint now)
        directory).find endpointId = directory.find endpointId := by
  induction endpoints generalizing directory with
  | nil => rfl
  | cons first rest ih =>
      have stores := (EndpointDirectory.upsertLocal_lookup directory now endpointId first
        (named first List.mem_cons_self)).1
      rw [if_neg (others first List.mem_cons_self)] at stores
      exact (ih (fun endpoint member => named endpoint (List.mem_cons_of_mem _ member))
        (fun endpoint member => others endpoint (List.mem_cons_of_mem _ member))).trans stores

theorem Swept.foldl {start : LeafRuntime} {state : LeafRuntime × List Endpoint}
    {entries : List (Bytes × LocalEndpoint)} (swept : Swept start state)
    (each : ∀ entry ∈ entries, entry.2.endpoint.endpointId = entry.1 ∧ entry.1 ≠ []
      ∧ entry.2.endpoint.ownerLeaf = start.config.id)
    : Swept start (entries.foldl (LeafRuntime.sweep now clock) state) := by
  induction entries generalizing state with
  | nil => exact swept
  | cons entry rest ih =>
      obtain ⟨id, named, owner⟩ := each entry List.mem_cons_self
      exact ih (swept.sweep id named owner)
        fun other member => each other (List.mem_cons_of_mem _ member)

theorem Registered.swept (registered : leaf.Registered)
    : Swept leaf (leaf.localEndpoints.toList.foldl (LeafRuntime.sweep now clock) (leaf, [])) := by
  refine Swept.foldl ?_ ?_
  · exact {
      config := rfl
      waiting := rfl
      keyed := registered.keyed
      unnamed := registered.unnamed
      dead := fun endpoint listed => absurd listed List.not_mem_nil
      others := fun routable endpointId => .inr (routable endpointId)
    }
  · intro entry member
    exact registered.keyed entry.1 entry.2 (Std.TreeMap.mem_toList_iff_getElem?_eq_some.mp member)

theorem Registered.doHeartbeatWork (registered : leaf.Registered)
    : (leaf.doHeartbeatWork now clock).Registered := by
  obtain ⟨config, waiting, keyed, unnamed, dead, -⟩ := @Registered.swept leaf now clock registered
  refine ⟨?_, ?_, ?_⟩
  · intro endpointId entry found
    obtain ⟨id, named, owner⟩ := keyed endpointId entry found
    exact ⟨id, named, owner.trans (congrArg LeafConfig.id config.symm)⟩
  · intro endpoint member
    rw [LeafRuntime.doHeartbeatWork] at member ⊢
    dsimp only at member ⊢
    rw [waiting] at member
    rw [config]
    exact registered.waiting endpoint member
  · refine (foldl_upsert_other (fun endpoint member => (dead endpoint member).1) ?_).trans unnamed
    exact fun endpoint member => (dead endpoint member).1

/-- The heartbeat task keeps the leaf's endpoints routable: what it marks dead, it stores as dead. -/
theorem Routable.doHeartbeatWork (routable : leaf.Routable) (registered : leaf.Registered)
    : (leaf.doHeartbeatWork now clock).Routable := by
  obtain ⟨config, -, -, -, dead, others⟩ := @Registered.swept leaf now clock registered
  intro endpointId
  by_cases marked : ∃ endpoint ∈ (leaf.localEndpoints.toList.foldl (LeafRuntime.sweep now clock)
      (leaf, [])).2, endpoint.endpointId = endpointId
  · have allDead := @foldl_upsert_dead endpointId now _ (leaf.localEndpoints.toList.foldl
      (LeafRuntime.sweep now clock) (leaf, [])).1.directory
      (fun endpoint member => ⟨(dead endpoint member).1, (dead endpoint member).2.1⟩) (.inl marked)
    obtain ⟨endpoint, member, rfl⟩ := marked
    refine ⟨?_, ?_⟩
    · intro entry found live
      exact absurd ⟨entry, found, live⟩ (dead endpoint member).2.2
    · intro record found _ live
      rw [allDead record found] at live
      cases live
  · have still := (others routable endpointId).resolve_left marked
    refine still.congr rfl rfl (foldl_upsert_other (fun endpoint member => (dead endpoint member).1) ?_)
    exact fun endpoint member same => marked ⟨endpoint, member, same⟩

theorem Registered.storeRegistered (registered : leaf.Registered) {endpoint : Endpoint}
    (named : endpoint.endpointId ≠ []) (owner : endpoint.ownerLeaf = leaf.config.id)
    : (leaf.storeRegistered endpoint now clock).1.Registered := by
  refine ⟨?_, registered.waiting, ?_⟩
  · intro endpointId entry found
    by_cases own : endpoint.endpointId = endpointId
    · subst own
      rw [LeafRuntime.storeRegistered, Std.TreeMap.getElem?_insert_self] at found
      obtain rfl := Option.some.inj found
      exact ⟨rfl, named, owner⟩
    · rw [LeafRuntime.storeRegistered, getElem?_insert_ne _ _ own] at found
      exact registered.keyed endpointId entry found
  · have stores := (EndpointDirectory.upsertLocal_lookup leaf.directory now [] endpoint named).1
    rw [if_neg named] at stores
    exact stores.trans registered.unnamed

/-- Replacing a registration under its id, with the directory kept or given the same record. -/
theorem Registered.replace {after : LeafRuntime} {entry other : LocalEndpoint}
    (registered : leaf.Registered) (found : leaf.localEndpoints[endpointId]? = some entry)
    (id : other.endpoint.endpointId = entry.endpoint.endpointId)
    (owner : other.endpoint.ownerLeaf = entry.endpoint.ownerLeaf)
    (config : after.config = leaf.config) (waiting : after.registering = leaf.registering)
    (registrations : after.localEndpoints = leaf.localEndpoints.insert endpointId other)
    (directory : after.directory = leaf.directory
      ∨ after.directory = leaf.directory.upsertLocal other.endpoint now)
    : after.Registered := by
  obtain ⟨keyed, prepared, unnamed⟩ := registered
  obtain ⟨same, named, owned⟩ := keyed endpointId entry found
  refine ⟨?_, ?_, ?_⟩
  · intro otherId entry' found'
    rw [registrations] at found'
    rw [config]
    by_cases own : endpointId = otherId
    · subst own
      rw [Std.TreeMap.getElem?_insert_self] at found'
      obtain rfl := Option.some.inj found'
      exact ⟨id.trans same, named, owner.trans owned⟩
    · rw [getElem?_insert_ne _ _ own] at found'
      exact keyed otherId entry' found'
  · rw [waiting, config]
    exact prepared
  · have someId : other.endpoint.endpointId ≠ [] := by
      rw [id, same]
      exact named
    have stores := (EndpointDirectory.upsertLocal_lookup leaf.directory now [] other.endpoint someId).1
    rw [if_neg someId] at stores
    rcases directory with kept | stored
    · rw [kept]
      exact unnamed
    · rw [stored]
      exact stores.trans unnamed

theorem find_mergeSnapshot_unnamed (directory : EndpointDirectory) (received : DirectorySnapshot)
    : (directory.mergeSnapshot received now).1.find [] = directory.find [] := by
  rw [EndpointDirectory.mergeSnapshot_eq]
  induction received.messages generalizing directory with
  | nil => rfl
  | cons message rest ih =>
      refine (ih _).trans ?_
      by_cases named : message.endpointId = []
      · exact congrArg (EndpointDirectory.find []) (EndpointDirectory.apply_unnamed message named)
      · exact congrArg Register.held (EndpointDirectory.apply_register_of_ne message named)

theorem Registered.step {after : LeafRuntime} {event : LeafEvent} {outputs : List LeafOutput}
    (registered : leaf.Registered) (taken : leaf.step event = .ok (after, outputs))
    : after.Registered := by
  cases event with
  | register request now =>
      obtain rfl : after = (leaf.prepareRegister request now).1 :=
        (congrArg Prod.fst (Except.ok.inj taken)).symm
      unfold prepareRegister
      split
      · exact registered
      · split
        · exact registered
        · rename_i endpoint valid
          refine ⟨registered.keyed, ?_, registered.unnamed⟩
          intro other member
          rcases List.mem_append.mp member with earlier | last
          · exact registered.waiting other earlier
          · obtain rfl := List.mem_singleton.mp last
            refine ⟨fun empty => valid ?_, rfl, rfl⟩
            simp only [Bool.or_eq_true, List.isEmpty_iff]
            exact .inl (.inl empty)
  | registerLocked index now clock =>
      rw [LeafRuntime.step] at taken
      split at taken
      · rename_i endpoint waits
        cases taken
        obtain ⟨named, owner, -⟩ := registered.waiting endpoint (List.mem_of_getElem? waits)
        have rest : { leaf with registering := leaf.registering.eraseIdx index }.Registered :=
          ⟨registered.keyed, fun other member => registered.waiting other
            (List.mem_of_mem_eraseIdx member), registered.unnamed⟩
        exact rest.storeRegistered named owner
      · cases taken
  | heartbeat endpointId now clock =>
      obtain rfl : after = (leaf.handleHeartbeat endpointId now clock).1 :=
        (congrArg Prod.fst (Except.ok.inj taken)).symm
      rw [handleHeartbeat]
      split
      · exact registered
      · rename_i entry found
        split
        · exact @Registered.replace leaf endpointId now _ entry { entry with lastHeartbeat := clock }
            registered found rfl rfl rfl rfl rfl (.inl rfl)
        · exact @Registered.replace leaf endpointId now _ entry
            { endpoint := leaf.restamp true now entry.endpoint, lastHeartbeat := clock }
            registered found rfl rfl rfl rfl rfl (.inr rfl)
  | deregister endpointId now =>
      obtain rfl : after = (leaf.handleDeregister endpointId now).1 :=
        (congrArg Prod.fst (Except.ok.inj taken)).symm
      rw [handleDeregister]
      split
      · exact registered
      · rename_i entry found
        exact @Registered.replace leaf endpointId now _ entry
          { entry with endpoint := leaf.restamp false now entry.endpoint } registered found rfl rfl rfl
          rfl rfl (.inr rfl)
  | heartbeatWork now clock =>
      cases taken
      exact registered.doHeartbeatWork
  | directory received now =>
      cases taken
      exact ⟨registered.keyed, registered.waiting,
        (find_mergeSnapshot_unnamed leaf.directory received).trans registered.unnamed⟩
  | sendSnapshot now =>
      cases taken
      exact ⟨registered.keyed, registered.waiting, registered.unnamed⟩
  | query now =>
      cases taken
      exact ⟨registered.keyed, registered.waiting, registered.unnamed⟩
  | parent activeParent =>
      cases taken
      exact ⟨registered.keyed, registered.waiting, registered.unnamed⟩

theorem Routable.step {after : LeafRuntime} {event : LeafEvent} {outputs : List LeafOutput}
    (routable : leaf.Routable) (registered : leaf.Registered)
    (own : ∀ received now, event ≠ .directory received now)
    (taken : leaf.step event = .ok (after, outputs))
    : after.Routable := by
  cases event with
  | register request now =>
      obtain rfl : after = (leaf.prepareRegister request now).1 :=
        (congrArg Prod.fst (Except.ok.inj taken)).symm
      unfold prepareRegister
      split
      · exact routable
      · split
        · exact routable
        · exact fun endpointId => (routable endpointId).congr rfl rfl rfl
  | registerLocked index now clock =>
      rw [LeafRuntime.step] at taken
      split at taken
      · rename_i endpoint waits
        cases taken
        obtain ⟨named, owner, -⟩ := registered.waiting endpoint (List.mem_of_getElem? waits)
        exact @Routable.upsert leaf now _ { endpoint := endpoint, lastHeartbeat := clock } routable
          named owner rfl rfl rfl
      · cases taken
  | heartbeat endpointId now clock =>
      obtain rfl : after = (leaf.handleHeartbeat endpointId now clock).1 :=
        (congrArg Prod.fst (Except.ok.inj taken)).symm
      rw [handleHeartbeat]
      split
      · exact routable
      · rename_i entry found
        obtain ⟨same, named, owner⟩ := registered.keyed endpointId entry found
        subst same
        split
        · rename_i live
          intro otherId
          by_cases own : entry.endpoint.endpointId = otherId
          · subst own
            obtain ⟨listed, owned⟩ := routable entry.endpoint.endpointId
            obtain ⟨record, held, serves⟩ := listed entry found live
            exact .stored Std.TreeMap.getElem?_insert_self held serves.service serves.target
              serves.ownerLeaf (serves.alive.trans live.symm)
          · exact (routable otherId).congr rfl (getElem?_insert_ne _ _ own) rfl
        · exact @Routable.upsert leaf now _
            { endpoint := leaf.restamp true now entry.endpoint, lastHeartbeat := clock } routable named
            owner rfl rfl rfl
  | deregister endpointId now =>
      obtain rfl : after = (leaf.handleDeregister endpointId now).1 :=
        (congrArg Prod.fst (Except.ok.inj taken)).symm
      rw [handleDeregister]
      split
      · exact routable
      · rename_i entry found
        obtain ⟨same, named, owner⟩ := registered.keyed endpointId entry found
        subst same
        exact @Routable.upsert leaf now _
          { entry with endpoint := leaf.restamp false now entry.endpoint } routable named owner rfl rfl
          rfl
  | heartbeatWork now clock =>
      cases taken
      exact routable.doHeartbeatWork registered
  | directory received now => exact absurd rfl (own received now)
  | sendSnapshot now =>
      cases taken
      exact fun endpointId => (routable endpointId).congr rfl rfl rfl
  | query now =>
      cases taken
      exact fun endpointId => (routable endpointId).congr rfl rfl rfl
  | parent activeParent =>
      cases taken
      exact fun endpointId => (routable endpointId).congr rfl rfl rfl

-- What parents send

/-- A snapshot keeps the leaf's endpoints routable exactly when it spares them. -/
theorem routable_handleDirectory_iff (routable : leaf.Routable) (registered : leaf.Registered)
    (received : DirectorySnapshot)
    : (leaf.handleDirectory received now).Routable ↔ leaf.Spares received := by
  constructor
  · intro still
    refine ⟨?_, ?_⟩
    · intro endpointId entry record found live foremost
      have named := (registered.keyed endpointId entry found).2.1
      obtain ⟨served, holds, serves⟩ := (still endpointId).listed entry found live
      obtain ⟨newest, outlasts⟩ := (find_handleDirectory named received served).mp holds
      obtain rfl := newest.unique foremost
      exact ⟨outlasts, serves⟩
    · intro endpointId record named notLive foremost owner live outlasts
      have holds := (@find_handleDirectory leaf endpointId now named received record).mpr ⟨foremost, outlasts⟩
      exact notLive ((still endpointId).owned record holds owner live)
  · intro spares endpointId
    refine ⟨?_, ?_⟩
    · intro entry found live
      have named := (registered.keyed endpointId entry found).2.1
      obtain ⟨held, holds, -⟩ := (routable endpointId).listed entry found live
      obtain ⟨record, foremost⟩ : ∃ record,
          Foremost stamp (leaf.contenders received endpointId) record := by
        rw [contenders, holds]
        exact Foremost.exists_cons held _
      obtain ⟨outlasts, serves⟩ := spares.live endpointId entry record found live foremost
      exact ⟨record, (find_handleDirectory named received record).mpr ⟨foremost, outlasts⟩, serves⟩
    · intro record holds owner live
      by_contra notLive
      have named : endpointId ≠ [] := by
        rintro rfl
        have none := (@find_mergeSnapshot_unnamed now leaf.directory received).trans registered.unnamed
        cases holds.symm.trans none
      obtain ⟨foremost, outlasts⟩ := (find_handleDirectory named received record).mp holds
      exact spares.other endpointId record named notLive foremost owner live outlasts

-- Runs

abbrev History := List (Stage LeafRuntime LeafEvent LeafOutput)

theorem run_registered {allowed : History → LeafRuntime → LeafEvent → Prop} {config : LeafConfig}
    {history : History} {last : LeafRuntime}
    (run : Run LeafRuntime.step allowed (create config now) history last)
    : last.Registered := by
  refine run.invariant (fun _ leaf => leaf.Registered) ?_ ?_
  · refine ⟨?_, fun endpoint member => absurd member List.not_mem_nil, rfl⟩
    intro endpointId entry found
    cases found
  · intro history leaf event after outputs _ registered _ taken
    exact registered.step taken

/-- In every run a leaf's own endpoints are routable in every state exactly when every snapshot that is
merged spares them.
-/
theorem routable_iff_harmless {config : LeafConfig} {history : History} {last : LeafRuntime}
    (run : Run LeafRuntime.step (fun _ _ _ => True) (create config now) history last)
    : Throughout (fun _ leaf => leaf.Routable) history last
      ↔ ∀ stage ∈ history, stage.event.Harmless stage.before := by
  refine run.throughout_iff ?_ ?_
  · intro endpointId
    exact .absent rfl rfl
  · intro history leaf event after outputs earlier routable _ taken
    have registered := run_registered earlier
    unfold LeafEvent.Harmless
    by_cases own : ∀ received now, event ≠ .directory received now
    · exact iff_of_true (routable.step registered own taken)
        fun received now same => absurd same (own received now)
    · push Not at own
      obtain ⟨received, now, rfl⟩ := own
      cases taken
      refine (routable_handleDirectory_iff routable registered received).trans ?_
      refine ⟨fun spares received' now' same => ?_, fun all => all received now rfl⟩
      cases same
      exact spares

/-- A leaf registers an endpoint and deregisters it, and merges the record that its node had made of the
registration.
-/
def echoed : List LeafEvent :=
  [
    .register (some { endpointId := [1], service := [2], target := [3] }) 1001,
    .registerLocked 0 1002 0,
    .deregister [1] 1003,
    .directory
      {
        endpoints :=
          [
            {
              endpointId := [1]
              service := [2]
              ownerLeaf := [9]
              target := [3]
              version := 2001
              updatedMs := 1002
              alive := true
            }
          ]
      } 1004,
    .sendSnapshot 1005
  ]

theorem routable_iff_harmless_echoed
    : ∃ history last, Run LeafRuntime.step (fun _ _ _ => True) (create { id := [9] } 1000) history last
      ∧ history.length = 5
      ∧ (Throughout (fun _ leaf => leaf.Routable) history last
        ↔ ∀ stage ∈ history, stage.event.Harmless stage.before) := by
  have shown : shows LeafRuntime.step (create { id := [9] } 1000) echoed (fun history =>
      history.length = 5) = true := by
    decide +kernel
  obtain ⟨history, last, run, length⟩ := Run.of_shows shown
  exact ⟨history, last, run, of_decide_eq_true length, routable_iff_harmless run⟩

/-- The record of a registration comes back with the version of the node and replaces that of the
deregistration.
-/
theorem deregistered_routable_again
    : ¬ ∀ config now history last,
        Run LeafRuntime.step (fun _ _ _ => True) (create config now) history last
        → Throughout (fun _ leaf => leaf.Routable) history last := by
  intro always
  have shown : shows LeafRuntime.step (create { id := [9] } 1000) echoed (fun history =>
      history.any fun stage =>
        (stage.before.localEndpoints[([1] : Bytes)]?).all (fun entry => !entry.endpoint.alive)
        && (stage.before.directory.find [1]).any fun record =>
          record.alive && record.ownerLeaf = stage.before.config.id) = true := by
    decide +kernel
  obtain ⟨history, last, run, found⟩ := Run.of_shows shown
  obtain ⟨stage, member, both⟩ := List.any_eq_true.mp found
  obtain ⟨dead, held⟩ := Bool.and_eq_true_iff.mp both
  obtain ⟨front, back, split⟩ := List.append_of_mem member
  rcases holds : stage.before.directory.find [1] with _ | record
  · rw [holds] at held
    cases held
  rw [holds] at held
  obtain ⟨live, owner⟩ := Bool.and_eq_true_iff.mp held
  obtain ⟨entry, registered, alive⟩ := (((always _ _ history last run).1 front stage back split)
    [1]).owned record holds (of_decide_eq_true owner) live
  rw [registered, Option.all_some, alive] at dead
  cases dead

end LeafRuntime

end Creek.Leaf
