import Creek.Proofs.Mesh.Snapshots

/-! A replica that merges a snapshot of its source after every local call of the source.
A registration under an id that was removed before is taken by the replica only when its version
exceeds the one the replica remembers as removed; the source forgets that version.
-/

namespace Creek.Mesh

open Tight (Bytes)
open Library

/-- A local call of the source. -/
inductive LocalCall where
  | upsert (endpoint : Endpoint)
  | remove (endpointId : Bytes)
  deriving DecidableEq, Repr

/-- The id a call is about. -/
def LocalCall.endpointId : LocalCall → Bytes
  | .upsert endpoint => endpoint.endpointId
  | .remove endpointId => endpointId

/-- The directory after a local call. -/
def LocalCall.apply (now : UInt64) (call : LocalCall) (source : EndpointDirectory)
    : EndpointDirectory :=
  match call with
  | .upsert endpoint => source.upsertLocal endpoint now
  | .remove endpointId => (source.removeLocal endpointId now).1

namespace EndpointDirectory

variable {source : EndpointDirectory} {endpointId : Bytes} {now : UInt64}

/-- The record that a registration stores. -/
def registered (endpoint : Endpoint) (now : UInt64) (source : EndpointDirectory) : Endpoint :=
  {
    endpoint with
    version :=
      match source.endpoints[endpoint.endpointId]? with
      | none => if endpoint.version = 0 then 1 else endpoint.version
      | some existing => existing.version + 1
    updatedMs := if endpoint.updatedMs = 0 then now else endpoint.updatedMs
  }

/-- A registration stores its record and clears the tombstone. -/
theorem upsertLocal_lookup (source : EndpointDirectory) (now : UInt64) (endpointId : Bytes)
    (endpoint : Endpoint) (named : endpoint.endpointId ≠ [])
    : (source.upsertLocal endpoint now).endpoints[endpointId]? =
        (if endpoint.endpointId = endpointId then some (source.registered endpoint now)
        else source.endpoints[endpointId]?)
      ∧ (source.upsertLocal endpoint now).tombstones[endpointId]? =
        (if endpoint.endpointId = endpointId then none else source.tombstones[endpointId]?) := by
  by_cases own : endpoint.endpointId = endpointId
  · subst own
    rcases present : source.endpoints[endpoint.endpointId]? with _ | existing
    · simp [upsertLocal, named, store, registered, present]
    · simp [upsertLocal, named, store, registered, present]
  · simp [upsertLocal, named, store, Std.TreeMap.getElem?_insert, Std.TreeMap.getElem?_erase, own]

theorem removeLocal_lookup (now : UInt64) (endpointId : Bytes) {existing : Endpoint}
    {removedId : Bytes} (present : source.endpoints[removedId]? = some existing)
    : (source.removeLocal removedId now).1.endpoints[endpointId]? =
        (if removedId = endpointId then none else source.endpoints[endpointId]?)
      ∧ (source.removeLocal removedId now).1.tombstones[endpointId]? =
        (if removedId = endpointId then
          some { version := existing.version, updatedMs := existing.updatedMs, removedMs := now }
        else source.tombstones[endpointId]?) := by
  by_cases own : removedId = endpointId
  · subst own
    simp [removeLocal, present]
  · simp [removeLocal, present, Std.TreeMap.getElem?_insert, Std.TreeMap.getElem?_erase, own]

theorem apply_lookup_of_ne (source : EndpointDirectory) (now : UInt64) {call : LocalCall}
    (other : call.endpointId ≠ endpointId)
    : (call.apply now source).endpoints[endpointId]? = source.endpoints[endpointId]?
      ∧ (call.apply now source).tombstones[endpointId]? = source.tombstones[endpointId]? := by
  rcases call with endpoint | removedId
  · by_cases named : endpoint.endpointId = []
    · simp [LocalCall.apply, upsertLocal, named]
    · have lookup := upsertLocal_lookup source now endpointId endpoint named
      simpa [LocalCall.apply, show endpoint.endpointId ≠ endpointId from other] using lookup
  · rcases present : source.endpoints[removedId]? with _ | existing
    · simp [LocalCall.apply, removeLocal, present]
    · have lookup := removeLocal_lookup now endpointId present
      simpa [LocalCall.apply, show removedId ≠ endpointId from other] using lookup

theorem Keyed.apply (keyed : source.Keyed) (now : UInt64) (call : LocalCall)
    : (call.apply now source).Keyed := by
  intro endpointId endpoint found
  by_cases own : call.endpointId = endpointId
  · rcases call with registration | removedId
    · by_cases named : registration.endpointId = []
      · exact keyed endpointId endpoint (by simpa [LocalCall.apply, upsertLocal, named] using found)
      · have stored : (LocalCall.apply now (.upsert registration) source).endpoints[endpointId]? =
            some (source.registered registration now) :=
          ((upsertLocal_lookup source now endpointId registration named).1).trans (if_pos own)
        obtain rfl := Option.some.inj (stored.symm.trans found)
        exact own
    · rcases present : source.endpoints[removedId]? with _ | existing
      · exact keyed endpointId endpoint (by simpa [LocalCall.apply, removeLocal, present] using found)
      · have erased : (LocalCall.apply now (.remove removedId) source).endpoints[endpointId]? = none :=
          ((removeLocal_lookup now endpointId present).1).trans (if_pos own)
        rw [erased] at found
        cases found
  · rw [(apply_lookup_of_ne source now own).1] at found
    exact keyed endpointId endpoint found

end EndpointDirectory

/-- A local call, and the instants of the call, of the snapshot and of its merge. -/
structure Exchange where
  call : LocalCall
  now : UInt64
  snapshotMs : UInt64
  mergeMs : UInt64

/-- A source and its replica. -/
structure Replication where
  source : EndpointDirectory := {}
  replica : EndpointDirectory := {}

namespace Replication

/-- The source makes a call and takes a snapshot; the replica merges it. -/
def step (sourceId : Bytes) (pair : Replication) (exchange : Exchange) : Replication :=
  let (source, snapshot) :=
    (exchange.call.apply exchange.now pair.source).snapshot sourceId exchange.snapshotMs
  { source := source, replica := (pair.replica.mergeSnapshot snapshot exchange.mergeMs).1 }

/-- Whether a property holds at every exchange of a run. -/
def Throughout (sourceId : Bytes) (property : Replication → Exchange → Prop)
    : Replication → List Exchange → Prop
  | _, [] => True
  | pair, exchange :: rest =>
      property pair exchange ∧ Throughout sourceId property (pair.step sourceId exchange) rest

/-- The replica holds exactly the endpoints of the source. -/
def Agrees (pair : Replication) : Prop :=
  ∀ endpointId : Bytes, pair.replica.endpoints[endpointId]? = pair.source.endpoints[endpointId]?

/-- No tombstone of the source is past its lifetime when the snapshot is taken. -/
def Timely (pair : Replication) (exchange : Exchange) : Prop :=
  ∀ entry ∈ (exchange.call.apply exchange.now pair.source).tombstones.toList,
    EndpointDirectory.expired entry.2 exchange.snapshotMs = false

/-- Whether a call keeps the source ahead of what it has removed: the version of a registered
endpoint does not wrap around, and a registration after a removal exceeds the removed version.
-/
def Ahead (source : EndpointDirectory) : LocalCall → Prop
  | .remove _ => True
  | .upsert endpoint =>
      match source.endpoints[endpoint.endpointId]? with
      | some existing => existing.version < existing.version + 1
      | none =>
          ∀ tombstone ∈ source.tombstones[endpoint.endpointId]?,
            tombstone.version < if endpoint.version = 0 then 1 else endpoint.version

/-- What the replica remembers: the records of the source, below every live record at most
what was removed before it, and for a removed id the removed version.
-/
structure Mirrors (pair : Replication) : Prop where
  agrees : pair.Agrees
  keyed : pair.source.Keyed
  unnamed : pair.source.endpoints[([] : Bytes)]? = none
    ∧ pair.source.tombstones[([] : Bytes)]? = none
  live : ∀ (endpointId : Bytes) (endpoint : Endpoint),
    pair.source.endpoints[endpointId]? = some endpoint
    → pair.source.tombstones[endpointId]? = none
      ∧ (pair.replica.register endpointId).admits stamp stampVersion endpoint
  gone : ∀ endpointId : Bytes, pair.source.endpoints[endpointId]? = none
    → (pair.replica.register endpointId).floor = (pair.source.register endpointId).floor

theorem Mirrors.initial : Mirrors {} where
  agrees := fun endpointId => by simp
  keyed := fun endpointId endpoint => by simp
  unnamed := by simp
  live := fun endpointId endpoint => by simp
  gone := fun endpointId _ => by simp [EndpointDirectory.register]

/-- A timely snapshot prunes no tombstone. -/
theorem unpruned {pair : Replication} {exchange : Exchange} (timely : pair.Timely exchange)
    {endpointId : Bytes}
    : ((exchange.call.apply exchange.now pair.source).prune
        exchange.snapshotMs).tombstones[endpointId]? =
      (exchange.call.apply exchange.now pair.source).tombstones[endpointId]? := by
  rw [EndpointDirectory.prune_tombstones]
  rcases kept : (exchange.call.apply exchange.now pair.source).tombstones[endpointId]? with
    _ | tombstone
  · rfl
  · have fresh := timely (endpointId, tombstone) (Std.TreeMap.mem_toList_iff_getElem?_eq_some.mpr kept)
    simp [Option.filter, fresh]

/-- What an exchange does to the register of the replica: it receives the record and the
tombstone the source then has.
-/
theorem step_register {sourceId : Bytes} {pair : Replication} {exchange : Exchange}
    (keyed : (exchange.call.apply exchange.now pair.source).Keyed) (timely : pair.Timely exchange)
    {endpointId : Bytes} (named : endpointId ≠ [])
    : (pair.step sourceId exchange).replica.register endpointId =
      let source := exchange.call.apply exchange.now pair.source
      ((source.endpoints[endpointId]?).toList.map Update.put
        ++ (source.tombstones[endpointId]?).toList.map fun tombstone : Tombstone =>
          Update.remove tombstone.version.toNat).foldl
        (Register.apply stamp stampVersion) (pair.replica.register endpointId) := by
  simp only [step]
  rw [EndpointDirectory.mergeSnapshot_register keyed named, unpruned timely]

/-- Where the source keeps an entry, the replica keeps its register. Witness: the replica is
handed the record it already holds, or the removal it already remembers.
-/
theorem Mirrors.register_kept {sourceId : Bytes} {pair : Replication} {exchange : Exchange}
    (mirrors : pair.Mirrors) (keyed : (exchange.call.apply exchange.now pair.source).Keyed)
    (timely : pair.Timely exchange) {endpointId : Bytes} (named : endpointId ≠ [])
    (endpoints : (exchange.call.apply exchange.now pair.source).endpoints[endpointId]? =
      pair.source.endpoints[endpointId]?)
    (tombstones : (exchange.call.apply exchange.now pair.source).tombstones[endpointId]? =
      pair.source.tombstones[endpointId]?)
    : (pair.step sourceId exchange).replica.register endpointId =
      pair.replica.register endpointId := by
  rw [step_register keyed timely named]
  simp only [endpoints, tombstones]
  have agrees : (pair.replica.register endpointId).held = pair.source.endpoints[endpointId]? :=
    mirrors.agrees endpointId
  rcases present : pair.source.endpoints[endpointId]? with _ | endpoint
  · have floor := mirrors.gone endpointId present
    rw [present] at agrees
    rcases removed : pair.source.tombstones[endpointId]? with _ | tombstone
    · rfl
    · rw [show (pair.source.register endpointId).floor = some tombstone.version.toNat by
        simp [EndpointDirectory.register, removed]] at floor
      generalize pair.replica.register endpointId = register at agrees floor
      cases register
      simp_all [Register.apply]
  · have cleared := (mirrors.live endpointId endpoint present).1
    rw [present] at agrees
    rw [cleared]
    simp [Register.apply, agrees]

/-- The source after an exchange is the source after the call: nothing is pruned in time. -/
theorem step_source (sourceId : Bytes) {pair : Replication} {exchange : Exchange}
    (timely : pair.Timely exchange) (endpointId : Bytes)
    : (pair.step sourceId exchange).source.endpoints[endpointId]? =
        (exchange.call.apply exchange.now pair.source).endpoints[endpointId]?
      ∧ (pair.step sourceId exchange).source.tombstones[endpointId]? =
        (exchange.call.apply exchange.now pair.source).tombstones[endpointId]? := by
  exact ⟨rfl, unpruned timely⟩

theorem step_unnamed {sourceId : Bytes} {pair : Replication} {exchange : Exchange}
    : (pair.step sourceId exchange).replica.register [] = pair.replica.register [] := by
  have keep : ∀ (messages : List Message) (directory : EndpointDirectory),
      (messages.foldl (fun directory message => message.apply exchange.mergeMs directory)
        directory).register [] = directory.register [] := by
    intro messages
    induction messages with
    | nil => exact fun _ => rfl
    | cons message rest ih =>
        intro directory
        rw [List.foldl_cons, ih]
        by_cases unnamed : message.endpointId = []
        · rw [EndpointDirectory.apply_unnamed message unnamed]
        · rw [EndpointDirectory.apply_register_of_ne message unnamed]
  simp only [step]
  rw [EndpointDirectory.mergeSnapshot_eq, keep]

/-- What an exchange has to settle for the id of its call; all other ids keep their entries and
registers.
-/
structure Settles (sourceId : Bytes) (pair : Replication) (exchange : Exchange) : Prop where
  agrees : (pair.step sourceId exchange).replica.endpoints[exchange.call.endpointId]? =
    (exchange.call.apply exchange.now pair.source).endpoints[exchange.call.endpointId]?
  live : ∀ endpoint : Endpoint,
    (exchange.call.apply exchange.now pair.source).endpoints[exchange.call.endpointId]? =
      some endpoint
    → (exchange.call.apply exchange.now pair.source).tombstones[exchange.call.endpointId]? = none
      ∧ ((pair.step sourceId exchange).replica.register exchange.call.endpointId).admits stamp
        stampVersion endpoint
  gone : (exchange.call.apply exchange.now pair.source).endpoints[exchange.call.endpointId]? = none
    → ((pair.step sourceId exchange).replica.register exchange.call.endpointId).floor =
      ((exchange.call.apply exchange.now pair.source).register exchange.call.endpointId).floor

/-- An exchange that settles the id of its call keeps the replica a mirror. -/
theorem Settles.mirrors {sourceId : Bytes} {pair : Replication} {exchange : Exchange}
    (settles : Settles sourceId pair exchange) (mirrors : pair.Mirrors)
    (timely : pair.Timely exchange) (named : exchange.call.endpointId ≠ [])
    : (pair.step sourceId exchange).Mirrors := by
  have keyed := mirrors.keyed.apply exchange.now exchange.call
  have source := fun endpointId => step_source sourceId timely endpointId
  have others : ∀ endpointId, exchange.call.endpointId ≠ endpointId
      → (pair.step sourceId exchange).replica.register endpointId =
        pair.replica.register endpointId := by
    intro endpointId other
    by_cases unnamed : endpointId = []
    · subst unnamed
      exact step_unnamed
    · obtain ⟨endpoints, tombstones⟩ := EndpointDirectory.apply_lookup_of_ne pair.source exchange.now other
      exact mirrors.register_kept keyed timely unnamed endpoints tombstones
  refine ⟨fun endpointId => ?_, fun endpointId endpoint found => ?_, ?_, fun endpointId endpoint
    found => ?_, fun endpointId absent => ?_⟩
  · by_cases own : exchange.call.endpointId = endpointId
    · subst own
      exact settles.agrees
    · refine (congrArg Register.held (others endpointId own)).trans ?_
      rw [(source endpointId).1, (EndpointDirectory.apply_lookup_of_ne pair.source exchange.now own).1]
      exact mirrors.agrees endpointId
  · exact keyed endpointId endpoint found
  · obtain ⟨endpoints, tombstones⟩ := EndpointDirectory.apply_lookup_of_ne pair.source exchange.now named
    rw [(source []).1, (source []).2, endpoints, tombstones]
    exact mirrors.unnamed
  · rw [(source endpointId).1] at found
    rw [(source endpointId).2]
    by_cases own : exchange.call.endpointId = endpointId
    · subst own
      exact settles.live endpoint found
    · rw [others endpointId own, (EndpointDirectory.apply_lookup_of_ne pair.source exchange.now own).2]
      rw [(EndpointDirectory.apply_lookup_of_ne pair.source exchange.now own).1] at found
      exact mirrors.live endpointId endpoint found
  · rw [(source endpointId).1] at absent
    have floors : ((pair.step sourceId exchange).source.register endpointId).floor =
        ((exchange.call.apply exchange.now pair.source).register endpointId).floor := by
      simp only [EndpointDirectory.register, (source endpointId).2]
    rw [floors]
    by_cases own : exchange.call.endpointId = endpointId
    · subst own
      exact settles.gone absent
    · obtain ⟨endpoints, tombstones⟩ := EndpointDirectory.apply_lookup_of_ne pair.source exchange.now own
      rw [others endpointId own, mirrors.gone endpointId (endpoints.symm.trans absent)]
      simp only [EndpointDirectory.register, tombstones]

section

variable {sourceId : Bytes} {pair : Replication} {exchange : Exchange}

theorem Mirrors.idle (mirrors : pair.Mirrors) (timely : pair.Timely exchange)
    (unchanged : exchange.call.apply exchange.now pair.source = pair.source)
    : (pair.step sourceId exchange).Mirrors := by
  have keyed : (exchange.call.apply exchange.now pair.source).Keyed := by
    rw [unchanged]
    exact mirrors.keyed
  have source := fun endpointId => step_source sourceId timely endpointId
  rw [unchanged] at source
  have registers : ∀ endpointId, (pair.step sourceId exchange).replica.register endpointId =
      pair.replica.register endpointId := by
    intro endpointId
    by_cases unnamed : endpointId = []
    · subst unnamed
      exact step_unnamed
    · exact mirrors.register_kept keyed timely unnamed (by rw [unchanged]) (by rw [unchanged])
  refine ⟨fun endpointId => ?_, fun endpointId endpoint found => ?_, ?_, fun endpointId endpoint
    found => ?_, fun endpointId absent => ?_⟩
  · rw [(source endpointId).1]
    exact (congrArg Register.held (registers endpointId)).trans (mirrors.agrees endpointId)
  · exact mirrors.keyed endpointId endpoint ((source endpointId).1 ▸ found)
  · rw [(source []).1, (source []).2]
    exact mirrors.unnamed
  · rw [(source endpointId).1] at found
    rw [(source endpointId).2, registers]
    exact mirrors.live endpointId endpoint found
  · rw [(source endpointId).1] at absent
    rw [registers, mirrors.gone endpointId absent]
    simp only [EndpointDirectory.register, (source endpointId).2]

/-- Removing a live record: the replica drops it with the version it has, which is above every
removal it remembers.
-/
theorem Mirrors.remove {removedId : Bytes} {existing : Endpoint} (mirrors : pair.Mirrors)
    (timely : pair.Timely exchange) (call : exchange.call = .remove removedId)
    (present : pair.source.endpoints[removedId]? = some existing)
    : (pair.step sourceId exchange).Mirrors := by
  have named : removedId ≠ [] := by
    rintro rfl
    rw [mirrors.unnamed.1] at present
    cases present
  obtain ⟨erased, buried⟩ := EndpointDirectory.removeLocal_lookup exchange.now removedId present
  rw [if_pos rfl] at erased buried
  have own : exchange.call.endpointId = removedId := by rw [call, LocalCall.endpointId]
  have endpoints : (exchange.call.apply exchange.now pair.source).endpoints[removedId]? = none := by
    rw [call]
    exact erased
  have tombstones : (exchange.call.apply exchange.now pair.source).tombstones[removedId]? =
      some { version := existing.version, updatedMs := existing.updatedMs,
             removedMs := exchange.now } := by
    rw [call]
    exact buried
  have held : (pair.replica.register removedId).held = some existing :=
    (mirrors.agrees removedId).trans present
  have above := (mirrors.live removedId existing present).2
  have register : (pair.step sourceId exchange).replica.register removedId =
      { held := none, floor := some existing.version.toNat } := by
    rw [step_register (mirrors.keyed.apply _ _) timely named]
    simp only [endpoints, tombstones]
    have low : ¬∃ floor ∈ (pair.replica.register removedId).floor,
        existing.version.toNat ≤ floor := by
      rintro ⟨floor, member, below⟩
      exact absurd (above floor member) (Nat.not_lt.mpr below)
    simp only [Option.toList_none, Option.toList_some, List.map_nil, List.map_cons,
      List.nil_append, List.foldl_cons, List.foldl_nil, Register.apply]
    rw [if_neg low, held]
    simp [Option.filter, stamp, stampVersion]
  refine Settles.mirrors ⟨?_, ?_, ?_⟩ mirrors timely (own ▸ named)
  · rw [own, endpoints]
    exact congrArg Register.held register
  · intro endpoint found
    rw [own, endpoints] at found
    cases found
  · intro _
    rw [own, register]
    simp [EndpointDirectory.register, tombstones]

/-- The register of the replica after a registration: the new record, if it is admitted and
exceeds the one that is held.
-/
theorem upsert_register (sourceId : Bytes) {endpoint : Endpoint} (mirrors : pair.Mirrors)
    (timely : pair.Timely exchange) (call : exchange.call = .upsert endpoint)
    (named : endpoint.endpointId ≠ [])
    : (pair.step sourceId exchange).replica.register endpoint.endpointId =
      (pair.replica.register endpoint.endpointId).apply stamp stampVersion
        (.put (pair.source.registered endpoint exchange.now)) := by
  obtain ⟨stored, cleared⟩ := EndpointDirectory.upsertLocal_lookup pair.source exchange.now
    endpoint.endpointId endpoint named
  rw [if_pos rfl] at stored cleared
  rw [step_register (mirrors.keyed.apply _ _) timely named, call]
  simp only [LocalCall.apply, stored, cleared]
  rfl

/-- Registering an id anew or over its record: the replica takes the record, and stays a mirror,
exactly when the register of the replica lets it in.
-/
theorem Mirrors.upsert (mirrors : pair.Mirrors) (sourceId : Bytes) {endpoint : Endpoint}
    (timely : pair.Timely exchange) (call : exchange.call = .upsert endpoint)
    (named : endpoint.endpointId ≠ [])
    : let record := pair.source.registered endpoint exchange.now
      let lets := (pair.replica.register endpoint.endpointId).admits stamp stampVersion record
        ∧ ∀ held ∈ (pair.replica.register endpoint.endpointId).held, stamp held < stamp record
      (lets → (pair.step sourceId exchange).Mirrors)
      ∧ (¬lets → (pair.replica.register endpoint.endpointId).held ≠ some record
        → ¬(pair.step sourceId exchange).Agrees) := by
  intro record lets
  have own : exchange.call.endpointId = endpoint.endpointId := by rw [call, LocalCall.endpointId]
  obtain ⟨stored, cleared⟩ := EndpointDirectory.upsertLocal_lookup pair.source exchange.now
    endpoint.endpointId endpoint named
  rw [if_pos rfl] at stored cleared
  have endpoints : (exchange.call.apply exchange.now pair.source).endpoints[endpoint.endpointId]? =
      some record := by
    rw [call]
    exact stored
  have tombstones :
      (exchange.call.apply exchange.now pair.source).tombstones[endpoint.endpointId]? = none := by
    rw [call]
    exact cleared
  have register := upsert_register sourceId mirrors timely call named
  rw [Register.apply] at register
  constructor
  · intro admitted
    rw [if_pos admitted] at register
    refine Settles.mirrors ⟨?_, ?_, ?_⟩ mirrors timely (own ▸ named)
    · rw [own, endpoints]
      exact congrArg Register.held register
    · intro found same
      rw [own, endpoints] at same
      obtain rfl := Option.some.inj same
      rw [own, register]
      exact ⟨tombstones, admitted.1⟩
    · intro absent
      rw [own, endpoints] at absent
      cases absent
  · intro refused differs agrees
    rw [if_neg refused] at register
    have same : (pair.step sourceId exchange).replica.endpoints[endpoint.endpointId]? = some record :=
      (agrees endpoint.endpointId).trans endpoints
    exact differs ((congrArg Register.held register).symm.trans same)

/-- The register of the replica lets a registration in exactly when its version keeps ahead; it
never holds the new record already.
-/
theorem Mirrors.lets_iff (mirrors : pair.Mirrors) (now : UInt64) (endpoint : Endpoint)
    : ((pair.replica.register endpoint.endpointId).admits stamp stampVersion
            (pair.source.registered endpoint now)
          ∧ (∀ held ∈ (pair.replica.register endpoint.endpointId).held,
            stamp held < stamp (pair.source.registered endpoint now))
        ↔ Ahead pair.source (.upsert endpoint))
      ∧ (pair.replica.register endpoint.endpointId).held ≠
        some (pair.source.registered endpoint now) := by
  have held : (pair.replica.register endpoint.endpointId).held =
      pair.source.endpoints[endpoint.endpointId]? := mirrors.agrees endpoint.endpointId
  rcases present : pair.source.endpoints[endpoint.endpointId]? with _ | existing
  · rw [present] at held
    have floor := mirrors.gone endpoint.endpointId present
    refine ⟨?_, by simp [held]⟩
    simp only [Register.admits, floor, held, Ahead, present]
    rcases removed : pair.source.tombstones[endpoint.endpointId]? with _ | tombstone
    · simp [EndpointDirectory.register, removed]
    · simp [EndpointDirectory.register, removed, EndpointDirectory.registered, present, stamp,
        stampVersion, UInt64.lt_iff_toNat_lt]
  · rw [present] at held
    have above := (mirrors.live _ existing present).2
    have version : (pair.source.registered endpoint now).version = existing.version + 1 := by
      simp [EndpointDirectory.registered, present]
    have grows : stamp existing < stamp (pair.source.registered endpoint now)
        ↔ existing.version < existing.version + 1 := by
      have differ : existing.version ≠ existing.version + 1 := by
        intro same
        have same := congrArg UInt64.toBitVec same
        simp at same
      simp only [stamp, Prod.Lex.toLex_lt_toLex, version, UInt64.lt_iff_toNat_lt]
      refine ⟨fun less => less.resolve_right fun both => differ ?_, .inl⟩
      exact UInt64.toNat_inj.mp both.1
    constructor
    · simp only [Ahead, present]
      constructor
      · exact fun lets => grows.mp (lets.2 existing held)
      · intro ahead
        refine ⟨fun floor member => ?_, fun other member => ?_⟩
        · refine (above floor member).trans ?_
          simpa [stamp, stampVersion, version] using UInt64.lt_iff_toNat_lt.mp ahead
        · obtain rfl := Option.some.inj (held.symm.trans member)
          exact grows.mpr ahead
    · intro same
      have same := Option.some.inj (held.symm.trans same)
      have versions : existing.version = existing.version + 1 :=
        (congrArg Endpoint.version same).trans version
      have bits := congrArg UInt64.toBitVec versions
      simp at bits

/-- In time, an exchange keeps the replica in agreement exactly when the call keeps the source
ahead; and then the replica stays a mirror.
-/
theorem Mirrors.step_iff (mirrors : pair.Mirrors) (sourceId : Bytes) (timely : pair.Timely exchange)
    : ((pair.step sourceId exchange).Agrees ↔ Ahead pair.source exchange.call)
      ∧ (Ahead pair.source exchange.call → (pair.step sourceId exchange).Mirrors) := by
  have always : (pair.step sourceId exchange).Mirrors → Ahead pair.source exchange.call
      → ((pair.step sourceId exchange).Agrees ↔ Ahead pair.source exchange.call)
        ∧ (Ahead pair.source exchange.call → (pair.step sourceId exchange).Mirrors) :=
    fun kept ahead => ⟨⟨fun _ => ahead, fun _ => kept.agrees⟩, fun _ => kept⟩
  rcases call : exchange.call with endpoint | removedId
  · rw [call] at always
    by_cases named : endpoint.endpointId = []
    · refine always (mirrors.idle timely ?_) ?_
      · simp [call, LocalCall.apply, EndpointDirectory.upsertLocal, named]
      · simp [Ahead, named, mirrors.unnamed.1, mirrors.unnamed.2]
    · obtain ⟨taken, refused⟩ := mirrors.upsert sourceId timely call named
      have lets := mirrors.lets_iff exchange.now endpoint
      by_cases ahead : Ahead pair.source (.upsert endpoint)
      · exact always (taken (lets.1.mpr ahead)) ahead
      · refine ⟨⟨fun agrees => ?_, fun held => absurd held ahead⟩, fun held => absurd held ahead⟩
        exact absurd agrees (refused (mt lets.1.mp ahead) lets.2)
  · rw [call] at always
    refine always ?_ trivial
    rcases present : pair.source.endpoints[removedId]? with _ | existing
    · refine mirrors.idle timely ?_
      simp [call, LocalCall.apply, EndpointDirectory.removeLocal, present]
    · exact mirrors.remove timely call present

/-- From a mirror on, a run in time agrees after every exchange exactly when every call keeps
the source ahead.
-/
theorem Mirrors.throughout_iff (mirrors : pair.Mirrors) {exchanges : List Exchange}
    (timely : Throughout sourceId Timely pair exchanges)
    : Throughout sourceId (fun pair exchange => (pair.step sourceId exchange).Agrees) pair exchanges
      ↔ Throughout sourceId (fun pair exchange => Ahead pair.source exchange.call) pair
        exchanges := by
  induction exchanges generalizing pair with
  | nil => exact Iff.rfl
  | cons exchange rest ih =>
      obtain ⟨first, later⟩ := timely
      obtain ⟨agrees, kept⟩ := mirrors.step_iff sourceId first
      constructor
      · rintro ⟨here, there⟩
        have ahead := agrees.mp here
        exact ⟨ahead, (ih (kept ahead) later).mp there⟩
      · rintro ⟨ahead, there⟩
        exact ⟨agrees.mpr ahead, (ih (kept ahead) later).mpr there⟩

end

/-- A replica that merges a snapshot after every local call, within the lifetime of the
tombstones, always holds the endpoints of the source exactly when no registered version wraps
around and every registration after a removal exceeds the removed version.
-/
theorem agrees_iff (sourceId : Bytes) (exchanges : List Exchange)
    (timely : Throughout sourceId Timely {} exchanges)
    : Throughout sourceId (fun pair exchange => (pair.step sourceId exchange).Agrees) {} exchanges
      ↔ Throughout sourceId (fun pair exchange => Ahead pair.source exchange.call) {} exchanges :=
  Mirrors.initial.throughout_iff timely

/-- Registered, removed and registered again under the default version. -/
def comeback : List Exchange :=
  [
    { call := .upsert { endpointId := [1], alive := true }, now := 1000, snapshotMs := 1000,
      mergeMs := 1001 },
    { call := .remove [1], now := 2000, snapshotMs := 2000, mergeMs := 2001 },
    { call := .upsert { endpointId := [1], alive := true }, now := 3000, snapshotMs := 3000,
      mergeMs := 3001 }
  ]

/-- The comeback happens within the lifetime of the tombstone. -/
theorem comeback_timely : Throughout [] Timely {} comeback :=
  ⟨by unfold Timely; decide +kernel, by unfold Timely; decide +kernel,
    by unfold Timely; decide +kernel, trivial⟩

/-- The replica never sees the endpoint again: its second version equals the removed one. -/
theorem comeback_not_agrees
    : ¬∀ (sourceId : Bytes) (exchanges : List Exchange), Throughout sourceId Timely {} exchanges
        → Throughout sourceId (fun pair exchange => (pair.step sourceId exchange).Agrees) {}
          exchanges := by
  intro always
  obtain ⟨-, -, last, -⟩ := always [] comeback comeback_timely
  exact absurd (last [1]) (by decide +kernel)

/-- The condition fails at the last registration of the comeback, so the replica disagrees. -/
theorem agrees_iff_comeback
    : ¬Throughout [] (fun pair exchange => (pair.step [] exchange).Agrees) {} comeback :=
  fun agrees => by
    obtain ⟨-, -, last, -⟩ := (agrees_iff [] comeback comeback_timely).mp agrees
    exact absurd (last { version := 1, updatedMs := 1000, removedMs := 2000 } (by decide +kernel))
      (by decide +kernel)

end Replication

end Creek.Mesh
