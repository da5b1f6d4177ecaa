import Creek.Library.Runs
import Creek.Mesh.Node
import Creek.Proofs.Mesh.Snapshots

/-! What the handlers of a node do to its directory, id by id, and what every run keeps. -/

namespace Creek.Mesh

open Tight (Bytes LinkRole LinkState PeerEvent)
open Library

-- Stamps

/-- How many of the records belong to a leaf. -/
def ownedCount (leafId : Bytes) (endpoints : List Endpoint) : Nat :=
  endpoints.countP fun endpoint => endpoint.ownerLeaf = leafId

/-- The version that a counter gives after a number of earlier stamps. -/
def stampAt (counter : UInt64) (earlier : Nat) : UInt64 := counter + UInt64.ofNat (earlier + 1)

@[simp] theorem stampAt_zero (counter : UInt64) : stampAt counter 0 = counter + 1 := rfl

/-- One stamp taken from a counter leaves the later ones the same. -/
@[simp] theorem stampAt_succ (counter : UInt64) (earlier : Nat)
    : stampAt (counter + 1) earlier = stampAt counter (earlier + 1) := by
  rw [stampAt, stampAt, UInt64.ofNat_add (earlier + 1) 1, UInt64.add_comm (UInt64.ofNat _),
    UInt64.add_assoc]
  rfl

theorem stampAt_add (counter : UInt64) (taken earlier : Nat)
    : stampAt (counter + UInt64.ofNat taken) earlier = stampAt counter (taken + earlier) := by
  rw [stampAt, stampAt, UInt64.add_assoc, ← UInt64.ofNat_add, Nat.add_assoc]

section

variable {leafId : Bytes} {mark : Endpoint → Endpoint} {now : UInt64}

/-- The record at its place in a list, after the stamping. -/
def stampedRecord (leafId : Bytes) (mark : Endpoint → Endpoint) (now counter : UInt64)
    (earlier : List Endpoint) (endpoint : Endpoint)
    : Endpoint :=
  if endpoint.ownerLeaf = leafId then
    {
      mark endpoint with
      version := stampAt counter (ownedCount leafId earlier)
      updatedMs := now
    }
  else endpoint

/-- Stamping takes one version of the counter for each record of the leaf. -/
theorem stampOwned_counter (counter : UInt64) (endpoints : List Endpoint)
    : (stampOwned leafId mark now counter endpoints).1 =
      counter + UInt64.ofNat (ownedCount leafId endpoints) := by
  induction endpoints generalizing counter with
  | nil => simp [stampOwned, ownedCount]
  | cons endpoint rest ih =>
      by_cases own : endpoint.ownerLeaf = leafId
      · have counted : ownedCount leafId (endpoint :: rest) = ownedCount leafId rest + 1 := by
          simp [ownedCount, own]
        simp only [stampOwned, own, if_true, ih, counted]
        rw [UInt64.ofNat_add, UInt64.add_assoc, UInt64.add_comm 1]
        rfl
      · have counted : ownedCount leafId (endpoint :: rest) = ownedCount leafId rest := by
          simp [ownedCount, own]
        simp only [stampOwned, own, if_false, ih, counted]

theorem stampOwned_split (counter : UInt64) (earlier later : List Endpoint) (endpoint : Endpoint)
    : ∃ after,
        (stampOwned leafId mark now counter (earlier ++ endpoint :: later)).2 =
          (stampOwned leafId mark now counter earlier).2
          ++ stampedRecord leafId mark now counter earlier endpoint
          :: (stampOwned leafId mark now after later).2 := by
  induction earlier generalizing counter with
  | nil =>
      by_cases own : endpoint.ownerLeaf = leafId
      · exact ⟨counter + 1, by simp [stampOwned, stampedRecord, own, ownedCount]⟩
      · exact ⟨counter, by simp [stampOwned, stampedRecord, own]⟩
  | cons first rest ih =>
      by_cases own : first.ownerLeaf = leafId
      · obtain ⟨after, split⟩ := ih (counter + 1)
        have same : stampedRecord leafId mark now (counter + 1) rest endpoint =
            stampedRecord leafId mark now counter (first :: rest) endpoint := by
          simp [stampedRecord, ownedCount, own]
        exact ⟨after, by simp [stampOwned, own, split, same]⟩
      · obtain ⟨after, split⟩ := ih counter
        have same : stampedRecord leafId mark now counter rest endpoint =
            stampedRecord leafId mark now counter (first :: rest) endpoint := by
          simp [stampedRecord, ownedCount, own]
        exact ⟨after, by simp [stampOwned, own, split, same]⟩

theorem stampOwned_ids (keeps : ∀ endpoint, (mark endpoint).endpointId = endpoint.endpointId)
    (counter : UInt64) (endpoints : List Endpoint)
    : (stampOwned leafId mark now counter endpoints).2.map Endpoint.endpointId =
      endpoints.map Endpoint.endpointId := by
  induction endpoints generalizing counter with
  | nil => rfl
  | cons endpoint rest ih =>
      by_cases own : endpoint.ownerLeaf = leafId
      · simp [stampOwned, own, ih, keeps]
      · simp [stampOwned, own, ih]

theorem stampedRecord_id (keeps : ∀ endpoint, (mark endpoint).endpointId = endpoint.endpointId)
    (counter : UInt64) (earlier : List Endpoint) (endpoint : Endpoint)
    : (stampedRecord leafId mark now counter earlier endpoint).endpointId = endpoint.endpointId := by
  rw [stampedRecord]
  split
  · exact keeps endpoint
  · rfl

theorem updatesOf_unlisted {endpoints : List Endpoint} {endpointId : Bytes}
    (unlisted : endpointId ∉ endpoints.map Endpoint.endpointId)
    : updatesOf endpointId (endpoints.map .record) = [] := by
  rw [updatesOf_map _ Endpoint.endpointId _ _ fun _ _ => rfl]
  refine List.map_eq_nil_iff.mpr (List.filter_eq_nil_iff.mpr fun endpoint member same => ?_)
  exact unlisted (List.mem_map.mpr ⟨endpoint, member, of_decide_eq_true same⟩)

/-- Stamped records with distinct ids hold one update for the id of each of them. -/
theorem updatesOf_stampOwned
    (keeps : ∀ endpoint, (mark endpoint).endpointId = endpoint.endpointId)
    {counter : UInt64} {earlier later : List Endpoint} {endpoint : Endpoint}
    (distinct : ((earlier ++ endpoint :: later).map Endpoint.endpointId).Nodup)
    : updatesOf endpoint.endpointId
        ((stampOwned leafId mark now counter (earlier ++ endpoint :: later)).2.map .record) =
      [.put (stampedRecord leafId mark now counter earlier endpoint)] := by
  obtain ⟨after, split⟩ := @stampOwned_split leafId mark now counter earlier later endpoint
  rw [List.map_append, List.map_cons, List.nodup_append, List.nodup_cons] at distinct
  obtain ⟨-, ⟨absent, -⟩, apart⟩ := distinct
  have before : endpoint.endpointId ∉ earlier.map Endpoint.endpointId := fun member =>
    apart _ member _ (by simp) rfl
  have own := @stampedRecord_id leafId mark now keeps counter earlier endpoint
  rw [split, List.map_append, List.map_cons, ← List.singleton_append, updatesOf_append,
    updatesOf_append, updatesOf_unlisted, updatesOf_unlisted]
  · simp [updatesOf, Message.endpointId, Message.update, own]
  · rwa [stampOwned_ids keeps]
  · rwa [stampOwned_ids keeps]

theorem stampRemoved_mem (counter : UInt64) (earlier later : List Bytes) (endpointId : Bytes)
    : {
        endpointId := endpointId
        version := stampAt counter earlier.length
        updatedMs := now
      } ∈ (stampRemoved now counter (earlier ++ endpointId :: later)).2 := by
  induction earlier generalizing counter with
  | nil => exact List.mem_cons_self
  | cons first rest ih =>
      have later := ih (counter + 1)
      rw [stampAt_succ] at later
      exact List.mem_cons_of_mem _ later

theorem of_mem_stampRemoved {counter : UInt64} {endpointIds : List Bytes} {removed : Endpoint}
    (member : removed ∈ (stampRemoved now counter endpointIds).2)
    : ∃ earlier later, endpointIds = earlier ++ removed.endpointId :: later
      ∧ removed.version = stampAt counter earlier.length := by
  induction endpointIds generalizing counter with
  | nil => cases member
  | cons first rest ih =>
      rcases List.mem_cons.mp member with rfl | later
      · exact ⟨[], rest, rfl, rfl⟩
      · obtain ⟨earlier, behind, split, version⟩ := ih later
        exact ⟨first :: earlier, behind, by rw [split]; rfl, by rw [version, stampAt_succ]; rfl⟩

end

theorem updatesOf_removals (removed : List Endpoint) (endpointId : Bytes)
    : updatesOf endpointId (removed.map fun shell =>
        .removal shell.endpointId shell.version shell.updatedMs) =
      ((removed.filter fun shell => shell.endpointId = endpointId).map fun shell =>
        shell.version.toNat).map .remove := by
  rw [updatesOf_map _ Endpoint.endpointId _ _ fun _ _ => rfl, List.map_map]
  rfl

-- Sound directories

namespace EndpointDirectory

/-- Records lie under their own ids, none without an id, and each above its tombstone. -/
structure Sound (directory : EndpointDirectory) : Prop where
  keyed : directory.Keyed
  unnamed : directory.endpoints[([] : Bytes)]? = none
  above : ∀ endpointId, (directory.register endpointId).Sound stamp stampVersion

variable {directory : EndpointDirectory}

theorem Sound.initial : ({} : EndpointDirectory).Sound where
  keyed := fun endpointId endpoint => by simp
  unnamed := by simp
  above := fun endpointId => by simp [Register.Sound]

/-- A message keeps a directory sound. Witness: only the register of its id changes, and a
record that is held afterwards was held before or is the one the message brings.
-/
theorem Sound.apply (sound : directory.Sound) (now : UInt64) (message : Message)
    : (message.apply now directory).Sound := by
  by_cases named : message.endpointId = []
  · rw [apply_unnamed message named]
    exact sound
  refine ⟨fun endpointId endpoint found => ?_, ?_, fun endpointId => ?_⟩
  · by_cases own : message.endpointId = endpointId
    · subst own
      have held : ((directory.register message.endpointId).apply stamp stampVersion
          message.update).held = some endpoint := by
        rw [← apply_register message named]
        exact found
      cases message with
      | record registration =>
          simp only [Message.update, Register.apply] at held
          split at held
          · obtain rfl := Option.some.inj held
            rfl
          · exact sound.keyed _ _ held
      | removal _ _ _ => exact sound.keyed _ _ (Option.mem_filter_iff.mp held).1
    · have same := congrArg Register.held
        (@apply_register_of_ne directory endpointId now message own)
      exact sound.keyed _ _ (same.symm.trans found)
  · exact (congrArg Register.held (apply_register_of_ne message named)).trans sound.unnamed
  · by_cases own : message.endpointId = endpointId
    · subst own
      rw [apply_register message named]
      exact (sound.above _).apply _
    · rw [apply_register_of_ne message own]
      exact sound.above endpointId

theorem Sound.mergeSnapshot (sound : directory.Sound) (snapshot : DirectorySnapshot) (now : UInt64)
    : (directory.mergeSnapshot snapshot now).1.Sound := by
  rw [mergeSnapshot_eq]
  induction snapshot.messages generalizing directory with
  | nil => exact sound
  | cons message rest ih => exact ih (sound.apply now message)

theorem Sound.prune (sound : directory.Sound) (now : UInt64) : (directory.prune now).Sound where
  keyed := sound.keyed
  unnamed := sound.unnamed
  above := by
    intro endpointId held holds floor known
    obtain ⟨tombstone, kept, rfl⟩ := Option.map_eq_some_iff.mp known
    rw [prune_tombstones] at kept
    have recorded := (Option.mem_filter_iff.mp kept).1
    exact sound.above endpointId held holds _ (Option.map_eq_some_iff.mpr ⟨tombstone, recorded, rfl⟩)

theorem mergeSnapshot_lookup {endpointId : Bytes} (named : endpointId ≠ [])
    (snapshot : DirectorySnapshot) (now : UInt64)
    : (directory.mergeSnapshot snapshot now).1.endpoints[endpointId]? =
      ((updatesOf endpointId snapshot.messages).foldl (Register.apply stamp stampVersion)
        (directory.register endpointId)).held := by
  rw [← foldl_register named, ← mergeSnapshot_eq]
  rfl

/-- Whether a record of an id with the given version and update time would be taken: it lies
above the tombstone and supersedes the record that is held.
-/
def Outranks (directory : EndpointDirectory) (endpointId : Bytes) (version updatedMs : UInt64)
    : Prop :=
  (∀ tombstone ∈ directory.tombstones[endpointId]?, tombstone.version < version)
  ∧ ∀ held ∈ directory.endpoints[endpointId]?,
    held.version < version ∨ held.version = version ∧ held.updatedMs < updatedMs

instance (directory : EndpointDirectory) (endpointId : Bytes) (version updatedMs : UInt64)
    : Decidable (directory.Outranks endpointId version updatedMs) :=
  inferInstanceAs (Decidable (_ ∧ _))

theorem outranks_iff {endpointId : Bytes} (endpoint : Endpoint)
    : directory.Outranks endpointId endpoint.version endpoint.updatedMs
      ↔ (directory.register endpointId).admits stamp stampVersion endpoint
        ∧ ∀ held ∈ (directory.register endpointId).held, stamp held < stamp endpoint := by
  have floors : (directory.register endpointId).admits stamp stampVersion endpoint
      ↔ ∀ tombstone ∈ directory.tombstones[endpointId]?, tombstone.version < endpoint.version := by
    rcases recorded : directory.tombstones[endpointId]? with _ | tombstone <;>
      simp [Register.admits, register, recorded, stampVersion, stamp, UInt64.lt_iff_toNat_lt]
  rw [Outranks, floors]
  refine and_congr_right fun _ => forall_congr' fun held => imp_congr_right fun _ => ?_
  rw [← supersedes_iff]
  simp only [supersedes, Bool.or_eq_true, Bool.and_eq_true, decide_eq_true_eq, gt_iff_lt,
    @eq_comm _ endpoint.version]

/-- Above a held record of a sound directory only that record counts. Witness: the tombstone
lies below the record.
-/
theorem Sound.outranks_iff (sound : directory.Sound) {endpointId : Bytes} {held : Endpoint}
    (holds : directory.endpoints[endpointId]? = some held) (version updatedMs : UInt64)
    : directory.Outranks endpointId version updatedMs
      ↔ held.version < version ∨ held.version = version ∧ held.updatedMs < updatedMs := by
  constructor
  · intro outranks
    exact outranks.2 held holds
  · intro above
    refine ⟨fun tombstone recorded => ?_, fun other found => ?_⟩
    · have below : tombstone.version.toNat < held.version.toNat :=
        sound.above endpointId held holds _
          (Option.map_eq_some_iff.mpr ⟨tombstone, recorded, rfl⟩)
      rcases above with newer | ⟨same, -⟩
      · exact UInt64.lt_trans (UInt64.lt_iff_toNat_lt.mpr below) newer
      · rw [← same]
        exact UInt64.lt_iff_toNat_lt.mpr below
    · obtain rfl := Option.some.inj (holds.symm.trans found)
      exact above

theorem put_held {endpointId : Bytes} (endpoint : Endpoint)
    : ((directory.register endpointId).apply stamp stampVersion (.put endpoint)).held =
      if directory.Outranks endpointId endpoint.version endpoint.updatedMs then some endpoint
      else directory.endpoints[endpointId]? := by
  simp only [Register.apply, outranks_iff]
  split
  · rfl
  · rfl

end EndpointDirectory

-- The snapshot of an attached leaf

/-- The snapshots a leaf sends: each endpoint once and with an id, and no removal of an endpoint
that is listed.
-/
structure DirectorySnapshot.WellFormed (snapshot : DirectorySnapshot) : Prop where
  distinct : (snapshot.endpoints.map Endpoint.endpointId).Nodup
  named : ∀ endpoint ∈ snapshot.endpoints, endpoint.endpointId ≠ []
  apart : ∀ removed ∈ snapshot.removedEndpoints,
    removed.endpointId ∉ snapshot.endpoints.map Endpoint.endpointId

instance (snapshot : DirectorySnapshot) : Decidable snapshot.WellFormed :=
  decidable_of_iff
    ((snapshot.endpoints.map Endpoint.endpointId).Nodup
      ∧ (∀ endpoint ∈ snapshot.endpoints, endpoint.endpointId ≠ [])
      ∧ ∀ removed ∈ snapshot.removedEndpoints,
        ∀ endpoint ∈ snapshot.endpoints, endpoint.endpointId ≠ removed.endpointId)
    ⟨fun parts => ⟨parts.1, parts.2.1, fun removed gone => List.forall_mem_ne'.mp
        (List.forall_mem_map.mpr (parts.2.2 removed gone))⟩,
      fun formed => ⟨formed.1, formed.2, fun removed gone _ member same =>
        formed.3 removed gone (same ▸ List.mem_map_of_mem member)⟩⟩

theorem mem_listedIds {leafId endpointId : Bytes} {snapshot : DirectorySnapshot}
    : endpointId ∈ listedIds leafId snapshot
      ↔ ∃ endpoint ∈ snapshot.endpoints, endpoint.ownerLeaf = leafId
        ∧ endpoint.endpointId = endpointId := by
  have fold : ∀ (endpoints : List Endpoint) (ids : Std.TreeSet Bytes),
      endpointId ∈ endpoints.foldl (fun ids endpoint =>
        if endpoint.ownerLeaf = leafId then ids.insert endpoint.endpointId else ids) ids
      ↔ endpointId ∈ ids ∨ ∃ endpoint ∈ endpoints, endpoint.ownerLeaf = leafId
        ∧ endpoint.endpointId = endpointId := by
    intro endpoints
    induction endpoints with
    | nil => simp
    | cons endpoint rest ih =>
        intro ids
        rw [List.foldl_cons, ih]
        by_cases own : endpoint.ownerLeaf = leafId
        · simp [own, Std.TreeSet.mem_insert, or_assoc, or_left_comm]
        · simp [own]
  rw [listedIds, fold]
  simp

namespace NodeRuntime

variable {node : NodeRuntime} {leafId : Bytes} {received : DirectorySnapshot} {now : UInt64}
  {order : List Bytes}

/-- What vanished is what the previous snapshot listed and the present one does not. -/
theorem mem_vanished {listed : Std.TreeSet Bytes} {endpointId : Bytes}
    : endpointId ∈ node.vanished leafId listed order
      ↔ (∃ previous, node.leafEndpoints[leafId]? = some previous ∧ endpointId ∈ previous)
        ∧ endpointId ∉ listed := by
  rw [vanished]
  rcases node.leafEndpoints[leafId]? with _ | previous
  · simp
  · simp [Std.TreeSet.mem_toList, ← Std.TreeSet.contains_iff_mem]

theorem exists_vanished {listed : Std.TreeSet Bytes} {arranged : List Bytes}
    (perm : arranged.Perm (node.vanished leafId listed []))
    : ∃ order, node.vanished leafId listed order = arranged := by
  refine ⟨arranged, ?_⟩
  rw [vanished] at perm ⊢
  rcases kept : node.leafEndpoints[leafId]? with _ | previous
  · rw [kept] at perm
    exact (List.perm_nil.mp perm).symm
  · rw [kept] at perm
    have met := perm.trans (walked_perm _ _ _)
    have distinct : previous.toList.Nodup :=
      previous.distinct_toList.imp fun different same => different (by simp [same])
    have nodup : (arranged.map id).Nodup := by
      rw [List.map_id, met.nodup_iff]
      exact distinct.filter _
    have walks := walked_eq nodup met
    rwa [List.map_id] at walks

/-- The removals that the snapshot of an attached leaf brings for an id: those it lists, and the
one that is stamped on the id if it has vanished.
-/
def Removes (node : NodeRuntime) (leafId : Bytes) (received : DirectorySnapshot) (order : List Bytes)
    (endpointId : Bytes) (version : UInt64)
    : Prop :=
  (∃ removed ∈ received.removedEndpoints, removed.endpointId = endpointId
    ∧ removed.version = version)
  ∨ ∃ earlier later,
    node.vanished leafId (listedIds leafId received) order = earlier ++ endpointId :: later
    ∧ version = stampAt node.versionCounter (ownedCount leafId received.endpoints + earlier.length)

/-- The removals for an id that the adopted snapshot carries. -/
def removalsOf (node : NodeRuntime) (leafId : Bytes) (received : DirectorySnapshot) (now : UInt64)
    (order : List Bytes) (endpointId : Bytes)
    : List Nat :=
  ((node.adoptSnapshot leafId received now order).2.removedEndpoints.filter fun shell =>
    shell.endpointId = endpointId).map fun shell => shell.version.toNat

theorem mem_removalsOf {endpointId : Bytes} {version : Nat}
    : version ∈ node.removalsOf leafId received now order endpointId
      ↔ ∃ removed, node.Removes leafId received order endpointId removed ∧ removed.toNat = version := by
  simp only [removalsOf, adoptSnapshot, List.mem_map, List.mem_filter, List.mem_append,
    decide_eq_true_eq]
  constructor
  · rintro ⟨shell, ⟨listed | stamped, rfl⟩, rfl⟩
    · exact ⟨shell.version, .inl ⟨shell, listed, rfl, rfl⟩, rfl⟩
    · obtain ⟨earlier, later, split, version⟩ := of_mem_stampRemoved stamped
      rw [stampOwned_counter, stampAt_add] at version
      exact ⟨shell.version, .inr ⟨earlier, later, split, version⟩, rfl⟩
  · rintro ⟨removed, ⟨shell, listed, own, rfl⟩ | ⟨earlier, later, split, rfl⟩, rfl⟩
    · exact ⟨shell, ⟨.inl listed, own⟩, rfl⟩
    · have stamped := @stampRemoved_mem now (node.versionCounter
        + UInt64.ofNat (ownedCount leafId received.endpoints)) earlier later endpointId
      rw [stampAt_add, ← split, ← stampOwned_counter] at stamped
      exact ⟨_, ⟨.inr stamped, rfl⟩, rfl⟩

/-- The record an attached leaf lists, as this node stamps it. -/
def adopted (node : NodeRuntime) (leafId : Bytes) (now : UInt64) (earlier : List Endpoint)
    (endpoint : Endpoint)
    : Endpoint :=
  stampedRecord leafId (fun endpoint => { endpoint with ownerNode := node.config.id }) now
    node.versionCounter earlier endpoint

/-- What the adopted snapshot carries for an id that is listed. -/
theorem updatesOf_adopted_listed (wellFormed : received.WellFormed) {earlier later : List Endpoint}
    {endpoint : Endpoint} (split : received.endpoints = earlier ++ endpoint :: later)
    : updatesOf endpoint.endpointId (node.adoptSnapshot leafId received now order).2.messages =
      .put (node.adopted leafId now earlier endpoint)
      :: (node.removalsOf leafId received now order endpoint.endpointId).map .remove := by
  have distinct := wellFormed.distinct
  rw [split] at distinct
  have records := @updatesOf_stampOwned leafId (fun endpoint =>
    { endpoint with ownerNode := node.config.id }) now (fun _ => rfl) node.versionCounter earlier
    later endpoint distinct
  rw [← split] at records
  rw [DirectorySnapshot.messages, updatesOf_append, updatesOf_removals]
  exact congrArg (· ++ _) records

/-- What the adopted snapshot carries for an id that is not listed. -/
theorem updatesOf_adopted_unlisted {endpointId : Bytes}
    (unlisted : endpointId ∉ received.endpoints.map Endpoint.endpointId)
    : updatesOf endpointId (node.adoptSnapshot leafId received now order).2.messages =
      (node.removalsOf leafId received now order endpointId).map .remove := by
  have records : updatesOf endpointId
      ((node.adoptSnapshot leafId received now order).2.endpoints.map .record) = [] := by
    refine updatesOf_unlisted ?_
    have same := @stampOwned_ids leafId (fun endpoint =>
      { endpoint with ownerNode := node.config.id }) now (fun _ => rfl) node.versionCounter
      received.endpoints
    rw [adoptSnapshot, same]
    exact unlisted
  rw [DirectorySnapshot.messages, updatesOf_append, updatesOf_removals, records]
  rfl

/-- What the snapshot of an attached leaf leaves under an id. -/
theorem handleDirectory_lookup (attached : node.leaves.contains leafId = true) {endpointId : Bytes}
    (named : endpointId ≠ [])
    : (node.handleDirectory leafId received now order).1.directory.endpoints[endpointId]? =
      ((updatesOf endpointId (node.adoptSnapshot leafId received now order).2.messages).foldl
        (Register.apply stamp stampVersion) (node.directory.register endpointId)).held := by
  rw [handleDirectory, if_pos attached]
  exact EndpointDirectory.mergeSnapshot_lookup named _ now

/-- What is left under an id that the snapshot lists: the record as it is stamped if it
outranks what the directory has, otherwise what was there, less what the removals reach.
-/
theorem handleDirectory_listed (attached : node.leaves.contains leafId = true)
    (wellFormed : received.WellFormed) {earlier later : List Endpoint} {endpoint : Endpoint}
    (split : received.endpoints = earlier ++ endpoint :: later)
    : (node.handleDirectory leafId received now order).1.directory.endpoints[endpoint.endpointId]? =
      (if node.directory.Outranks endpoint.endpointId
          (node.adopted leafId now earlier endpoint).version
          (node.adopted leafId now earlier endpoint).updatedMs then
        some (node.adopted leafId now earlier endpoint)
      else node.directory.endpoints[endpoint.endpointId]?).filter fun held =>
        ∀ removed ∈ node.removalsOf leafId received now order endpoint.endpointId,
          removed < held.version.toNat := by
  rw [handleDirectory_lookup attached (wellFormed.named endpoint (by simp [split])),
    updatesOf_adopted_listed wellFormed split, List.foldl_cons, Register.foldl_remove_held,
    EndpointDirectory.put_held]
  rfl

/-- What is left under an id that the snapshot does not list. -/
theorem handleDirectory_unlisted (attached : node.leaves.contains leafId = true)
    {endpointId : Bytes} (named : endpointId ≠ [])
    (unlisted : endpointId ∉ received.endpoints.map Endpoint.endpointId)
    : (node.handleDirectory leafId received now order).1.directory.endpoints[endpointId]? =
      (node.directory.endpoints[endpointId]?).filter fun held =>
        ∀ removed ∈ node.removalsOf leafId received now order endpointId,
          removed < held.version.toNat := by
  rw [handleDirectory_lookup attached named, updatesOf_adopted_unlisted unlisted,
    Register.foldl_remove_held]
  rfl

/-- What a leaf lists as its own is not removed by the same snapshot. -/
theorem removalsOf_own (wellFormed : received.WellFormed) {endpoint : Endpoint}
    (member : endpoint ∈ received.endpoints) (own : endpoint.ownerLeaf = leafId)
    : node.removalsOf leafId received now order endpoint.endpointId = [] := by
  refine List.eq_nil_iff_forall_not_mem.mpr fun version found => ?_
  obtain ⟨removed, removes, -⟩ := mem_removalsOf.mp found
  rcases removes with ⟨shell, listed, same, -⟩ | ⟨earlier, later, split, -⟩
  · refine wellFormed.apart shell listed ?_
    rw [same]
    exact List.mem_map_of_mem member
  · have absent : endpoint.endpointId ∈ node.vanished leafId (listedIds leafId received) order := by
      simp [split]
    exact (mem_vanished.mp absent).2 (mem_listedIds.mpr ⟨endpoint, member, own, rfl⟩)

/-- What is left under an id that the leaf lists as its own. -/
theorem handleDirectory_own (attached : node.leaves.contains leafId = true)
    (wellFormed : received.WellFormed) {earlier later : List Endpoint} {endpoint : Endpoint}
    (split : received.endpoints = earlier ++ endpoint :: later) (own : endpoint.ownerLeaf = leafId)
    : (node.handleDirectory leafId received now order).1.directory.endpoints[endpoint.endpointId]? =
      if node.directory.Outranks endpoint.endpointId
          (node.adopted leafId now earlier endpoint).version
          (node.adopted leafId now earlier endpoint).updatedMs then
        some (node.adopted leafId now earlier endpoint)
      else node.directory.endpoints[endpoint.endpointId]? := by
  have whole : ∀ kept : Option Endpoint,
      kept.filter (fun held => ∀ removed ∈ ([] : List Nat), removed < held.version.toNat) = kept := by
    intro kept
    cases kept <;> simp [Option.filter]
  rw [handleDirectory_listed attached wellFormed split,
    removalsOf_own wellFormed (by simp [split]) own]
  exact whole _

-- The revocation of a leaf

/-- A record of a closed leaf, as this node stamps it. -/
def revoked (node : NodeRuntime) (leafId : Bytes) (now : UInt64) (earlier : List Endpoint)
    (endpoint : Endpoint)
    : Endpoint :=
  stampedRecord leafId (fun endpoint => { endpoint with alive := false }) now node.versionCounter
    earlier endpoint

/-- The records of a directory, in the order in which a walk meets them. -/
def records (node : NodeRuntime) (order : List Bytes) : List Endpoint :=
  walked Endpoint.endpointId order (node.directory.endpoints.toList.map Prod.snd)

theorem mem_records (sound : node.directory.Sound) {endpoint : Endpoint}
    : endpoint ∈ node.records order
      ↔ node.directory.endpoints[endpoint.endpointId]? = some endpoint := by
  constructor
  · intro member
    obtain ⟨⟨key, _⟩, found, rfl⟩ := List.mem_map.mp (mem_walked.mp member)
    have held := Std.TreeMap.mem_toList_iff_getElem?_eq_some.mp found
    rwa [sound.keyed _ _ held]
  · intro held
    exact mem_walked.mpr (List.mem_map.mpr ⟨(endpoint.endpointId, endpoint),
      Std.TreeMap.mem_toList_iff_getElem?_eq_some.mpr held, rfl⟩)

theorem records_distinct (sound : node.directory.Sound)
    : ((node.records order).map Endpoint.endpointId).Nodup := by
  have keys : (node.directory.endpoints.toList.map Prod.snd).map Endpoint.endpointId =
      node.directory.endpoints.toList.map Prod.fst := by
    rw [List.map_map]
    refine List.map_congr_left fun entry member => ?_
    exact sound.keyed _ _ (Std.TreeMap.mem_toList_iff_getElem?_eq_some.mp member)
  rw [records, ((walked_perm _ order _).map Endpoint.endpointId).nodup_iff, keys, List.Nodup, List.pairwise_map]
  exact node.directory.endpoints.distinct_keys_toList.imp fun different same =>
    different (by simp [same])

theorem exists_records (sound : node.directory.Sound) {arranged : List Endpoint}
    (perm : arranged.Perm (node.records []))
    : ∃ order, node.records order = arranged := by
  have distinct := (perm.map Endpoint.endpointId).nodup_iff.mpr (records_distinct sound)
  exact ⟨arranged.map Endpoint.endpointId, walked_eq distinct (perm.trans (walked_perm _ _ _))⟩

/-- The snapshot that a revocation merges. -/
def revocation (node : NodeRuntime) (leafId : Bytes) (now : UInt64) (order : List Bytes)
    : DirectorySnapshot :=
  let snapshot := (node.directory.snapshot node.config.id now).2
  {
    snapshot with
    endpoints := (stampOwned leafId (fun endpoint => { endpoint with alive := false }) now
      node.versionCounter (node.records order)).2
  }

theorem revokeLeaf_endpoints (leafId : Bytes) (now : UInt64) (order : List Bytes) (node : NodeRuntime)
    : (node.revokeLeaf leafId now order).1.directory.endpoints =
      if (node.records order).any fun endpoint => endpoint.ownerLeaf = leafId then
        ((node.directory.prune now).mergeSnapshot (node.revocation leafId now order) now).1.endpoints
      else node.directory.endpoints := by
  by_cases owns : ((node.records order).any fun endpoint => endpoint.ownerLeaf = leafId) = true
  · rw [if_pos owns]
    rw [records] at owns
    simp only [revokeLeaf, EndpointDirectory.snapshot, EndpointDirectory.prune_endpoints, owns,
      if_true]
    rfl
  · rw [if_neg owns]
    rw [records] at owns
    simp only [revokeLeaf, EndpointDirectory.snapshot, EndpointDirectory.prune_endpoints, owns]
    rfl

/-- What the revocation of a leaf leaves under the id of a record: the record, marked dead and
stamped if it is the leaf's and the stamp outranks it.
-/
theorem revokeLeaf_held (sound : node.directory.Sound) {earlier later : List Endpoint}
    {endpoint : Endpoint} (split : node.records order = earlier ++ endpoint :: later)
    : (node.revokeLeaf leafId now order).1.directory.endpoints[endpoint.endpointId]? =
      some
        (if endpoint.ownerLeaf = leafId
            ∧ node.directory.Outranks endpoint.endpointId
              (node.revoked leafId now earlier endpoint).version
              (node.revoked leafId now earlier endpoint).updatedMs then
          node.revoked leafId now earlier endpoint
        else endpoint) := by
  have holds := (mem_records sound).mp (show endpoint ∈ node.records order by simp [split])
  have named : endpoint.endpointId ≠ [] := by
    intro unnamed
    rw [unnamed, sound.unnamed] at holds
    cases holds
  have pruned := sound.prune now
  have kept : ∀ version, endpoint.version ≤ version
      → ∀ removed ∈ ((node.revocation leafId now order).removedEndpoints.filter fun shell =>
        shell.endpointId = endpoint.endpointId).map fun shell => shell.version.toNat,
        removed < version.toNat := by
    intro version above removed member
    obtain ⟨shell, found, rfl⟩ := List.mem_map.mp member
    obtain ⟨listed, own⟩ := List.mem_filter.mp found
    obtain ⟨⟨key, tombstone⟩, recorded, rfl⟩ := List.mem_map.mp listed
    obtain rfl : key = endpoint.endpointId := of_decide_eq_true own
    have floor := Std.TreeMap.mem_toList_iff_getElem?_eq_some.mp recorded
    have below : tombstone.version.toNat < endpoint.version.toNat :=
      pruned.above endpoint.endpointId endpoint holds _
        (Option.map_eq_some_iff.mpr ⟨tombstone, floor, rfl⟩)
    exact below.trans_le (UInt64.le_iff_toNat_le.mp above)
  rw [revokeLeaf_endpoints]
  split
  · have distinct := @records_distinct node order sound
    rw [split] at distinct
    have records : updatesOf endpoint.endpointId ((node.revocation leafId now order).endpoints.map .record)
        = [.put (node.revoked leafId now earlier endpoint)] := by
      rw [revocation, split]
      exact @updatesOf_stampOwned leafId (fun endpoint => { endpoint with alive := false }) now
        (fun _ => rfl) _ _ _ _ distinct
    have outranks : (node.directory.prune now).Outranks endpoint.endpointId
          (node.revoked leafId now earlier endpoint).version
          (node.revoked leafId now earlier endpoint).updatedMs
        ↔ endpoint.ownerLeaf = leafId ∧ node.directory.Outranks endpoint.endpointId
          (node.revoked leafId now earlier endpoint).version
          (node.revoked leafId now earlier endpoint).updatedMs := by
      rw [pruned.outranks_iff holds, sound.outranks_iff holds]
      refine (and_iff_right_of_imp fun above => ?_).symm
      by_contra foreign
      have same : node.revoked leafId now earlier endpoint = endpoint := if_neg foreign
      rw [same] at above
      exact above.elim (UInt64.lt_irrefl _) fun both => UInt64.lt_irrefl _ both.2
    rw [EndpointDirectory.mergeSnapshot_lookup named, DirectorySnapshot.messages, updatesOf_append,
      updatesOf_removals]
    rw [records, List.singleton_append, List.foldl_cons, Register.foldl_remove_held,
      EndpointDirectory.put_held]
    simp only [outranks, EndpointDirectory.prune_endpoints, holds]
    split
    · rename_i taken
      have newer := (sound.outranks_iff holds _ _).mp taken.2
      refine Option.filter_eq_some_iff.mpr ⟨rfl, decide_eq_true (kept _ ?_)⟩
      rcases newer with newer | ⟨same, -⟩
      · exact UInt64.le_of_lt newer
      · exact UInt64.le_of_eq same
    · exact Option.filter_eq_some_iff.mpr ⟨rfl, decide_eq_true (kept _ (UInt64.le_refl _))⟩
  · rename_i none
    have foreign : endpoint.ownerLeaf ≠ leafId := by
      intro own
      exact none (List.any_eq_true.mpr ⟨endpoint, by simp [split], decide_eq_true own⟩)
    rw [if_neg fun both => foreign both.1]
    exact holds

/-- A revocation brings no record for an id that the directory does not hold. -/
theorem revokeLeaf_absent (sound : node.directory.Sound) {endpointId : Bytes}
    (named : endpointId ≠ []) (absent : node.directory.endpoints[endpointId]? = none)
    : (node.revokeLeaf leafId now order).1.directory.endpoints[endpointId]? = none := by
  rw [revokeLeaf_endpoints]
  split
  · have unlisted : endpointId ∉ (node.revocation leafId now order).endpoints.map Endpoint.endpointId := by
      intro member
      rw [revocation, @stampOwned_ids leafId (fun endpoint => { endpoint with alive := false }) now
        fun _ => rfl] at member
      obtain ⟨endpoint, listed, rfl⟩ := List.mem_map.mp member
      rw [(mem_records sound).mp listed] at absent
      cases absent
    have held : ((node.directory.prune now).register endpointId).held = none := absent
    rw [EndpointDirectory.mergeSnapshot_lookup named, DirectorySnapshot.messages, updatesOf_append,
      updatesOf_removals, updatesOf_unlisted unlisted, List.nil_append, Register.foldl_remove_held,
      held]
    rfl
  · exact absent

/-- Where the closing of a leaf leads: a revocation, if the leaf is attached. -/
theorem onPeerEvent_closed {event : PeerEvent} (role : event.role = .leaf)
    (shut : event.state = .closed)
    : (node.onPeerEvent event now order).1.directory.endpoints =
      if node.leaves.contains event.id then (node.revokeLeaf event.id now order).1.directory.endpoints
      else node.directory.endpoints := by
  rw [onPeerEvent, role]
  dsimp only
  rw [if_pos shut]
  split
  · rw [revokeLeaf_endpoints, revokeLeaf_endpoints]
    rfl
  · rfl

-- Runs

/-- One reaction as a step of a run; it cannot fail. -/
def step (node : NodeRuntime) (event : NodeEvent) : Except Empty (NodeRuntime × List Push) :=
  .ok (node.react event)

theorem step_after {event : NodeEvent} {after : NodeRuntime} {outputs : List Push}
    (taken : node.step event = .ok (after, outputs))
    : after = (node.react event).1 :=
  (congrArg Prod.fst (Except.ok.inj taken)).symm

theorem broadcastSnapshot_sound (sound : node.directory.Sound)
    : (node.broadcastSnapshot now).1.directory.Sound :=
  sound.prune now

theorem handleDirectory_sound (sound : node.directory.Sound) (peerId : Bytes)
    : (node.handleDirectory peerId received now order).1.directory.Sound := by
  rw [handleDirectory]
  split
  · exact (sound.mergeSnapshot _ now).prune now
  · dsimp only
    split
    · exact (sound.mergeSnapshot _ now).prune now
    · exact sound.mergeSnapshot _ now

theorem revokeLeaf_sound (sound : node.directory.Sound)
    : (node.revokeLeaf leafId now order).1.directory.Sound := by
  rw [revokeLeaf]
  dsimp only [EndpointDirectory.snapshot]
  split
  · exact ((sound.prune now).mergeSnapshot _ now).prune now
  · exact sound.prune now

theorem react_sound (sound : node.directory.Sound) (event : NodeEvent)
    : (node.react event).1.directory.Sound := by
  cases event with
  | peer event now order =>
      rw [react, onPeerEvent]
      split
      · split
        · split
          · exact revokeLeaf_sound sound
          · exact sound
        · exact sound
      · split
        · exact sound
        · exact sound
  | directory peerId received now order => exact handleDirectory_sound sound peerId
  | sync now => exact broadcastSnapshot_sound sound
  | nodeDiscovered nodeId =>
      rw [react, discoverNode]
      split
      · exact sound
      · exact sound
  | leafDiscovered leafId => exact sound

theorem run_sound {allowed : List (Stage NodeRuntime NodeEvent Push) → NodeRuntime → NodeEvent → Prop}
    {config : NodeConfig} {history : List (Stage NodeRuntime NodeEvent Push)} {state : NodeRuntime}
    (run : Run step allowed (start config now) history state)
    : state.directory.Sound := by
  refine run.invariant (fun _ state => state.directory.Sound) EndpointDirectory.Sound.initial ?_
  intro history state event after outputs _ sound _ taken
  rw [step_after taken]
  exact react_sound sound event

end NodeRuntime

end Creek.Mesh
