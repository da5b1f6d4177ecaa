import Creek.Proofs.Mesh.Convergence

/-! What the snapshot of a directory carries for one id, and what a directory does with it. -/

namespace Creek.Mesh

open Tight (Bytes)
open Library

/-- A table entry is the only one under its key. Witness: the entries of the table have
distinct keys, so any two that pass the filter are the same.
-/
theorem filter_toList {β : Type} (table : Std.TreeMap Bytes β) (key : Bytes)
    : (table.toList.filter fun entry => entry.1 = key) =
      (table[key]?).toList.map fun value => (key, value) := by
  have distinct : (table.toList.filter fun entry => entry.1 = key).Nodup :=
    (table.distinct_keys_toList.imp fun different same => different (by simp [same])).filter _
  have mem : ∀ entry, entry ∈ table.toList.filter (fun entry => entry.1 = key)
      ↔ table[key]? = some entry.2 ∧ entry.1 = key := by
    intro entry
    rw [List.mem_filter, decide_eq_true_eq]
    constructor
    · rintro ⟨member, same⟩
      rw [← same]
      exact ⟨Std.TreeMap.mem_toList_iff_getElem?_eq_some.mp member, rfl⟩
    · rintro ⟨found, same⟩
      refine ⟨Std.TreeMap.mem_toList_iff_getElem?_eq_some.mpr ?_, same⟩
      rw [same]
      exact found
  rcases found : table[key]? with _ | value
  · refine List.eq_nil_iff_forall_not_mem.mpr fun entry member => ?_
    have present := ((mem entry).mp member).1
    rw [found] at present
    cases present
  · have same : ∀ entry ∈ table.toList.filter (fun entry => entry.1 = key), entry = (key, value) := by
      intro entry member
      obtain ⟨present, keyed⟩ := (mem entry).mp member
      exact Prod.ext keyed (Option.some.inj (present.symm.trans found))
    have member : (key, value) ∈ table.toList.filter (fun entry => entry.1 = key) :=
      (mem (key, value)).mpr ⟨found, rfl⟩
    generalize table.toList.filter (fun entry => entry.1 = key) = entries at *
    match entries, distinct with
    | [], _ => cases member
    | [entry], _ => rw [same entry (by simp)]; rfl
    | first :: second :: rest, distinct =>
        have equal := (same first (by simp)).trans (same second (by simp)).symm
        exact absurd equal (by simp [List.nodup_cons] at distinct; tauto)

@[simp] theorem updatesOf_append (endpointId : Bytes) (front back : List Message)
    : updatesOf endpointId (front ++ back) =
      updatesOf endpointId front ++ updatesOf endpointId back := by
  simp [updatesOf]

/-- The updates for an id among messages that are read off a list of keyed entries. -/
theorem updatesOf_map {α : Type} (message : α → Message) (key : α → Bytes) (entries : List α)
    (endpointId : Bytes) (own : ∀ entry ∈ entries, (message entry).endpointId = key entry)
    : updatesOf endpointId (entries.map message) =
      (entries.filter fun entry => key entry = endpointId).map fun entry =>
        (message entry).update := by
  induction entries with
  | nil => rfl
  | cons entry rest ih =>
      have first := own entry (by simp)
      have later := ih fun other member => own other (by simp [member])
      simp only [updatesOf] at later ⊢
      by_cases same : key entry = endpointId
      · simp [first, same, later]
      · simp [first, same, later]

namespace EndpointDirectory

variable {directory : EndpointDirectory} {endpointId : Bytes} {now : UInt64}

/-- Every record is stored under its own id, and none without an id. -/
def Keyed (directory : EndpointDirectory) : Prop :=
  ∀ (endpointId : Bytes) (endpoint : Endpoint), directory.endpoints[endpointId]? = some endpoint
    → endpoint.endpointId = endpointId

@[simp] theorem prune_endpoints : (directory.prune now).endpoints = directory.endpoints := rfl

theorem prune_tombstones
    : (directory.prune now).tombstones[endpointId]? =
      (directory.tombstones[endpointId]?).filter fun tombstone => !expired tombstone now := by
  simp [prune]

/-- The updates a snapshot carries for an id: its record and its tombstone, if any. -/
theorem updatesOf_snapshot (keyed : directory.Keyed) (sourceId : Bytes) (endpointId : Bytes)
    : updatesOf endpointId (directory.snapshot sourceId now).2.messages =
      (directory.endpoints[endpointId]?).toList.map .put
      ++ ((directory.prune now).tombstones[endpointId]?).toList.map fun tombstone =>
        .remove tombstone.version.toNat := by
  have records := updatesOf_map (fun entry : Bytes × Endpoint => .record entry.2) Prod.fst
    directory.endpoints.toList endpointId fun entry member =>
      keyed _ _ (Std.TreeMap.mem_toList_iff_getElem?_eq_some.mp member)
  have removals := updatesOf_map
    (fun entry : Bytes × Tombstone => .removal entry.1 entry.2.version entry.2.updatedMs) Prod.fst
    (directory.prune now).tombstones.toList endpointId fun _ _ => rfl
  rw [filter_toList, List.map_map] at records removals
  simp only [DirectorySnapshot.messages, snapshot, List.map_map]
  exact (updatesOf_append _ _ _).trans (congrArg₂ _ records removals)

/-- A replica that merges a snapshot applies to each register what the snapshot carries. -/
theorem mergeSnapshot_register {replica : EndpointDirectory} (keyed : directory.Keyed)
    (named : endpointId ≠ []) (sourceId : Bytes) (taken merged : UInt64)
    : (replica.mergeSnapshot (directory.snapshot sourceId taken).2 merged).1.register endpointId =
      ((directory.endpoints[endpointId]?).toList.map Update.put
        ++ ((directory.prune taken).tombstones[endpointId]?).toList.map fun tombstone : Tombstone =>
          Update.remove tombstone.version.toNat).foldl
        (Register.apply stamp stampVersion) (replica.register endpointId) := by
  rw [mergeSnapshot_eq, foldl_register named, updatesOf_snapshot keyed]

end EndpointDirectory

end Creek.Mesh
