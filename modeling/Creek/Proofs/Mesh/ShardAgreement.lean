import Creek.Proofs.Mesh.LiveRouting
import Creek.Proofs.Mesh.Snapshots
import Mathlib

/-! Shard routing at two leaves. A pick takes a position in the list of a service, and the list follows
the iteration order of an unordered map, in which two leaves with the same records may differ.
-/

namespace Creek.Mesh

open Library
open Tight (Bytes TimePoint)

-- The records of a service

/-- Whatever a directory has received, it keeps every record under its own id. -/
theorem Delivery.receiveAll_keyed (deliveries : List (Delivery × UInt64))
    : (receiveAll deliveries).Keyed := by
  intro endpointId endpoint found
  have held : ((receiveAll deliveries).register endpointId).held = some endpoint := found
  by_cases named : endpointId = []
  · subst named
    rw [receiveAll_unnamed] at held
    cases held
  · have put := (settled_receiveAll named deliveries).held_mem endpoint held
    obtain ⟨message, member, same⟩ := List.mem_map.mp put
    have own := of_decide_eq_true (List.mem_filter.mp member).2
    cases message with
    | record other =>
        cases same
        exact own
    | removal _ _ _ => cases same

namespace EndpointDirectory

variable {directory left right : EndpointDirectory} {name : Bytes}

theorem Keyed.nodup_ids (keyed : directory.Keyed) (name : Bytes)
    : ((directory.service name).map Endpoint.endpointId).Nodup := by
  have ids : (directory.endpoints.toList.map Prod.snd).map Endpoint.endpointId =
      directory.endpoints.keys := by
    rw [List.map_map, ← Std.TreeMap.map_fst_toList_eq_keys]
    refine List.map_congr_left fun entry member => ?_
    exact keyed _ _ (Std.TreeMap.mem_toList_iff_getElem?_eq_some.mp member)
  have sublist : ((directory.service name).map Endpoint.endpointId).Sublist
      directory.endpoints.keys := by
    rw [← ids]
    exact List.filter_sublist.map _
  exact List.Nodup.sublist sublist directory.endpoints.nodup_keys

/-- The directories hold the same set of records for a service. -/
def SameService (left right : EndpointDirectory) (name : Bytes) : Prop :=
  ∀ endpoint, endpoint ∈ left.service name ↔ endpoint ∈ right.service name

/-- The list that a directory gives for a service, in some iteration order of its map. -/
def Lists (directory : EndpointDirectory) (name : Bytes) (endpoints : List Endpoint) : Prop :=
  endpoints.Perm (directory.service name)

theorem SameService.perm (same : SameService left right name) (leftKeyed : left.Keyed)
    (rightKeyed : right.Keyed)
    : (left.service name).Perm (right.service name) :=
  (List.perm_ext_iff_of_nodup (leftKeyed.nodup_ids name).of_map (rightKeyed.nodup_ids name).of_map).mpr
    same

end EndpointDirectory

-- Two leaves

namespace StickyBalancer

open EndpointDirectory Delivery

variable {hash : Bytes → UInt64} {metadata : Metadata} {shard : Bytes}
  {endpoints left right : List Endpoint}

/-- The id of the endpoint a pick returns. -/
def pickedId (hash : Bytes → UInt64) (service : Bytes) (metadata : Metadata)
    (endpoints : List Endpoint) (now : TimePoint) (balancer : StickyBalancer)
    : Option Bytes :=
  (balancer.pick hash service metadata endpoints now).2.map Endpoint.endpointId

/-- The id of the endpoint at the position of a shard key. -/
def shardId (hash : Bytes → UInt64) (shard : Bytes) (endpoints : List Endpoint) : Option Bytes :=
  (endpoints[(hash shard).toNat % endpoints.length]?).map Endpoint.endpointId

/-- With a shard key neither the sessions nor the round robin have a say. -/
theorem pickedId_shard (keyed : metadataShardKey metadata = some shard) (service : Bytes)
    (now : TimePoint) (balancer : StickyBalancer)
    : balancer.pickedId hash service metadata endpoints now = shardId hash shard endpoints := by
  by_cases nonempty : endpoints = []
  · subst nonempty
    rfl
  · have bound : (hash shard).toNat % endpoints.length < endpoints.length :=
      Nat.mod_lt _ (List.length_pos_iff.mpr nonempty)
    rw [pickedId, pick_endpoint nonempty, keyed, position, keyed, shardId,
      List.getElem?_eq_getElem bound]
    simp only [List.getD_eq_getElem?_getD, List.getElem?_eq_getElem bound, Option.getD_some,
      Option.map_some]

/-- Turning a list of two or more endpoints puts another one at every position. -/
theorem shardId_rotate_ne (distinct : (endpoints.map Endpoint.endpointId).Nodup)
    (many : 2 ≤ endpoints.length)
    : shardId hash shard endpoints ≠ shardId hash shard (endpoints.rotate 1) := by
  obtain ⟨index, eq⟩ : ∃ index, index = (hash shard).toNat % endpoints.length := ⟨_, rfl⟩
  have bound : index < endpoints.length := eq ▸ Nat.mod_lt _ (by omega)
  have next : (index + 1) % endpoints.length < endpoints.length := Nat.mod_lt _ (by omega)
  rw [shardId, shardId, List.length_rotate, ← eq, List.getElem?_rotate bound,
    ← List.getElem?_map, ← List.getElem?_map,
    List.getElem?_eq_getElem (by rwa [List.length_map]),
    List.getElem?_eq_getElem (by rwa [List.length_map])]
  intro same
  have position : index = (index + 1) % endpoints.length :=
    distinct.getElem_inj_iff.mp (Option.some.inj same)
  rcases Nat.lt_or_ge (index + 1) endpoints.length with inside | last
  · rw [Nat.mod_eq_of_lt inside] at position
    omega
  · rw [show index + 1 = endpoints.length by omega, Nat.mod_self] at position
    omega

/-- Two leaves that hold the same records for a service, whatever they have received in whatever order,
pick the same endpoint by a shard key exactly when the same endpoint stands at its position in their
lists; they always do exactly when the service has at most one endpoint.
-/
theorem shard_agrees_iff (keyed : metadataShardKey metadata = some shard) (service : Bytes)
    (name : Bytes) (history : List (Delivery × UInt64))
    : (∀ left right (first second : StickyBalancer) firstNow secondNow,
        first.pickedId hash service metadata left firstNow
            = second.pickedId hash service metadata right secondNow
          ↔ shardId hash shard left = shardId hash shard right)
      ∧ ((∀ other left right (first second : StickyBalancer) firstNow secondNow,
          SameService (receiveAll history) (receiveAll other) name
          → (receiveAll history).Lists name left
          → (receiveAll other).Lists name right
          → first.pickedId hash service metadata left firstNow
            = second.pickedId hash service metadata right secondNow)
        ↔ ((receiveAll history).service name).length ≤ 1) := by
  refine ⟨fun left right first second firstNow secondNow => ?_, ?_, ?_⟩
  · rw [pickedId_shard keyed, pickedId_shard keyed]
  · intro agree
    by_contra many
    have picked := agree history _ _ {} {} 0 0 (fun _ => .rfl) .rfl (List.rotate_perm _ 1)
    rw [pickedId_shard keyed, pickedId_shard keyed] at picked
    exact shardId_rotate_ne ((receiveAll_keyed history).nodup_ids name) (by omega) picked
  · intro few other left right first second firstNow secondNow same lists lists'
    have perm : left.Perm right :=
      lists.trans ((same.perm (receiveAll_keyed history) (receiveAll_keyed other)).trans lists'.symm)
    have equal : left = right := by
      rcases left with _ | ⟨only, _ | ⟨next, rest⟩⟩
      · exact (List.nil_perm.mp perm).symm
      · exact List.singleton_perm.mp perm
      · have length := lists.length_eq
        rw [List.length_cons, List.length_cons] at length
        omega
    rw [equal, pickedId_shard keyed, pickedId_shard keyed]

/-- Two endpoints of a service, in the order of their ids. -/
def twoEndpoints : List Endpoint :=
  [{ endpointId := [1], service := [7] }, { endpointId := [2], service := [7] }]

/-- The calls that merge the two endpoints, one after the other. -/
def twoMerges : List (Delivery × UInt64) := twoEndpoints.map fun endpoint => (.record endpoint, 0)

/-- A call with a shard key. -/
def sharded : Metadata := (∅ : Metadata).insert "shard_key".toUTF8.toList [1]

theorem shard_agrees_iff_twoEndpoints
    : (∀ left right (first second : StickyBalancer) firstNow secondNow,
        first.pickedId (fun _ => 0) [7] sharded left firstNow
            = second.pickedId (fun _ => 0) [7] sharded right secondNow
          ↔ shardId (fun _ => 0) [1] left = shardId (fun _ => 0) [1] right)
      ∧ ((∀ other left right (first second : StickyBalancer) firstNow secondNow,
          SameService (receiveAll twoMerges) (receiveAll other) [7]
          → (receiveAll twoMerges).Lists [7] left
          → (receiveAll other).Lists [7] right
          → first.pickedId (fun _ => 0) [7] sharded left firstNow
            = second.pickedId (fun _ => 0) [7] sharded right secondNow)
        ↔ ((receiveAll twoMerges).service [7]).length ≤ 1) :=
  shard_agrees_iff (by decide +kernel) [7] [7] twoMerges

/-- Two leaves merge the same two endpoints in opposite orders, and their maps list them so: whatever
the hash, every pick of one differs from every pick of the other.
-/
theorem shard_disagrees
    : SameService (receiveAll twoMerges) (receiveAll twoMerges.reverse) [7]
      ∧ (receiveAll twoMerges).Lists [7] twoEndpoints
      ∧ (receiveAll twoMerges.reverse).Lists [7] twoEndpoints.reverse
      ∧ ∀ (hash : Bytes → UInt64) (service : Bytes) (first second : StickyBalancer)
          (firstNow secondNow : TimePoint),
        first.pickedId hash service sharded twoEndpoints firstNow
          ≠ second.pickedId hash service sharded twoEndpoints.reverse secondNow := by
  have service : (receiveAll twoMerges).service [7] = twoEndpoints := by decide +kernel
  have reversed : (receiveAll twoMerges.reverse).service [7] = twoEndpoints := by decide +kernel
  have keyed : metadataShardKey sharded = some [1] := by decide +kernel
  refine ⟨fun endpoint => ?_, ?_, ?_, fun hash name first second firstNow secondNow => ?_⟩
  · rw [service, reversed]
  · rw [EndpointDirectory.Lists, service]
  · rw [EndpointDirectory.Lists, reversed]
    exact List.reverse_perm _
  · rw [pickedId_shard keyed, pickedId_shard keyed]
    exact @shardId_rotate_ne hash [1] twoEndpoints (by decide) (by decide)

end StickyBalancer

end Creek.Mesh
