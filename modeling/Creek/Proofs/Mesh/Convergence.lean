import Creek.Library.LastWriter
import Creek.Mesh.Directory
import Mathlib

/-! Directories that have received the same records and removals agree.
For one id a directory is a last-writer-wins register: its stamp is the version and then the
update time, its floor the version of the tombstone.
-/

namespace Creek.Mesh

open Tight (Bytes)
open Library

/-- A record or a removal, as it reaches a directory. -/
inductive Message where
  | record (endpoint : Endpoint)
  | removal (endpointId : Bytes) (version updatedMs : UInt64)
  deriving DecidableEq, Repr

namespace Message

def endpointId : Message → Bytes
  | record endpoint => endpoint.endpointId
  | removal endpointId _ _ => endpointId

/-- One message at a directory. -/
def apply (now : UInt64) (message : Message) (directory : EndpointDirectory) : EndpointDirectory :=
  match message with
  | record endpoint => (directory.merge endpoint).1
  | removal endpointId version updatedMs =>
      (directory.applyRemoval endpointId version updatedMs now).1

/-- What a message is for the register of its id. -/
def update : Message → Update Endpoint Nat
  | record endpoint => .put endpoint
  | removal _ version _ => .remove version.toNat

end Message

/-- The messages of a snapshot, in the order they are merged. -/
def DirectorySnapshot.messages (snapshot : DirectorySnapshot) : List Message :=
  snapshot.endpoints.map .record
  ++ snapshot.removedEndpoints.map fun removed =>
    .removal removed.endpointId removed.version removed.updatedMs

/-- The updates a list of messages holds for one id. -/
def updatesOf (endpointId : Bytes) (messages : List Message) : List (Update Endpoint Nat) :=
  (messages.filter fun message => message.endpointId = endpointId).map Message.update

/-- The order of records of one id: by version, then by update time. -/
def stamp (endpoint : Endpoint) : Nat ×ₗ Nat :=
  toLex (endpoint.version.toNat, endpoint.updatedMs.toNat)

/-- The version in a stamp. -/
def stampVersion (stamp : Nat ×ₗ Nat) : Nat := (ofLex stamp).1

theorem stampVersion_monotone : Monotone stampVersion := fun _ _ below =>
  Prod.Lex.monotone_fst _ _ below

/-- The code's rule for replacing a record is the order of stamps. -/
theorem supersedes_iff (endpoint existing : Endpoint)
    : EndpointDirectory.supersedes endpoint existing = true ↔ stamp existing < stamp endpoint := by
  simp only [EndpointDirectory.supersedes, stamp, Prod.Lex.toLex_lt_toLex, Bool.or_eq_true,
    Bool.and_eq_true, decide_eq_true_eq, gt_iff_lt, UInt64.lt_iff_toNat_lt, ← UInt64.toNat_inj]
  constructor
  · rintro (newer | ⟨same, later⟩)
    · exact .inl newer
    · exact .inr ⟨same.symm, later⟩
  · rintro (newer | ⟨same, later⟩)
    · exact .inl newer
    · exact .inr ⟨same.symm, later⟩

namespace EndpointDirectory

/-- The register a directory keeps for an id. -/
def register (directory : EndpointDirectory) (endpointId : Bytes) : Register Endpoint Nat where
  held := directory.endpoints[endpointId]?
  floor := (directory.tombstones[endpointId]?).map fun tombstone => tombstone.version.toNat

theorem mergeSnapshot_eq (snapshot : DirectorySnapshot) (now : UInt64)
    (directory : EndpointDirectory)
    : (directory.mergeSnapshot snapshot now).1 =
      snapshot.messages.foldl (fun directory message => message.apply now directory) directory := by
  have records : ∀ (endpoints : List Endpoint) (state : EndpointDirectory × Bool),
      (endpoints.foldl (fun state endpoint =>
        ((state.1.merge endpoint).1, state.2 || (state.1.merge endpoint).2)) state).1 =
      endpoints.foldl (fun directory endpoint => (directory.merge endpoint).1) state.1 := by
    intro endpoints
    induction endpoints with
    | nil => exact fun _ => rfl
    | cons endpoint rest ih => exact fun _ => ih _
  have removals : ∀ (removed : List Endpoint) (state : EndpointDirectory × Bool),
      (removed.foldl (fun state removed =>
        ((state.1.applyRemoval removed.endpointId removed.version removed.updatedMs now).1,
          state.2 ||
            (state.1.applyRemoval removed.endpointId removed.version removed.updatedMs now).2))
        state).1 =
      removed.foldl (fun directory removed =>
        (directory.applyRemoval removed.endpointId removed.version removed.updatedMs now).1)
        state.1 := by
    intro removed
    induction removed with
    | nil => exact fun _ => rfl
    | cons removed rest ih => exact fun _ => ih _
  simp only [mergeSnapshot, removals, records, DirectorySnapshot.messages, List.foldl_append,
    List.foldl_map, Message.apply]

variable {directory : EndpointDirectory} {endpointId : Bytes} {now : UInt64}

@[simp] theorem register_empty : ({} : EndpointDirectory).register endpointId = {} := by
  simp [register]

theorem apply_register_of_ne (message : Message) (other : message.endpointId ≠ endpointId)
    : (message.apply now directory).register endpointId = directory.register endpointId := by
  rcases message with endpoint | ⟨removedId, version, updatedMs⟩
  · simp only [Message.endpointId] at other
    simp only [Message.apply, merge]
    split
    · rfl
    · split
      · rfl
      · split
        · simp [store, register, Std.TreeMap.getElem?_insert, other]
        · split
          · simp [store, register, Std.TreeMap.getElem?_insert, other]
          · rfl
  · simp only [Message.endpointId] at other
    simp only [Message.apply, applyRemoval]
    split
    · rfl
    · split <;> split <;>
        simp [register, Std.TreeMap.getElem?_insert, Std.TreeMap.getElem?_erase, other]

theorem merge_register (endpoint : Endpoint) (named : endpoint.endpointId ≠ [])
    : (directory.merge endpoint).1.register endpoint.endpointId =
      (directory.register endpoint.endpointId).apply stamp stampVersion (.put endpoint) := by
  have admits : (directory.register endpoint.endpointId).admits stamp stampVersion endpoint
      ↔ ¬(directory.tombstones[endpoint.endpointId]?).any (fun tombstone =>
        endpoint.version ≤ tombstone.version) = true := by
    rcases known : directory.tombstones[endpoint.endpointId]? with _ | tombstone
    · simp [Register.admits, register, known]
    · simp [Register.admits, register, known, stamp, stampVersion, UInt64.le_iff_toNat_le]
  have stored : (directory.store endpoint).register endpoint.endpointId =
      { directory.register endpoint.endpointId with held := some endpoint } := by
    simp [store, register]
  simp only [merge, List.isEmpty_iff, named, if_false, Register.apply, admits]
  split
  · rename_i refused
    rw [if_neg fun both => both.1 refused]
  · rename_i admitted
    split
    · rename_i absent
      have newest : ∀ held ∈ (directory.register endpoint.endpointId).held,
          stamp held < stamp endpoint := by
        simp [register, absent]
      rw [if_pos ⟨admitted, newest⟩, stored]
    · rename_i existing present
      have holds : (directory.register endpoint.endpointId).held = some existing := present
      by_cases newer : supersedes endpoint existing
      · have newest : ∀ held ∈ (directory.register endpoint.endpointId).held,
            stamp held < stamp endpoint := by
          intro held member
          obtain rfl : existing = held := Option.some.inj (holds.symm.trans member)
          exact (supersedes_iff endpoint existing).mp newer
        rw [if_pos newer, if_pos ⟨admitted, newest⟩, stored]
      · have older : ¬∀ held ∈ (directory.register endpoint.endpointId).held,
            stamp held < stamp endpoint :=
          fun newest => newer ((supersedes_iff endpoint existing).mpr (newest existing holds))
        rw [if_neg newer, if_neg fun both => older both.2]

theorem applyRemoval_register (named : endpointId ≠ []) (version updatedMs : UInt64)
    : (directory.applyRemoval endpointId version updatedMs now).1.register endpointId =
      (directory.register endpointId).apply stamp stampVersion (.remove version.toNat) := by
  have kept : (if (directory.endpoints[endpointId]?).any fun existing => existing.version ≤ version
      then none else directory.endpoints[endpointId]?) =
      (directory.endpoints[endpointId]?).filter fun held =>
        version.toNat < stampVersion (stamp held) := by
    rcases directory.endpoints[endpointId]? with _ | existing
    · rfl
    · by_cases below : existing.version ≤ version
      · have small := UInt64.le_iff_toNat_le.mp below
        simp [Option.filter, stamp, stampVersion, below, Nat.not_lt.mpr small]
      · have large := mt UInt64.le_iff_toNat_le.mpr below
        simp [Option.filter, stamp, stampVersion, below, Nat.lt_of_not_le large]
  have known : (∃ floor ∈ (directory.register endpointId).floor, version.toNat ≤ floor)
      ↔ (directory.tombstones[endpointId]?).any (fun tombstone => version ≤ tombstone.version)
        = true := by
    rcases recorded : directory.tombstones[endpointId]? with _ | tombstone
    · simp [register, recorded]
    · simp [register, recorded, UInt64.le_iff_toNat_le]
  rw [Register.apply, show (directory.register endpointId).held = directory.endpoints[endpointId]?
    from rfl, ← kept]
  simp only [applyRemoval, List.isEmpty_iff, named, if_false, known]
  rcases erased : (directory.endpoints[endpointId]?).any fun existing =>
    existing.version ≤ version with _ | _
  all_goals
    rcases recorded : (directory.tombstones[endpointId]?).any fun tombstone =>
      version ≤ tombstone.version with _ | _
    · simp [erased, recorded, register]
    · simp [erased, recorded, register]

theorem apply_register (message : Message) (named : message.endpointId ≠ [])
    : (message.apply now directory).register message.endpointId =
      (directory.register message.endpointId).apply stamp stampVersion message.update := by
  cases message with
  | record endpoint => exact merge_register endpoint named
  | removal endpointId version updatedMs => exact applyRemoval_register named version updatedMs

theorem apply_unnamed (message : Message) (unnamed : message.endpointId = [])
    : message.apply now directory = directory := by
  rcases message with endpoint | ⟨removedId, version, updatedMs⟩
  · simp only [Message.endpointId] at unnamed
    simp [Message.apply, merge, unnamed]
  · simp only [Message.endpointId] at unnamed
    simp [Message.apply, applyRemoval, unnamed]

/-- Messages in a row apply their updates to the register of an id. -/
theorem foldl_register (named : endpointId ≠ []) (messages : List Message)
    : (messages.foldl (fun directory message => message.apply now directory) directory).register
        endpointId =
      (updatesOf endpointId messages).foldl (Register.apply stamp stampVersion)
        (directory.register endpointId) := by
  induction messages generalizing directory with
  | nil => rfl
  | cons message rest ih =>
      rw [List.foldl_cons, ih]
      by_cases own : message.endpointId = endpointId
      · subst own
        simp [updatesOf, apply_register message named]
      · simp [updatesOf, own, apply_register_of_ne message own]

end EndpointDirectory

-- Deliveries

/-- A call through which a directory receives messages. -/
inductive Delivery where
  | record (endpoint : Endpoint)
  | snapshot (received : DirectorySnapshot)
  | removal (endpointId : Bytes) (version updatedMs : UInt64)
  deriving DecidableEq, Repr

namespace Delivery

/-- The messages a call carries. -/
def messages : Delivery → List Message
  | .record endpoint => [.record endpoint]
  | .snapshot received => received.messages
  | .removal endpointId version updatedMs => [.removal endpointId version updatedMs]

/-- The call at a directory, at an instant. -/
def receive (now : UInt64) (delivery : Delivery) (directory : EndpointDirectory)
    : EndpointDirectory :=
  match delivery with
  | .record endpoint => (directory.merge endpoint).1
  | .snapshot received => (directory.mergeSnapshot received now).1
  | .removal endpointId version updatedMs =>
      (directory.applyRemoval endpointId version updatedMs now).1

theorem receive_eq (now : UInt64) (delivery : Delivery) (directory : EndpointDirectory)
    : delivery.receive now directory =
      delivery.messages.foldl (fun directory message => message.apply now directory) directory := by
  cases delivery with
  | record endpoint => rfl
  | snapshot received => exact EndpointDirectory.mergeSnapshot_eq received now directory
  | removal endpointId version updatedMs => rfl

/-- The directory that starts empty and receives the given calls, each at its instant. -/
def receiveAll (deliveries : List (Delivery × UInt64)) : EndpointDirectory :=
  deliveries.foldl (fun directory delivery => delivery.1.receive delivery.2 directory) {}

/-- Whether the given calls carry the whole of a collection and nothing else, in any order and
grouping and with any repetitions.
-/
def Cover (collection : List Message) (deliveries : List (Delivery × UInt64)) : Prop :=
  ∀ message, message ∈ deliveries.flatMap (fun delivery => delivery.1.messages)
    ↔ message ∈ collection

/-- No two different records of one id share version and update time. -/
def Distinct (collection : List Message) : Prop :=
  ∀ left right, .record left ∈ collection → .record right ∈ collection
    → left.endpointId = right.endpointId
    → left.version = right.version
    → left.updatedMs = right.updatedMs
    → left = right

theorem settled_receiveAll {endpointId : Bytes} (named : endpointId ≠ [])
    (deliveries : List (Delivery × UInt64))
    : Settled stamp stampVersion
        (updatesOf endpointId (deliveries.flatMap fun delivery => delivery.1.messages))
        ((receiveAll deliveries).register endpointId) := by
  have run : ∀ directory : EndpointDirectory,
      (deliveries.foldl (fun directory delivery => delivery.1.receive delivery.2 directory)
        directory).register endpointId =
      (updatesOf endpointId (deliveries.flatMap fun delivery => delivery.1.messages)).foldl
        (Register.apply stamp stampVersion) (directory.register endpointId) := by
    induction deliveries with
    | nil => exact fun _ => rfl
    | cons delivery rest ih =>
        intro directory
        rw [List.foldl_cons, ih, receive_eq, EndpointDirectory.foldl_register named]
        simp [updatesOf]
  rw [receiveAll, run, EndpointDirectory.register_empty]
  exact (Settled.nil stamp stampVersion).foldl stampVersion_monotone _

theorem receiveAll_unnamed (deliveries : List (Delivery × UInt64))
    : (receiveAll deliveries).register [] = {} := by
  have keep : ∀ (now : UInt64) (messages : List Message) (directory : EndpointDirectory),
      directory.register [] = {}
      → (messages.foldl (fun directory message => message.apply now directory) directory).register
        [] = {} := by
    intro now messages
    induction messages with
    | nil => exact fun _ empty => empty
    | cons message rest ih =>
        intro directory empty
        refine ih _ ?_
        beta_reduce
        by_cases unnamed : message.endpointId = []
        · rwa [EndpointDirectory.apply_unnamed message unnamed]
        · rwa [EndpointDirectory.apply_register_of_ne message unnamed]
  have run : ∀ directory : EndpointDirectory, directory.register [] = {}
      → (deliveries.foldl (fun directory delivery => delivery.1.receive delivery.2 directory)
        directory).register [] = {} := by
    induction deliveries with
    | nil => exact fun _ empty => empty
    | cons delivery rest ih =>
        intro directory empty
        refine ih _ ?_
        beta_reduce
        rw [receive_eq]
        exact keep _ _ _ empty
  exact run {} EndpointDirectory.register_empty

/-- Two directories that have received the same collection hold the same records and the same
tombstone versions.
-/
theorem directories_converge (collection : List Message)
    {first second : List (Delivery × UInt64)} (distinct : Distinct collection)
    (firstWhole : Cover collection first) (secondWhole : Cover collection second) (endpointId : Bytes)
    : (receiveAll first).endpoints[endpointId]? = (receiveAll second).endpoints[endpointId]?
      ∧ ((receiveAll first).tombstones[endpointId]?).map Tombstone.version =
        ((receiveAll second).tombstones[endpointId]?).map Tombstone.version := by
  have agree : (receiveAll first).register endpointId = (receiveAll second).register endpointId := by
    by_cases named : endpointId = []
    · subst named
      rw [receiveAll_unnamed, receiveAll_unnamed]
    · refine (settled_receiveAll named first).unique (settled_receiveAll named second) ?_ ?_
      · intro update
        simp only [updatesOf, List.mem_map, List.mem_filter, firstWhole _, secondWhole _]
      · intro left right hasLeft hasRight same
        have find : ∀ endpoint, .put endpoint ∈ updatesOf endpointId
            (first.flatMap fun delivery => delivery.1.messages)
            → .record endpoint ∈ collection ∧ endpoint.endpointId = endpointId := by
          intro endpoint member
          obtain ⟨message, found, same⟩ := List.mem_map.mp member
          obtain ⟨found, own⟩ := List.mem_filter.mp found
          cases message with
          | record other =>
              obtain rfl : other = endpoint := by simpa [Message.update] using same
              exact ⟨(firstWhole _).mp found, of_decide_eq_true own⟩
          | removal _ _ _ => cases same
        obtain ⟨leftIn, leftId⟩ := find left hasLeft
        obtain ⟨rightIn, rightId⟩ := find right hasRight
        have parts : left.version.toNat = right.version.toNat
            ∧ left.updatedMs.toNat = right.updatedMs.toNat :=
          Prod.mk.inj (toLex.injective same)
        exact distinct left right leftIn rightIn (leftId.trans rightId.symm)
          (UInt64.toNat_inj.mp parts.1) (UInt64.toNat_inj.mp parts.2)
  refine ⟨congrArg Register.held agree, ?_⟩
  have floors : ((receiveAll first).tombstones[endpointId]?).map (fun tombstone =>
      tombstone.version.toNat) = ((receiveAll second).tombstones[endpointId]?).map
      (fun tombstone => tombstone.version.toNat) := congrArg Register.floor agree
  have injective : Function.Injective UInt64.toNat := fun _ _ same => UInt64.toNat_inj.mp same
  refine Option.map_injective injective ?_
  simpa [Option.map_map, Function.comp_def] using floors

/-- A registration and its removal, and the same in the other order. -/
theorem directories_converge_swapped
    : ((receiveAll [(.record { endpointId := [1], version := 2 }, 5), (.removal [1] 3 0, 6)]).endpoints[
        ([1] : Bytes)]?) =
      (receiveAll [(.removal [1] 3 0, 6), (.record { endpointId := [1], version := 2 }, 5)]).endpoints[
        ([1] : Bytes)]? :=
  (directories_converge
    [.record { endpointId := [1], version := 2 }, .removal [1] 3 0]
    (by intro left right; simp +contextual) (by intro message; simp [messages])
    (by intro message; simp [messages, or_comm]) [1]).1

end Delivery

end Creek.Mesh
