import Creek.Proofs.Mesh.NodeDirectory
import Mathlib

/-! The authority of a node over its leaves.
The node stamps what its leaves list with versions of a counter of its own; the directory
compares them with the versions of other nodes and leaves. The node has its way exactly where
its stamps outrank what the directory has.
-/

namespace Creek.Mesh

open Tight (Bytes LinkRole LinkState PeerEvent)
open Library

/-- The history of a node. -/
abbrev NodeHistory := List (Stage NodeRuntime NodeEvent Push)

/-- The snapshot an event brings from a peer. -/
def NodeEvent.snapshotOf (peerId : Bytes) : NodeEvent → Option DirectorySnapshot
  | .directory source received _ _ => if source = peerId then some received else none
  | _ => none

/-- Whether an event closes the link of a leaf. -/
def NodeEvent.closes (leafId : Bytes) : NodeEvent → Prop
  | .peer event _ _ => event.role = .leaf ∧ event.state = .closed ∧ event.id = leafId
  | _ => False

instance (leafId : Bytes) (event : NodeEvent) : Decidable (event.closes leafId) := by
  cases event <;> unfold NodeEvent.closes <;> infer_instance

/-- The last snapshot of a peer. -/
def previousSnapshot (peerId : Bytes) (history : NodeHistory) : Option DirectorySnapshot :=
  history.reverse.findSome? fun stage => stage.event.snapshotOf peerId

/-- The last snapshot of a leaf, if the leaf was attached when it came and has not been closed
since.
-/
def standingSnapshot (leafId : Bytes) (history : NodeHistory) : Option DirectorySnapshot :=
  history.foldl
    (fun standing stage =>
      match stage.event.snapshotOf leafId with
      | some received => if stage.before.leaves.contains leafId then some received else none
      | none => if stage.event.closes leafId then none else standing)
    none

/-- Whether a snapshot lists an id as the leaf's. -/
def DirectorySnapshot.Lists (snapshot : DirectorySnapshot) (leafId endpointId : Bytes) : Prop :=
  ∃ endpoint ∈ snapshot.endpoints, endpoint.ownerLeaf = leafId ∧ endpoint.endpointId = endpointId

/-- Whether no snapshot has shown the id registered by another leaf. -/
def Exclusive (leafId endpointId : Bytes) (history : NodeHistory) : Prop :=
  ∀ stage ∈ history, ∀ peerId received now order, stage.event = .directory peerId received now order
    → ∀ endpoint ∈ received.endpoints, endpoint.endpointId = endpointId
    → endpoint.ownerLeaf = leafId

/-- The snapshots of attached leaves are well-formed. -/
def Honest (_ : NodeHistory) (node : NodeRuntime) (event : NodeEvent) : Prop :=
  ∀ leafId received now order, event = .directory leafId received now order
    → node.leaves.contains leafId = true
    → received.WellFormed

/-- A held record shows what the leaf listed, under this node. -/
structure Endpoint.Shows (held endpoint : Endpoint) (nodeId : Bytes) : Prop where
  ownerLeaf : held.ownerLeaf = endpoint.ownerLeaf
  ownerNode : held.ownerNode = nodeId
  service : held.service = endpoint.service
  target : held.target = endpoint.target
  alive : held.alive = endpoint.alive

/-- The authority of the node at one event: what an attached leaf lists is in the directory,
what it no longer lists is not, and nothing of a closed leaf is alive under this node.
-/
structure Authority (front : NodeHistory) (stage : Stage NodeRuntime NodeEvent Push) : Prop where
  listed : ∀ leafId received now order, stage.event = .directory leafId received now order
    → stage.before.leaves.contains leafId = true
    → ∀ endpoint ∈ received.endpoints, endpoint.ownerLeaf = leafId
    → Exclusive leafId endpoint.endpointId (front ++ [stage])
    → ∃ held, (stage.before.react stage.event).1.directory.find endpoint.endpointId = some held
      ∧ held.Shows endpoint stage.before.config.id
  vanished : ∀ leafId received now order previous endpointId,
    stage.event = .directory leafId received now order
    → stage.before.leaves.contains leafId = true
    → previousSnapshot leafId front = some previous
    → previous.Lists leafId endpointId
    → ¬received.Lists leafId endpointId
    → Exclusive leafId endpointId (front ++ [stage])
    → (stage.before.react stage.event).1.directory.find endpointId = none
  closed : ∀ leafId, stage.event.closes leafId
    → ∀ endpointId held,
      (stage.before.react stage.event).1.directory.find endpointId = some held
    → held.ownerLeaf = leafId
    → held.ownerNode = stage.before.config.id
    → held.alive = false

/-- The ids that a leaf dropped from one snapshot to the next, in the order of a walk. -/
def droppedIds (leafId : Bytes) (previous received : DirectorySnapshot) (order : List Bytes)
    : List Bytes :=
  walked id order ((listedIds leafId previous).toList.filter fun endpointId =>
    !(listedIds leafId received).contains endpointId)

/-- When the stamps of the node prevail at one event. A listed record has to outrank what the
directory has for its id, unless that shows the same. A dropped id has to be one the node still
goes by, with a stamp that reaches the held record, unless a removal listed by the leaf does.
The records of a closed leaf have to be outranked, and the leaf to be attached.
-/
structure Prevails (front : NodeHistory) (stage : Stage NodeRuntime NodeEvent Push) : Prop where
  listed : ∀ leafId received now order, stage.event = .directory leafId received now order
    → stage.before.leaves.contains leafId = true
    → ∀ earlier endpoint later, received.endpoints = earlier ++ endpoint :: later
    → endpoint.ownerLeaf = leafId
    → Exclusive leafId endpoint.endpointId (front ++ [stage])
    → stage.before.directory.Outranks endpoint.endpointId
        (stampAt stage.before.versionCounter (ownedCount leafId earlier)) now
      ∨ ∃ held, stage.before.directory.find endpoint.endpointId = some held
        ∧ held.Shows endpoint stage.before.config.id
  vanished : ∀ leafId received now order previous endpointId,
    stage.event = .directory leafId received now order
    → stage.before.leaves.contains leafId = true
    → previousSnapshot leafId front = some previous
    → previous.Lists leafId endpointId
    → ¬received.Lists leafId endpointId
    → Exclusive leafId endpointId (front ++ [stage])
    → ∀ held, stage.before.directory.find endpointId = some held
    → (∃ removed ∈ received.removedEndpoints, removed.endpointId = endpointId
        ∧ held.version ≤ removed.version)
      ∨ standingSnapshot leafId front = some previous
        ∧ ∃ earlier later, droppedIds leafId previous received order = earlier ++ endpointId :: later
          ∧ held.version ≤ stampAt stage.before.versionCounter
            (ownedCount leafId received.endpoints + earlier.length)
  closed : ∀ event now order, stage.event = .peer event now order
    → stage.event.closes event.id
    → ∀ earlier held later, stage.before.records order = earlier ++ held :: later
    → held.ownerLeaf = event.id
    → held.ownerNode = stage.before.config.id
    → held.alive = true
    → stage.before.leaves.contains event.id = true
      ∧ stage.before.directory.Outranks held.endpointId
        (stampAt stage.before.versionCounter (ownedCount event.id earlier)) now

-- What the node goes by

theorem previousSnapshot_append (peerId : Bytes) (history : NodeHistory)
    (stage : Stage NodeRuntime NodeEvent Push)
    : previousSnapshot peerId (history ++ [stage]) =
      (stage.event.snapshotOf peerId).or (previousSnapshot peerId history) := by
  rcases found : stage.event.snapshotOf peerId with _ | received <;>
    simp [previousSnapshot, found]

theorem standingSnapshot_append (leafId : Bytes) (history : NodeHistory)
    (stage : Stage NodeRuntime NodeEvent Push)
    : standingSnapshot leafId (history ++ [stage]) =
      match stage.event.snapshotOf leafId with
      | some received => if stage.before.leaves.contains leafId then some received else none
      | none => if stage.event.closes leafId then none else standingSnapshot leafId history := by
  simp [standingSnapshot]

theorem previousSnapshot_of_standing {leafId : Bytes} {history : NodeHistory}
    {standing : DirectorySnapshot} (stands : standingSnapshot leafId history = some standing)
    : previousSnapshot leafId history = some standing := by
  induction history using List.reverseRecOn with
  | nil => cases stands
  | append_singleton history stage ih =>
      rw [standingSnapshot_append] at stands
      rw [previousSnapshot_append]
      rcases found : stage.event.snapshotOf leafId with _ | received
      · simp only [found] at stands
        split at stands
        · cases stands
        · exact ih stands
      · simp only [found] at stands
        split at stands
        · exact stands
        · cases stands

namespace NodeRuntime

/-- The ids a node keeps for its leaves are those of the snapshots it goes by, and it keeps
them for attached leaves only.
-/
structure Stands (history : NodeHistory) (node : NodeRuntime) : Prop where
  kept : ∀ leafId, node.leafEndpoints[leafId]? =
    (standingSnapshot leafId history).map (listedIds leafId)
  attached : ∀ leafId ids, node.leafEndpoints[leafId]? = some ids
    → node.leaves.contains leafId = true

variable {node : NodeRuntime} {history : NodeHistory} {leafId : Bytes} {now : UInt64}
  {order : List Bytes}

@[simp] theorem revokeLeaf_leafEndpoints
    : (node.revokeLeaf leafId now order).1.leafEndpoints = node.leafEndpoints.erase leafId := by
  rw [revokeLeaf]
  dsimp only [EndpointDirectory.snapshot]
  split <;> rfl

@[simp] theorem revokeLeaf_leaves : (node.revokeLeaf leafId now order).1.leaves = node.leaves := by
  rw [revokeLeaf]
  dsimp only [EndpointDirectory.snapshot]
  split <;> rfl

@[simp] theorem handleDirectory_leaves {received : DirectorySnapshot}
    : (node.handleDirectory leafId received now order).1.leaves = node.leaves := by
  rw [handleDirectory]
  split
  · rfl
  · dsimp only
    split <;> rfl

/-- A node takes note of the ids an attached leaf lists, and of no others. -/
theorem handleDirectory_leafEndpoints {received : DirectorySnapshot}
    : (node.handleDirectory leafId received now order).1.leafEndpoints =
      if node.leaves.contains leafId then
        node.leafEndpoints.insert leafId (listedIds leafId received)
      else node.leafEndpoints := by
  rw [handleDirectory]
  split
  · rfl
  · dsimp only
    split <;> rfl

/-- The snapshot of a peer keeps the node in step with its history. -/
theorem Stands.directory (stands : node.Stands history) (peerId : Bytes)
    (received : DirectorySnapshot) {outputs : List Push}
    : (node.handleDirectory peerId received now order).1.Stands
        (history ++ [{ before := node, event := .directory peerId received now order, outputs }]) := by
  constructor
  · intro leafId
    rw [handleDirectory_leafEndpoints, standingSnapshot_append]
    by_cases own : peerId = leafId
    · subst own
      simp only [NodeEvent.snapshotOf, if_true]
      rcases known : node.leaves.contains peerId with _ | _
      · rcases kept : node.leafEndpoints[peerId]? with _ | ids
        · simpa using kept
        · have attached := stands.attached peerId ids kept
          rw [known] at attached
          cases attached
      · simp
    · have other := stands.kept leafId
      simp only [NodeEvent.snapshotOf, own, if_false, NodeEvent.closes]
      split
      · simpa [Std.TreeMap.getElem?_insert, own] using other
      · exact other
  · intro leafId ids kept
    rw [handleDirectory_leaves]
    rw [handleDirectory_leafEndpoints] at kept
    by_cases own : peerId = leafId
    · subst own
      rcases known : node.leaves.contains peerId with _ | _
      · rw [known] at kept
        exact known ▸ stands.attached peerId ids kept
      · rfl
    · refine stands.attached leafId ids ?_
      split at kept
      · simpa [Std.TreeMap.getElem?_insert, own] using kept
      · exact kept

/-- An event that neither brings a snapshot nor closes a leaf keeps the node in step, when it
only adds to the attached leaves.
-/
theorem Stands.quiet (stands : node.Stands history) {event : NodeEvent} {outputs : List Push}
    {after : NodeRuntime} (silent : ∀ leafId, event.snapshotOf leafId = none)
    (open_ : ∀ leafId, event.closes leafId → node.leafEndpoints[leafId]? = none)
    (same : after.leafEndpoints = node.leafEndpoints)
    (more : ∀ leafId, node.leaves.contains leafId = true → after.leaves.contains leafId = true)
    : after.Stands (history ++ [{ before := node, event, outputs }]) := by
  constructor
  · intro leafId
    rw [standingSnapshot_append, same]
    simp only [silent leafId]
    split
    · rename_i closes
      rw [open_ leafId closes]
      rfl
    · exact stands.kept leafId
  · intro leafId ids kept
    rw [same] at kept
    exact more leafId (stands.attached leafId ids kept)

theorem Stands.close (stands : node.Stands history) {event : PeerEvent} {outputs : List Push}
    (closes : NodeEvent.closes event.id (.peer event now order))
    : (revokeLeaf event.id now order { node with leaves := node.leaves.erase event.id }).1.Stands
        (history ++ [{ before := node, event := .peer event now order, outputs }]) := by
  constructor
  · intro leafId
    rw [standingSnapshot_append, revokeLeaf_leafEndpoints]
    simp only [NodeEvent.snapshotOf]
    by_cases own : event.id = leafId
    · subst own
      simp [closes]
    · have others : ¬NodeEvent.closes leafId (.peer event now order) := fun both => own both.2.2
      rw [if_neg others, ← stands.kept leafId]
      simp [Std.TreeMap.getElem?_erase, own]
  · intro leafId ids kept
    rw [revokeLeaf_leafEndpoints] at kept
    rw [revokeLeaf_leaves]
    by_cases own : event.id = leafId
    · subst own
      simp at kept
    · have earlier : node.leafEndpoints[leafId]? = some ids := by
        simpa [Std.TreeMap.getElem?_erase, own] using kept
      simpa [Std.TreeSet.contains_erase, own] using stands.attached leafId ids earlier

theorem Stands.react (stands : node.Stands history) (event : NodeEvent) {outputs : List Push}
    : (node.react event).1.Stands (history ++ [{ before := node, event, outputs }]) := by
  cases event with
  | directory peerId received now order => exact stands.directory peerId received
  | sync now => exact stands.quiet (fun _ => rfl) (fun _ closes => closes.elim) rfl fun _ => id
  | nodeDiscovered nodeId =>
      refine stands.quiet (fun _ => rfl) (fun _ closes => closes.elim) ?_ ?_
      · rw [NodeRuntime.react, discoverNode]
        split <;> rfl
      · rw [NodeRuntime.react, discoverNode]
        split <;> exact fun _ => id
  | leafDiscovered leafId =>
      refine stands.quiet (fun _ => rfl) (fun _ closes => closes.elim) rfl fun other known => ?_
      simp [NodeRuntime.react, discoverLeaf, Std.TreeSet.contains_insert, known]
  | peer event now order =>
      rw [NodeRuntime.react, onPeerEvent]
      rcases role : event.role with _ | _
      · by_cases shut : event.state = .closed
        · rcases known : node.leaves.contains event.id with _ | _
          · rw [if_pos shut, if_neg (by simp)]
            refine stands.quiet (fun _ => rfl) (fun leafId closes => ?_) rfl fun _ => id
            obtain rfl : event.id = leafId := closes.2.2
            rcases kept : node.leafEndpoints[event.id]? with _ | ids
            · rfl
            · have attached := stands.attached event.id ids kept
              rw [known] at attached
              cases attached
          · rw [if_pos shut, if_pos rfl]
            exact stands.close ⟨role, shut, rfl⟩
        · rw [if_neg shut]
          refine stands.quiet (fun _ => rfl) (fun _ closes => absurd closes.2.1 shut) rfl
            fun other attached => ?_
          simp [Std.TreeSet.contains_insert, attached]
      · have open_ : ∀ leafId, ¬NodeEvent.closes leafId (.peer event now order) := by
          intro leafId closes
          have leaf := closes.1
          rw [role] at leaf
          cases leaf
        dsimp only
        split
        · exact stands.quiet (fun _ => rfl) (fun _ closes => absurd closes (open_ _)) rfl
            fun _ => id
        · exact stands.quiet (fun _ => rfl) (fun _ closes => absurd closes (open_ _)) rfl
            fun _ => id

theorem run_stands {allowed : NodeHistory → NodeRuntime → NodeEvent → Prop} {config : NodeConfig}
    {state : NodeRuntime} (run : Run step allowed (start config now) history state)
    : state.Stands history := by
  refine run.invariant (fun history state => state.Stands history) ?_ ?_
  · exact ⟨fun leafId => by simp [start, standingSnapshot], fun leafId ids => by simp [start]⟩
  · intro history state event after outputs _ stands _ taken
    rw [step_after taken]
    exact stands.react event

-- Where the stamps prevail

variable {received : DirectorySnapshot}

/-- A listed record is shown afterwards exactly when its stamp outranks what the directory had,
or what it had shows the same.
-/
theorem listed_iff (attached : node.leaves.contains leafId = true)
    (wellFormed : received.WellFormed) {earlier later : List Endpoint} {endpoint : Endpoint}
    (split : received.endpoints = earlier ++ endpoint :: later) (own : endpoint.ownerLeaf = leafId)
    : (∃ held, (node.handleDirectory leafId received now order).1.directory.find endpoint.endpointId =
          some held
        ∧ held.Shows endpoint node.config.id)
      ↔ node.directory.Outranks endpoint.endpointId
          (stampAt node.versionCounter (ownedCount leafId earlier)) now
        ∨ ∃ held, node.directory.find endpoint.endpointId = some held
          ∧ held.Shows endpoint node.config.id := by
  have member : endpoint ∈ received.endpoints := by simp [split]
  have stamped : node.adopted leafId now earlier endpoint =
      {
        endpoint with
        ownerNode := node.config.id
        version := stampAt node.versionCounter (ownedCount leafId earlier)
        updatedMs := now
      } :=
    if_pos own
  have left : (node.handleDirectory leafId received now order).1.directory.find endpoint.endpointId =
      if node.directory.Outranks endpoint.endpointId
          (stampAt node.versionCounter (ownedCount leafId earlier)) now then
        some (node.adopted leafId now earlier endpoint)
      else node.directory.find endpoint.endpointId := by
    refine (handleDirectory_own attached wellFormed split own).trans ?_
    rw [stamped]
    rfl
  rw [left]
  by_cases outranks : node.directory.Outranks endpoint.endpointId
      (stampAt node.versionCounter (ownedCount leafId earlier)) now
  · rw [if_pos outranks]
    refine iff_of_true ⟨_, rfl, ?_⟩ (.inl outranks)
    rw [stamped]
    exact ⟨rfl, rfl, rfl, rfl, rfl⟩
  · rw [if_neg outranks]
    exact ⟨.inr, fun either => either.resolve_left outranks⟩

/-- The ids that the node finds dropped are those dropped since the snapshot it goes by. -/
theorem Stands.vanished_eq (stands : node.Stands history) (leafId : Bytes)
    (received : DirectorySnapshot)
    : node.vanished leafId (listedIds leafId received) order =
      match standingSnapshot leafId history with
      | none => []
      | some standing => droppedIds leafId standing received order := by
  rw [vanished, stands.kept]
  rcases standingSnapshot leafId history with _ | standing
  · rfl
  · rfl

/-- An id that is not listed any more is gone afterwards exactly when a removal reaches the
record that was held.
-/
theorem vanished_iff (sound : node.directory.Sound) (stands : node.Stands history)
    (attached : node.leaves.contains leafId = true) {previous : DirectorySnapshot}
    (last : previousSnapshot leafId history = some previous) {endpointId : Bytes}
    (unlisted : endpointId ∉ received.endpoints.map Endpoint.endpointId)
    : (node.handleDirectory leafId received now order).1.directory.find endpointId = none
      ↔ ∀ held, node.directory.find endpointId = some held
        → (∃ removed ∈ received.removedEndpoints, removed.endpointId = endpointId
            ∧ held.version ≤ removed.version)
          ∨ standingSnapshot leafId history = some previous
            ∧ ∃ earlier later, droppedIds leafId previous received order = earlier ++ endpointId :: later
              ∧ held.version ≤ stampAt node.versionCounter
                (ownedCount leafId received.endpoints + earlier.length) := by
  by_cases named : endpointId = []
  · subst named
    refine iff_of_true (handleDirectory_sound sound leafId).unnamed fun held holds => ?_
    rw [EndpointDirectory.find, sound.unnamed] at holds
    cases holds
  rw [EndpointDirectory.find, handleDirectory_unlisted attached named unlisted,
    Option.filter_eq_none_iff]
  refine forall_congr' fun held => imp_congr_right fun _ => ?_
  calc
    _ ↔ ∃ version, node.Removes leafId received order endpointId version ∧ held.version ≤ version := by
      rw [decide_eq_true_eq]
      push Not
      constructor
      · rintro ⟨version, member, below⟩
        obtain ⟨removed, removes, rfl⟩ := mem_removalsOf.mp member
        exact ⟨removed, removes, UInt64.le_iff_toNat_le.mpr below⟩
      · rintro ⟨removed, removes, below⟩
        exact ⟨removed.toNat, mem_removalsOf.mpr ⟨removed, removes, rfl⟩,
          UInt64.le_iff_toNat_le.mp below⟩
    _ ↔ _ := by
      simp only [Removes, stands.vanished_eq]
      constructor
      · rintro ⟨version, ⟨removed, listed, own, rfl⟩ | ⟨earlier, later, split, rfl⟩, below⟩
        · exact .inl ⟨removed, listed, own, below⟩
        · rcases stood : standingSnapshot leafId history with _ | standing
          · simp [stood] at split
          · obtain rfl := Option.some.inj (last.symm.trans (previousSnapshot_of_standing stood))
            rw [stood] at split
            exact .inr ⟨rfl, earlier, later, split, below⟩
      · rintro (⟨removed, listed, own, below⟩ | ⟨stood, earlier, later, split, below⟩)
        · exact ⟨removed.version, .inl ⟨removed, listed, own, rfl⟩, below⟩
        · exact ⟨_, .inr ⟨earlier, later, by rw [stood]; exact split, rfl⟩, below⟩

/-- Nothing of a closed leaf is alive under this node afterwards exactly when its records there
were outranked, and the leaf attached.
-/
theorem closed_iff (sound : node.directory.Sound) {event : PeerEvent}
    (closes : NodeEvent.closes event.id (.peer event now order))
    : (∀ (endpointId : Bytes) (held : Endpoint),
        (node.onPeerEvent event now order).1.directory.endpoints[endpointId]? = some held
        → held.ownerLeaf = event.id
        → held.ownerNode = node.config.id
        → held.alive = false)
      ↔ ∀ earlier held later, node.records order = earlier ++ held :: later
        → held.ownerLeaf = event.id
        → held.ownerNode = node.config.id
        → held.alive = true
        → node.leaves.contains event.id = true
          ∧ node.directory.Outranks held.endpointId
            (stampAt node.versionCounter (ownedCount event.id earlier)) now := by
  have stamped : ∀ earlier (held : Endpoint), held.ownerLeaf = event.id
      → node.revoked event.id now earlier held =
        {
          held with
          alive := false
          version := stampAt node.versionCounter (ownedCount event.id earlier)
          updatedMs := now
        } :=
    fun _ _ own => if_pos own
  rw [onPeerEvent_closed closes.1 closes.2.1]
  constructor
  · intro dead earlier held later split own here alive
    have holds := (mem_records sound).mp (show held ∈ node.records order by simp [split])
    have lives : held.alive ≠ false := by simp [alive]
    by_cases attached : node.leaves.contains event.id = true
    · refine ⟨attached, ?_⟩
      by_contra below
      have left := @revokeLeaf_held node event.id now order sound earlier later held split
      rw [stamped earlier held own, if_neg fun both => below both.2] at left
      rw [if_pos attached] at dead
      exact lives (dead held.endpointId held left own here)
    · rw [if_neg attached] at dead
      exact absurd (dead held.endpointId held holds own here) lives
  · intro prevails endpointId held found own here
    by_cases attached : node.leaves.contains event.id = true
    · rw [if_pos attached] at found
      have named : endpointId ≠ [] := by
        rintro rfl
        rw [(revokeLeaf_sound sound).unnamed] at found
        cases found
      rcases holds : node.directory.endpoints[endpointId]? with _ | earlierHeld
      · rw [revokeLeaf_absent sound named holds] at found
        cases found
      · obtain rfl := sound.keyed _ _ holds
        obtain ⟨earlier, later, split⟩ := List.append_of_mem ((mem_records sound).mpr holds)
        rw [revokeLeaf_held sound split] at found
        obtain rfl := Option.some.inj found
        split_ifs at own here ⊢ with taken
        · rw [stamped earlier earlierHeld taken.1]
        · by_contra lives
          have alive : earlierHeld.alive = true := by simpa using lives
          have outranks := (prevails earlier earlierHeld later split own here alive).2
          refine taken ⟨own, ?_⟩
          rwa [stamped earlier earlierHeld own]
    · rw [if_neg attached] at found
      obtain rfl := sound.keyed _ _ found
      obtain ⟨earlier, later, split⟩ := List.append_of_mem ((mem_records sound).mpr found)
      by_contra lives
      exact attached (prevails earlier held later split own here (by simpa using lives)).1

/-- In every run, a node has authority over its leaves at exactly the events at which its stamps
prevail.
-/
theorem authority_iff_prevails {config : NodeConfig} {state : NodeRuntime}
    (run : Run step Honest (start config now) history state) {front back : NodeHistory}
    {stage : Stage NodeRuntime NodeEvent Push} (split : history = front ++ stage :: back)
    : Authority front stage ↔ Prevails front stage := by
  obtain ⟨before, honest, -⟩ := run.at_stage split
  have sound := run_sound before
  have stands := run_stands before
  have missing : ∀ leafId received now order endpointId, stage.event = .directory leafId received now order
      → ¬received.Lists leafId endpointId
      → Exclusive leafId endpointId (front ++ [stage])
      → endpointId ∉ received.endpoints.map Endpoint.endpointId := by
    intro leafId received now order endpointId brings unlisted exclusive member
    obtain ⟨endpoint, listed, own⟩ := List.mem_map.mp member
    exact unlisted ⟨endpoint, listed,
      exclusive stage (by simp) leafId received now order brings endpoint listed own, own⟩
  constructor
  · intro authority
    refine ⟨fun leafId received now order brings attached earlier endpoint later place own exclusive => ?_,
      fun leafId received now order previous endpointId brings attached last lists unlisted exclusive => ?_,
      fun event now order changes closes => ?_⟩
    · have shown := authority.listed leafId received now order brings attached endpoint (by simp [place])
        own exclusive
      rw [brings] at shown
      exact (listed_iff attached (honest leafId received now order brings attached) place own).mp shown
    · have gone := authority.vanished leafId received now order previous endpointId brings attached last
        lists unlisted exclusive
      rw [brings] at gone
      exact (vanished_iff sound stands attached last
        (missing leafId received now order endpointId brings unlisted exclusive)).mp gone
    · have dead := authority.closed event.id closes
      rw [changes] at dead closes
      exact (closed_iff sound closes).mp dead
  · intro prevails
    refine ⟨fun leafId received now order brings attached endpoint member own exclusive => ?_,
      fun leafId received now order previous endpointId brings attached last lists unlisted exclusive => ?_,
      fun leafId closes => ?_⟩
    · obtain ⟨earlier, later, place⟩ := List.append_of_mem member
      have stamps := prevails.listed leafId received now order brings attached earlier endpoint later place
        own exclusive
      rw [brings]
      exact (listed_iff attached (honest leafId received now order brings attached) place own).mpr stamps
    · have reached := prevails.vanished leafId received now order previous endpointId brings attached last
        lists unlisted exclusive
      rw [brings]
      exact (vanished_iff sound stands attached last
        (missing leafId received now order endpointId brings unlisted exclusive)).mpr reached
    · rcases changes : stage.event with ⟨event, now, order⟩ | _ | _ | _ | _
      · rw [changes] at closes
        obtain rfl : event.id = leafId := closes.2.2
        have stamps := prevails.closed event now order changes (by rw [changes]; exact closes)
        exact (closed_iff sound closes).mpr stamps
      all_goals
        rw [changes] at closes
        exact closes.elim

theorem run_start (node : NodeRuntime) : Run step Honest node [] node := .start

theorem run_react {allowed : NodeHistory → NodeRuntime → NodeEvent → Prop}
    {initial state : NodeRuntime} (run : Run step allowed initial history state) (event : NodeEvent)
    (permitted : allowed history state event)
    : Run step allowed initial
        (history ++ [{ before := state, event, outputs := (state.react event).2 }])
        (state.react event).1 :=
  .next run permitted rfl

theorem honest_directory {peerId : Bytes} {received : DirectorySnapshot}
    (wellFormed : received.WellFormed)
    : Honest history node (.directory peerId received now order) := by
  intro leafId other instant walk same _
  obtain ⟨-, rfl, -⟩ := NodeEvent.directory.inj same
  exact wellFormed

theorem honest_peer (event : PeerEvent) : Honest history node (.peer event now order) := by
  intro leafId received instant walk same
  cases same

/-- A leaf attaches and lists an endpoint. -/
theorem authority_iff_prevails_attached
    : let node := start { id := [8] } 1000
      let online := NodeEvent.peer { id := [2], role := .leaf, state := .online, clientId := 5 } 1001 []
      let listing := NodeEvent.directory [2]
        { endpoints := [{ endpointId := [7], ownerLeaf := [2], alive := true }] } 1002 []
      let front : NodeHistory :=
        [{ before := node, event := online, outputs := (node.react online).2 }]
      let stage : Stage NodeRuntime NodeEvent Push :=
        {
          before := (node.react online).1
          event := listing
          outputs := ((node.react online).1.react listing).2
        }
      Authority front stage ↔ Prevails front stage := by
  intro node online listing front stage
  have attached := run_react (run_start node) online (honest_peer _)
  have run := run_react attached listing (honest_directory (by decide))
  exact @authority_iff_prevails _ _ _ _ run front [] stage rfl

/-- A leaf with two parents: the other parent has stamped the leaf's endpoint with a version
from its own counter, and this node's stamp falls short of it.
-/
theorem authority_lost
    : ∃ front stage state, Run step Honest (start { id := [8] } 1000) (front ++ [stage]) state
      ∧ ¬Authority front stage := by
  have attached := run_react (run_start (start { id := [8] } 1000))
    (.peer { id := [2], role := .leaf, state := .online, clientId := 5 } 1001 []) (honest_peer _)
  have known := run_react attached
    (.peer { id := [9], role := .node, state := .online, clientId := 6 } 1002 []) (honest_peer _)
  have learnt := run_react known
    (.directory [9]
      {
        endpoints := [
          {
            endpointId := [7]
            ownerLeaf := [2]
            ownerNode := [9]
            version := 2001
            alive := true
          }]
      } 1003 [])
    (honest_directory (by decide))
  have listed := run_react learnt
    (.directory [2]
      { endpoints := [{ endpointId := [7], ownerLeaf := [2], version := 5, alive := true }] } 1004 [])
    (honest_directory (by decide))
  refine ⟨_, _, _, listed, fun authority => ?_⟩
  have shown := authority.listed [2] _ _ _ rfl (by decide +kernel) _ List.mem_cons_self rfl
  obtain ⟨held, found, shows⟩ := shown fun stage member peerId received now order brings endpoint lists _ => by
    simp only [List.nil_append, List.cons_append, List.mem_cons, List.not_mem_nil, or_false] at member
    rcases member with rfl | rfl | rfl | rfl
    · cases brings
    · cases brings
    · cases brings
      obtain rfl := List.mem_singleton.mp lists
      rfl
    · cases brings
      obtain rfl := List.mem_singleton.mp lists
      rfl
  have owner := congrArg (Option.map Endpoint.ownerNode) found
  rw [Option.map_some, shows.ownerNode] at owner
  revert owner
  decide +kernel

end NodeRuntime

end Creek.Mesh
