import Creek.Proofs.Mesh.NodeDirectory

/-! Endpoints that moved to another leaf, and leaves with several nodes.
A run here also tells when an endpoint registers at a leaf, which the node does not see. The
records of other leaves and nodes survive an event exactly where the stamps of this node fall
short of them.
-/

namespace Creek.Mesh

open Tight (Bytes LinkRole LinkState PeerEvent)
open Library

/-- What happens around a node: an endpoint registers at some leaf, or the node reacts. -/
inductive MeshEvent where
  | registration (leafId endpointId : Bytes)
  | node (event : NodeEvent)
  deriving DecidableEq, Repr

/-- Registrations at leaves leave the node as it is. -/
def NodeRuntime.witnessed (node : NodeRuntime) : MeshEvent → NodeRuntime × List Push
  | .registration _ _ => (node, [])
  | .node event => node.react event

/-- One event as a step of a run; it cannot fail. -/
def NodeRuntime.witness (node : NodeRuntime) (event : MeshEvent)
    : Except Empty (NodeRuntime × List Push) :=
  .ok (node.witnessed event)

abbrev MeshHistory := List (Stage NodeRuntime MeshEvent Push)

/-- Whether the last registration of an endpoint at one leaf came after all those at another. -/
def NewerRegistration (history : MeshHistory) (endpointId leafId otherId : Bytes) : Prop :=
  ∃ earlier stage later, history = earlier ++ stage :: later
    ∧ stage.event = .registration leafId endpointId
    ∧ ∀ since ∈ later, since.event ≠ .registration otherId endpointId

/-- The snapshots of attached leaves are well-formed. -/
def Courteous (_ : MeshHistory) (node : NodeRuntime) (event : MeshEvent) : Prop :=
  ∀ leafId received now order, event = .node (.directory leafId received now order)
    → node.leaves.contains leafId = true
    → received.WellFormed

/-- Isolation at one event: the snapshot of a leaf leaves alone the records of the leaves at which
their endpoints registered later, and the closing of a leaf marks no record of another node dead.
-/
structure Isolation (front : MeshHistory) (stage : Stage NodeRuntime MeshEvent Push) : Prop where
  snapshot : ∀ leafId received now order, stage.event = .node (.directory leafId received now order)
    → stage.before.leaves.contains leafId = true
    → ∀ endpointId held, stage.before.directory.find endpointId = some held
    → held.ownerLeaf ≠ leafId
    → NewerRegistration front endpointId held.ownerLeaf leafId
    → (stage.before.witnessed stage.event).1.directory.find endpointId = some held
  closing : ∀ event now order, stage.event = .node (.peer event now order)
    → event.role = .leaf
    → event.state = .closed
    → ∀ endpointId held, stage.before.directory.find endpointId = some held
    → held.ownerNode ≠ stage.before.config.id
    → held.alive = true
    → ∃ left, (stage.before.witnessed stage.event).1.directory.find endpointId = some left
      ∧ left.alive = true

/-- When the stamps of a node spare the records of others. A record that a leaf lists must not
outrank the held one, with the stamp it gets if it is the leaf's own; the removals that are
listed or stamped must stay below it; and at the closing of an attached leaf the stamp on a
record of the leaf under another node must not outrank it.
-/
structure Spares (front : MeshHistory) (stage : Stage NodeRuntime MeshEvent Push) : Prop where
  snapshot : ∀ leafId received now order, stage.event = .node (.directory leafId received now order)
    → stage.before.leaves.contains leafId = true
    → ∀ endpointId held, stage.before.directory.find endpointId = some held
    → held.ownerLeaf ≠ leafId
    → NewerRegistration front endpointId held.ownerLeaf leafId
    → (∀ earlier endpoint later, received.endpoints = earlier ++ endpoint :: later
        → endpoint.endpointId = endpointId
        → if endpoint.ownerLeaf = leafId then
            ¬stage.before.directory.Outranks endpointId
              (stampAt stage.before.versionCounter (ownedCount leafId earlier)) now
          else ¬stage.before.directory.Outranks endpointId endpoint.version endpoint.updatedMs)
      ∧ ∀ version, stage.before.Removes leafId received order endpointId version → version < held.version
  closing : ∀ event now order, stage.event = .node (.peer event now order)
    → event.role = .leaf
    → event.state = .closed
    → stage.before.leaves.contains event.id = true
    → ∀ earlier held later, stage.before.records order = earlier ++ held :: later
    → held.ownerLeaf = event.id
    → held.ownerNode ≠ stage.before.config.id
    → held.alive = true
    → ¬stage.before.directory.Outranks held.endpointId
      (stampAt stage.before.versionCounter (ownedCount event.id earlier)) now

namespace NodeRuntime

variable {node : NodeRuntime} {leafId : Bytes} {received : DirectorySnapshot} {now : UInt64}
  {order : List Bytes}

theorem place_unique {α β : Type} {key : α → β} {earlier earlier' later later' : List α}
    {element element' : α} (distinct : ((earlier ++ element :: later).map key).Nodup)
    (split : earlier ++ element :: later = earlier' ++ element' :: later')
    (same : key element' = key element)
    : earlier' = earlier ∧ element' = element := by
  induction earlier generalizing earlier' with
  | nil =>
      cases earlier' with
      | nil => exact ⟨rfl, (List.cons.inj split).1.symm⟩
      | cons first rest =>
          obtain ⟨rfl, tail⟩ := List.cons.inj split
          rw [List.nil_append, List.map_cons, List.nodup_cons, tail, ← same] at distinct
          exact absurd (List.mem_map.mpr ⟨element', by simp, rfl⟩) distinct.1
  | cons first rest ih =>
      rw [List.cons_append, List.map_cons, List.nodup_cons] at distinct
      cases earlier' with
      | nil =>
          obtain ⟨rfl, -⟩ := List.cons.inj split
          rw [same] at distinct
          exact absurd (List.mem_map.mpr ⟨element, by simp, rfl⟩) distinct.1
      | cons first' rest' =>
          obtain ⟨rfl, tail⟩ := List.cons.inj split
          obtain ⟨rfl, rfl⟩ := ih distinct.2 tail
          exact ⟨rfl, rfl⟩

/-- A held record survives the snapshot of a leaf exactly when nothing listed outranks it and no
removal reaches it. Witness: what outranks a record differs from it.
-/
theorem survives_iff (sound : node.directory.Sound)
    (attached : node.leaves.contains leafId = true) (wellFormed : received.WellFormed)
    {endpointId : Bytes} {held : Endpoint} (holds : node.directory.find endpointId = some held)
    : (node.handleDirectory leafId received now order).1.directory.find endpointId = some held
      ↔ (∀ earlier endpoint later, received.endpoints = earlier ++ endpoint :: later
          → endpoint.endpointId = endpointId
          → ¬node.directory.Outranks endpointId (node.adopted leafId now earlier endpoint).version
            (node.adopted leafId now earlier endpoint).updatedMs)
        ∧ ∀ version, node.Removes leafId received order endpointId version → version < held.version := by
  have named : endpointId ≠ [] := by
    rintro rfl
    rw [EndpointDirectory.find, sound.unnamed] at holds
    cases holds
  have removals : (∀ removed ∈ node.removalsOf leafId received now order endpointId,
        removed < held.version.toNat)
      ↔ ∀ version, node.Removes leafId received order endpointId version → version < held.version := by
    constructor
    · intro below version removes
      exact UInt64.lt_iff_toNat_lt.mpr (below _ (mem_removalsOf.mpr ⟨version, removes, rfl⟩))
    · intro below removed member
      obtain ⟨version, removes, rfl⟩ := mem_removalsOf.mp member
      exact UInt64.lt_iff_toNat_lt.mp (below version removes)
  rw [EndpointDirectory.find] at holds ⊢
  by_cases listed : endpointId ∈ received.endpoints.map Endpoint.endpointId
  · obtain ⟨endpoint, member, rfl⟩ := List.mem_map.mp listed
    obtain ⟨earlier, later, split⟩ := List.append_of_mem member
    have only : ∀ earlier' endpoint' later', received.endpoints = earlier' ++ endpoint' :: later'
        → endpoint'.endpointId = endpoint.endpointId
        → earlier' = earlier ∧ endpoint' = endpoint := by
      intro earlier' endpoint' later' split' same
      have distinct := wellFormed.distinct
      rw [split] at distinct
      exact place_unique distinct (split.symm.trans split') same
    rw [handleDirectory_listed attached wellFormed split, holds, Option.filter_eq_some_iff,
      decide_eq_true_eq, removals]
    refine and_congr_left fun _ => ?_
    constructor
    · intro kept earlier' endpoint' later' split' same outranks
      obtain ⟨rfl, rfl⟩ := only earlier' endpoint' later' split' same
      rw [if_pos outranks] at kept
      have above := outranks.2 held holds
      rw [Option.some.inj kept] at above
      exact above.elim (UInt64.lt_irrefl _) fun both => UInt64.lt_irrefl _ both.2
    · intro below
      rw [if_neg (below earlier endpoint later split rfl)]
  · rw [handleDirectory_unlisted attached named listed, holds, Option.filter_eq_some_iff,
      decide_eq_true_eq, removals]
    refine and_congr_left fun _ => iff_of_true rfl ?_
    intro earlier endpoint later split same
    exact absurd (List.mem_map.mpr ⟨endpoint, by simp [split], same⟩) listed

/-- A record of another node stays alive when a leaf is closed exactly when the leaf is not
attached, or the record is another leaf's, or its stamp does not outrank it.
-/
theorem closing_iff (sound : node.directory.Sound) {event : PeerEvent} (role : event.role = .leaf)
    (shut : event.state = .closed) {earlier later : List Endpoint} {held : Endpoint}
    (split : node.records order = earlier ++ held :: later) (alive : held.alive = true)
    : (∃ left, (node.onPeerEvent event now order).1.directory.find held.endpointId = some left
        ∧ left.alive = true)
      ↔ (node.leaves.contains event.id = true
        → held.ownerLeaf = event.id
        → ¬node.directory.Outranks held.endpointId
          (stampAt node.versionCounter (ownedCount event.id earlier)) now) := by
  have holds := (mem_records sound).mp (show held ∈ node.records order by simp [split])
  rw [EndpointDirectory.find, onPeerEvent_closed role shut]
  by_cases attached : node.leaves.contains event.id = true
  · rw [if_pos attached, revokeLeaf_held sound split]
    by_cases own : held.ownerLeaf = event.id
    · have stamped : node.revoked event.id now earlier held =
          {
            held with
            alive := false
            version := stampAt node.versionCounter (ownedCount event.id earlier)
            updatedMs := now
          } :=
        if_pos own
      rw [stamped]
      by_cases outranks : node.directory.Outranks held.endpointId
          (stampAt node.versionCounter (ownedCount event.id earlier)) now
      · rw [if_pos ⟨own, outranks⟩]
        refine iff_of_false ?_ fun spared => spared attached own outranks
        rintro ⟨left, same, lives⟩
        obtain rfl := Option.some.inj same
        cases lives
      · rw [if_neg fun both => outranks both.2]
        exact iff_of_true ⟨held, rfl, alive⟩ fun _ _ => outranks
    · rw [if_neg fun both => own both.1]
      exact iff_of_true ⟨held, rfl, alive⟩ fun _ same => absurd same own
  · rw [if_neg attached]
    exact iff_of_true ⟨held, holds, alive⟩ fun known => absurd known attached

/-- In every run the directory is sound, registrations or not. -/
theorem witness_sound {allowed : MeshHistory → NodeRuntime → MeshEvent → Prop} {config : NodeConfig}
    {history : MeshHistory} {state : NodeRuntime}
    (run : Run witness allowed (start config now) history state)
    : state.directory.Sound := by
  refine run.invariant (fun _ state => state.directory.Sound) EndpointDirectory.Sound.initial ?_
  intro history state event after outputs _ sound _ taken
  obtain rfl := congrArg Prod.fst (Except.ok.inj taken)
  cases event with
  | registration leafId endpointId => exact sound
  | node event => exact react_sound sound event

/-- In every run, the records of others survive exactly the events at which the stamps of the
node spare them.
-/
theorem isolation_iff_spares {config : NodeConfig} {history : MeshHistory} {state : NodeRuntime}
    (run : Run witness Courteous (start config now) history state) {front back : MeshHistory}
    {stage : Stage NodeRuntime MeshEvent Push} (split : history = front ++ stage :: back)
    : Isolation front stage ↔ Spares front stage := by
  obtain ⟨before, courteous, -⟩ := run.at_stage split
  have sound := witness_sound before
  have adopted : ∀ leafId now earlier (endpoint : Endpoint),
      (if endpoint.ownerLeaf = leafId then
          ¬stage.before.directory.Outranks endpoint.endpointId
            (stampAt stage.before.versionCounter (ownedCount leafId earlier)) now
        else
          ¬stage.before.directory.Outranks endpoint.endpointId endpoint.version endpoint.updatedMs)
      ↔ ¬stage.before.directory.Outranks endpoint.endpointId
        (stage.before.adopted leafId now earlier endpoint).version
        (stage.before.adopted leafId now earlier endpoint).updatedMs := by
    intro leafId now earlier endpoint
    simp only [NodeRuntime.adopted, stampedRecord]
    split <;> rfl
  constructor
  · intro isolation
    refine ⟨fun leafId received now order brings attached endpointId held holds foreign newer => ?_,
      fun event now order changes role shut attached earlier held later place own elsewhere alive => ?_⟩
    · have kept := isolation.snapshot leafId received now order brings attached endpointId held holds
        foreign newer
      rw [brings] at kept
      obtain ⟨listed, removed⟩ :=
        (survives_iff sound attached (courteous leafId received now order brings attached) holds).mp kept
      refine ⟨fun earlier endpoint later split same => ?_, removed⟩
      subst same
      exact (adopted leafId now earlier endpoint).mpr (listed earlier endpoint later split rfl)
    · have holds := (mem_records sound).mp (show held ∈ stage.before.records order by simp [place])
      have lives := isolation.closing event now order changes role shut held.endpointId held holds
        elsewhere alive
      rw [changes] at lives
      exact (closing_iff sound role shut place alive).mp lives attached own
  · intro spares
    refine ⟨fun leafId received now order brings attached endpointId held holds foreign newer => ?_,
      fun event now order changes role shut endpointId held holds elsewhere alive => ?_⟩
    · obtain ⟨listed, removed⟩ := spares.snapshot leafId received now order brings attached endpointId held
        holds foreign newer
      rw [brings]
      refine (survives_iff sound attached (courteous leafId received now order brings attached) holds).mpr
        ⟨fun earlier endpoint later split same => ?_, removed⟩
      have below := listed earlier endpoint later split same
      subst same
      exact (adopted leafId now earlier endpoint).mp below
    · obtain rfl := sound.keyed _ _ holds
      obtain ⟨earlier, later, place⟩ := List.append_of_mem ((mem_records sound).mpr holds)
      rw [changes]
      exact (closing_iff sound role shut place alive).mpr fun attached own =>
        spares.closing event now order changes role shut attached earlier held later place own elsewhere
          alive

theorem witness_start (node : NodeRuntime) : Run witness Courteous node [] node := .start

theorem witness_react {history : MeshHistory} {initial state : NodeRuntime}
    (run : Run witness Courteous initial history state) (event : MeshEvent)
    (courteous : Courteous history state event)
    : Run witness Courteous initial
        (history ++ [{ before := state, event, outputs := (state.witnessed event).2 }])
        (state.witnessed event).1 :=
  .next run courteous rfl

theorem courteous_directory {history : MeshHistory} {peerId : Bytes}
    (wellFormed : received.WellFormed)
    : Courteous history node (.node (.directory peerId received now order)) := by
  intro leafId other instant walk same _
  obtain ⟨-, rfl, -⟩ := NodeEvent.directory.inj (MeshEvent.node.inj same)
  exact wellFormed

theorem courteous_registration {history : MeshHistory} (endpointId : Bytes)
    : Courteous history node (.registration leafId endpointId) := by
  intro _ _ _ _ same
  cases same

theorem courteous_peer {history : MeshHistory} (event : PeerEvent)
    : Courteous history node (.node (.peer event now order)) := by
  intro _ _ _ _ same
  cases MeshEvent.node.inj same

/-- A leaf attaches and lists an endpoint. -/
theorem isolation_iff_spares_attached
    : let node := start { id := [8] } 1000
      let online := MeshEvent.node
        (.peer { id := [2], role := .leaf, state := .online, clientId := 5 } 1001 [])
      let listing := MeshEvent.node (.directory [2]
        { endpoints := [{ endpointId := [7], ownerLeaf := [2], alive := true }] } 1002 [])
      let front : MeshHistory :=
        [{ before := node, event := online, outputs := (node.witnessed online).2 }]
      let stage : Stage NodeRuntime MeshEvent Push :=
        {
          before := (node.witnessed online).1
          event := listing
          outputs := ((node.witnessed online).1.witnessed listing).2
        }
      Isolation front stage ↔ Spares front stage := by
  intro node online listing front stage
  have attached := witness_react (witness_start node) online (courteous_peer _)
  have run := witness_react attached listing (courteous_directory (by decide))
  exact @isolation_iff_spares _ _ _ _ run front [] stage rfl

/-- An endpoint moves from one leaf to another and the first leaf then reports it dead: the
report takes the place of the live record of the second leaf.
-/
theorem isolation_lost
    : ∃ front stage state, Run witness Courteous (start { id := [8] } 1000) (front ++ [stage]) state
      ∧ ¬Isolation front stage := by
  have first := witness_react (witness_start (start { id := [8] } 1000))
    (.node (.peer { id := [2], role := .leaf, state := .online, clientId := 5 } 1001 []))
    (courteous_peer _)
  have second := witness_react first
    (.node (.peer { id := [3], role := .leaf, state := .online, clientId := 6 } 1002 []))
    (courteous_peer _)
  have registered := witness_react second (.registration [2] [7]) (courteous_registration _)
  have listed := witness_react registered
    (.node (.directory [2]
      { endpoints := [{ endpointId := [7], ownerLeaf := [2], version := 5, alive := true }] } 1003 []))
    (courteous_directory (by decide))
  have moved := witness_react listed (.registration [3] [7]) (courteous_registration _)
  have relisted := witness_react moved
    (.node (.directory [3]
      { endpoints := [{ endpointId := [7], ownerLeaf := [3], version := 6, alive := true }] } 1004 []))
    (courteous_directory (by decide))
  have reported := witness_react relisted
    (.node (.directory [2]
      { endpoints := [{ endpointId := [7], ownerLeaf := [2], version := 7, alive := false }] } 4003 []))
    (courteous_directory (by decide))
  refine ⟨_, _, _, reported, fun isolation => ?_⟩
  have kept := isolation.snapshot [2] _ _ _ rfl (by decide +kernel) [7]
    {
      endpointId := [7]
      ownerLeaf := [3]
      ownerNode := [8]
      version := 1002
      updatedMs := 1004
      alive := true
    }
    (by decide +kernel) (by decide) ⟨_, _, _, List.append_assoc _ _ _, rfl, by simp⟩
  revert kept
  decide +kernel

end NodeRuntime

end Creek.Mesh
