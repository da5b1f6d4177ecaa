import Creek.Proofs.Mesh.Registry

/-! Whatever a process learns of another through the registry was registered by that other process.
The keys of the cluster must not run into each other, and the id of a node may hold no colon, since
the field of a leaf is its node and itself around one.
-/

namespace Creek.Mesh

open Library (Run Stage ascii)
open Telemetry (Address letter parseAddress)
open Tight (Bytes)

abbrev DiscoveryStage (redis : Redis) := Stage (Cluster redis) DiscoveryEvent RemotePeer

section

variable {redis : Redis}

-- What a step of the cluster can do

theorem getElem?_set_found {α : Type*} {list : List α} {index other : Nat} {old new : α}
    (found : list[index]? = some old)
    : (list.set index new)[other]? = if other = index then some new else list[other]? := by
  have bound : index < list.length := (List.getElem?_eq_some_iff.mp found).1
  rw [List.getElem?_set]
  by_cases own : index = other
  · subst own
    simp [bound]
  · rw [if_neg own, if_neg (Ne.symm own)]

namespace Cluster

/-- The steps of the cluster. -/
inductive Steps (cluster : Cluster redis) : DiscoveryEvent → Cluster redis → List RemotePeer → Prop
  | node {index : Nat} {step : NodeStep} {node after : NodeProcess} {registry : Registry redis}
      {connects : List RemotePeer} (found : cluster.nodes[index]? = some node)
      (moved : node.step cluster.registry step = some (after, registry, connects))
      : Steps cluster (.node index step)
          { cluster with registry, nodes := cluster.nodes.set index after } connects
  | leaf {index : Nat} {step : LeafStep} {leaf after : LeafProcess} {registry : Registry redis}
      {connects : List RemotePeer} (found : cluster.leaves[index]? = some leaf)
      (moved : leaf.step cluster.registry step = some (after, registry, connects))
      : Steps cluster (.leaf index step)
          { cluster with registry, leaves := cluster.leaves.set index after } connects
  | serves {event : DiscoveryEvent} {registry : Registry redis}
      (shown : ∀ entry, registry.MayShow entry → cluster.registry.MayShow entry)
      (kept : (∀ key field, event ≠ .lose key field)
        → ∀ key field, cluster.registry.Lists key field → registry.Lists key field)
      (quiet : event.place = none)
      : Steps cluster event { cluster with registry } []

theorem steps_of_ok {cluster after : Cluster redis} {event : DiscoveryEvent}
    {connects : List RemotePeer} (taken : cluster.step event = .ok (after, connects))
    : cluster.Steps event after connects := by
  cases event with
  | node index step =>
      simp only [Cluster.step] at taken
      split at taken
      · cases taken
      · rename_i found
        split at taken
        · cases taken
        · rename_i moved
          cases taken
          exact .node found moved
  | leaf index step =>
      simp only [Cluster.step] at taken
      split at taken
      · cases taken
      · rename_i found
        split at taken
        · cases taken
        · rename_i moved
          cases taken
          exact .leaf found moved
  | execute index =>
      simp only [Cluster.step] at taken
      split at taken
      · cases taken
      · rename_i found
        cases taken
        refine .serves (fun entry shown => Registry.mayShow_execute found shown) ?_ rfl
        exact fun _ key field ⟨value, shown⟩ => Registry.Lists.hset ⟨value, shown⟩ _
  | lose key field =>
      cases taken
      refine .serves (fun entry shown => Registry.mayShow_hdel shown) ?_ rfl
      exact fun keeps => absurd rfl (keeps key field)

/-- What the others see of a step: a member acts, or the registry changes by itself. -/
inductive Turn (cluster after : Cluster redis) (event : DiscoveryEvent) : Prop
  | acts {place : Place} {member later : Member} (mine : event.place = some place)
      (own : cluster.member place = some member)
      (acts : member.Acts cluster.registry place event later after.registry)
      (moved : after.member place = some later)
      (others : ∀ other, other ≠ place → after.member other = cluster.member other)
  | serves (shown : ∀ entry, after.registry.MayShow entry → cluster.registry.MayShow entry)
      (kept : (∀ key field, event ≠ .lose key field)
        → ∀ key field, cluster.registry.Lists key field → after.registry.Lists key field)
      (quiet : event.place = none)
      (others : ∀ place, after.member place = cluster.member place)

theorem Steps.turn {cluster after : Cluster redis} {event : DiscoveryEvent}
    {connects : List RemotePeer} (steps : cluster.Steps event after connects)
    : Turn cluster after event := by
  cases steps with
  | @node index step node later server _ found moved =>
      have own : cluster.member (.node index) = some node.member := by
        rw [member, found, Option.map_some]
      refine .acts rfl own (NodeProcess.acts_of_step index moved) ?_ ?_
      · rw [member, getElem?_set_found found, if_pos rfl, Option.map_some]
      · intro other elsewhere
        cases other with
        | node other =>
            have apart : other ≠ index := fun same => elsewhere (same ▸ rfl)
            rw [member, getElem?_set_found found, if_neg apart, member]
        | leaf other => rfl
  | @leaf index step leaf later server _ found moved =>
      have own : cluster.member (.leaf index) = some leaf.member := by
        rw [member, found, Option.map_some]
      refine .acts rfl own (LeafProcess.acts_of_step index moved) ?_ ?_
      · rw [member, getElem?_set_found found, if_pos rfl, Option.map_some]
      · intro other elsewhere
        cases other with
        | leaf other =>
            have apart : other ≠ index := fun same => elsewhere (same ▸ rfl)
            rw [member, getElem?_set_found found, if_neg apart, member]
        | node other => rfl
  | serves shown kept quiet =>
      refine .serves shown kept quiet fun place => ?_
      cases place <;> rfl

-- Who has registered what

/-- No process has run yet, and the server knows nothing. -/
structure Fresh (cluster : Cluster redis) : Prop where
  shows : ∀ entry, ¬cluster.registry.MayShow entry
  holds : ∀ place member, cluster.member place = some member → ∀ nodeId, ¬member.Holds nodeId
  known : ∀ leaf ∈ cluster.leaves, ∀ leafId : Bytes, leaf.knownLeaves[leafId]? = none

def keys (cluster : Cluster redis) : List Bytes :=
  cluster.nodes.map NodeProcess.key ++ cluster.leaves.map LeafProcess.key

/-- The hash of the nodes is never the hash of the leaves of some process. -/
def KeysApart (cluster : Cluster redis) : Prop :=
  ∀ key ∈ cluster.keys, ∀ other ∈ cluster.keys,
    redis.argument key ≠ redis.argument (other ++ ascii ":leaves")

instance (cluster : Cluster redis) : Decidable cluster.KeysApart :=
  inferInstanceAs (Decidable (∀ key ∈ cluster.keys, ∀ other ∈ cluster.keys, _))

/-- No id of a node holds a colon. -/
def PlainIds (cluster : Cluster redis) : Prop :=
  ∀ node ∈ cluster.nodes, letter ':' ∉ node.runtime.config.id

instance (cluster : Cluster redis) : Decidable cluster.PlainIds :=
  inferInstanceAs (Decidable (∀ node ∈ cluster.nodes, _))

theorem key_mem {cluster : Cluster redis} {place : Place} {member : Member}
    (own : cluster.member place = some member)
    : member.client.key ∈ cluster.keys := by
  cases place with
  | node index =>
      obtain ⟨node, found, rfl⟩ := Option.map_eq_some_iff.mp own
      exact List.mem_append_left _ (List.mem_map_of_mem (List.mem_of_getElem? found))
  | leaf index =>
      obtain ⟨leaf, found, rfl⟩ := Option.map_eq_some_iff.mp own
      exact List.mem_append_right _ (List.mem_map_of_mem (List.mem_of_getElem? found))

end Cluster

/-- The node has been started. -/
def StartedNode (index : Nat) (history : List (DiscoveryStage redis)) : Prop :=
  ∃ stage ∈ history, ∃ reply startup, stage.event = .node index (.start reply startup)

/-- The leaf has been registered under a node. -/
def RegisteredLeaf (index : Nat) (nodeId : Bytes) (history : List (DiscoveryStage redis)) : Prop :=
  ∃ stage ∈ history, (∃ reply succeeds, stage.event = .leaf index (.register reply succeeds))
    ∧ ∃ member, stage.before.member (.leaf index) = some member ∧ member.picked = some nodeId

/-- A node of the cluster has written an entry. -/
def NodeWrote (initial : Cluster redis) (history : List (DiscoveryStage redis)) (entry : Registration)
    : Prop :=
  ∃ index member, initial.member (.node index) = some member
    ∧ member.nodeEntry redis = entry
    ∧ StartedNode index history

/-- A node with that id has registered under a key. -/
def NodeKnown (initial : Cluster redis) (history : List (DiscoveryStage redis)) (key nodeId : Bytes)
    : Prop :=
  ∃ text, NodeWrote initial history { key := redis.argument key, field := nodeId, value := text }

/-- A leaf of the cluster has written an entry, under a node that had registered before. -/
def LeafWrote (initial : Cluster redis) (history : List (DiscoveryStage redis)) (entry : Registration)
    : Prop :=
  ∃ index member nodeId, initial.member (.leaf index) = some member
    ∧ member.leafEntry redis nodeId = entry
    ∧ RegisteredLeaf index nodeId history
    ∧ NodeKnown initial history member.client.key nodeId

/-- A node with that id and that address has registered under a key. -/
def NodeOrigin (initial : Cluster redis) (history : List (DiscoveryStage redis)) (key : Bytes)
    (peer : RemotePeer)
    : Prop :=
  ∃ index member, initial.member (.node index) = some member
    ∧ redis.argument member.client.key = redis.argument key
    ∧ redis.argument member.client.selfId = peer.id
    ∧ parseAddress (redis.argument (formatAddress member.udpBind)) = some peer.address
    ∧ StartedNode index history

/-- A leaf with that id and that address has registered under a node. -/
def LeafOrigin (initial : Cluster redis) (history : List (DiscoveryStage redis)) (key nodeId : Bytes)
    (peer : RemotePeer)
    : Prop :=
  ∃ index member, initial.member (.leaf index) = some member
    ∧ redis.argument member.client.leavesKey = redis.argument (key ++ ascii ":leaves")
    ∧ redis.argument member.client.selfId = peer.id
    ∧ parseAddress (redis.argument (formatAddress member.udpBind)) = some peer.address
    ∧ RegisteredLeaf index nodeId history

section

variable {initial cluster after last : Cluster redis} {history : List (DiscoveryStage redis)}
  {stage : DiscoveryStage redis} {entry : Registration} {key nodeId leafId text : Bytes}
  {peer : RemotePeer} {index : Nat} {place : Place} {member : Member} {event : DiscoveryEvent}
  {outputs : List RemotePeer}

theorem NodeWrote.append (wrote : NodeWrote initial history entry)
    : NodeWrote initial (history ++ [stage]) entry := by
  obtain ⟨index, member, own, written, earlier, here, starts⟩ := wrote
  exact ⟨index, member, own, written, earlier, List.mem_append_left _ here, starts⟩

theorem NodeKnown.append (known : NodeKnown initial history key nodeId)
    : NodeKnown initial (history ++ [stage]) key nodeId := by
  obtain ⟨text, wrote⟩ := known
  exact ⟨text, wrote.append⟩

theorem RegisteredLeaf.append (registered : RegisteredLeaf index nodeId history)
    : RegisteredLeaf index nodeId (history ++ [stage]) := by
  obtain ⟨earlier, here, registers⟩ := registered
  exact ⟨earlier, List.mem_append_left _ here, registers⟩

theorem LeafWrote.append (wrote : LeafWrote initial history entry)
    : LeafWrote initial (history ++ [stage]) entry := by
  obtain ⟨index, member, nodeId, own, written, registered, known⟩ := wrote
  exact ⟨index, member, nodeId, own, written, registered.append, known.append⟩

theorem LeafOrigin.append (origin : LeafOrigin initial history key nodeId peer)
    : LeafOrigin initial (history ++ [stage]) key nodeId peer := by
  obtain ⟨index, member, own, sameKey, sameId, parsed, registered⟩ := origin
  exact ⟨index, member, own, sameKey, sameId, parsed, registered.append⟩

/-- The id of a registered node is cut at a zero byte, and has no colon where the configured has none. -/
theorem NodeKnown.plain (ids : initial.PlainIds) (known : NodeKnown initial history key nodeId)
    : 0 ∉ nodeId ∧ letter ':' ∉ nodeId := by
  obtain ⟨text, index, member, own, written, -⟩ := known
  obtain ⟨node, found, rfl⟩ := Option.map_eq_some_iff.mp own
  obtain rfl : redis.argument node.runtime.config.id = nodeId := congrArg Registration.field written
  refine ⟨redis.zero_notMem_argument _, fun member => ?_⟩
  exact ids node (List.mem_of_getElem? found) ((redis.argument_prefix _).mem member)

/-- What a node has written into the hash of the nodes tells its id and its address. -/
theorem NodeWrote.origin
    (wrote : NodeWrote initial history { key := redis.argument key, field := peer.id, value := text })
    (parsed : parseAddress text = some peer.address)
    : NodeOrigin initial history key peer := by
  obtain ⟨index, member, own, written, started⟩ := wrote
  have value : redis.argument (formatAddress member.udpBind) = text :=
    congrArg Registration.value written
  exact ⟨index, member, own, congrArg Registration.key written, congrArg Registration.field written,
    value ▸ parsed, started⟩

/-- What a leaf has written into the hash of the leaves tells its node, its id and its address. -/
theorem LeafWrote.origin (ids : initial.PlainIds) (free : letter ':' ∉ nodeId)
    (wrote : LeafWrote initial history
      {
        key := redis.argument (key ++ ascii ":leaves")
        field := nodeId ++ letter ':' :: peer.id
        value := text
      })
    (parsed : parseAddress text = some peer.address)
    : LeafOrigin initial history key nodeId peer := by
  obtain ⟨index, member, parent, own, written, registered, known⟩ := wrote
  obtain ⟨parentWhole, parentFree⟩ := known.plain ids
  have field : redis.argument (parent ++ letter ':' :: member.client.selfId)
      = nodeId ++ letter ':' :: peer.id :=
    congrArg Registration.field written
  have cut : redis.argument (letter ':' :: member.client.selfId)
      = letter ':' :: redis.argument member.client.selfId :=
    redis.argument_append (by decide : 0 ∉ [letter ':']) _
  rw [redis.argument_append parentWhole, cut] at field
  obtain ⟨rfl, sameId⟩ := Library.split_unique parentFree free field
  have value : redis.argument (formatAddress member.udpBind) = text :=
    congrArg Registration.value written
  exact ⟨index, member, own, congrArg Registration.key written, sameId, value ▸ parsed, registered⟩

-- The invariant

/-- The members are who they were in the beginning, and all they hold has been registered. -/
structure Origins (initial : Cluster redis) (history : List (DiscoveryStage redis))
    (cluster : Cluster redis)
    : Prop where
  steady : ∀ place, (cluster.member place).map Member.identity
    = (initial.member place).map Member.identity
  entries : ∀ entry, cluster.registry.MayShow entry
    → NodeWrote initial history entry ∨ LeafWrote initial history entry
  holds : ∀ place member, cluster.member place = some member → ∀ nodeId, member.Holds nodeId
    → NodeKnown initial history member.client.key nodeId
  known : ∀ leaf ∈ cluster.leaves, ∀ leafId address, leaf.knownLeaves[leafId]? = some address
    → ∃ nodeId, LeafOrigin initial history leaf.key nodeId { id := leafId, address }

theorem Member.Acts.identity_eq {registry shared : Registry redis} {later : Member}
    (acts : member.Acts registry place event later shared)
    : later.identity = member.identity := by
  cases acts <;> rfl

namespace Origins

theorem start (fresh : initial.Fresh) : Origins initial [] initial where
  steady := fun _ => rfl
  entries := fun entry shown => absurd shown (fresh.shows entry)
  holds := fun place member own nodeId held => absurd held (fresh.holds place member own nodeId)
  known := by
    intro leaf member leafId address known
    rw [fresh.known leaf member leafId] at known
    cases known

theorem first (origins : Origins initial history cluster) (own : cluster.member place = some member)
    : ∃ first, initial.member place = some first ∧ first.identity = member.identity := by
  have same := origins.steady place
  rw [own, Option.map_some] at same
  exact Option.map_eq_some_iff.mp same.symm

theorem key_mem (origins : Origins initial history cluster)
    (own : cluster.member place = some member)
    : member.client.key ∈ initial.keys := by
  obtain ⟨first, start, same⟩ := origins.first own
  have sameKey : first.client.key = member.client.key :=
    congrArg (fun identity => identity.1.key) same
  exact sameKey ▸ Cluster.key_mem start

theorem nodeWrote (origins : Origins initial history cluster) (apart : initial.KeysApart)
    (mine : key ∈ initial.keys)
    (shown : cluster.registry.Shows { key := redis.argument key, field := nodeId, value := text })
    : NodeWrote initial history { key := redis.argument key, field := nodeId, value := text } := by
  rcases origins.entries _ (.inl shown) with wrote | wrote
  · exact wrote
  · obtain ⟨index, leaf, parent, own, written, -⟩ := wrote
    exact absurd (congrArg Registration.key written).symm
      (apart key mine leaf.client.key (Cluster.key_mem own))

theorem leafWrote (origins : Origins initial history cluster) (apart : initial.KeysApart)
    (mine : key ∈ initial.keys) {field : Bytes}
    (shown : cluster.registry.Shows
      { key := redis.argument (key ++ ascii ":leaves"), field, value := text })
    : LeafWrote initial history
        { key := redis.argument (key ++ ascii ":leaves"), field, value := text } := by
  rcases origins.entries _ (.inl shown) with wrote | wrote
  · obtain ⟨index, node, own, written, -⟩ := wrote
    exact absurd (congrArg Registration.key written)
      (apart node.client.key (Cluster.key_mem own) key mine)
  · exact wrote

theorem fetched_known (origins : Origins initial history cluster) (apart : initial.KeysApart)
    {client : RedisClient} {reply : Reply} (mine : client.key ∈ initial.keys)
    (listed : (nodeId, text) ∈ client.fetchNodes reply cluster.registry)
    : NodeKnown initial history client.key nodeId :=
  ⟨text, origins.nodeWrote apart mine (RedisClient.mem_fetchNodes.mp listed).2⟩

/-- The leaves that a process fetches for a registered node have registered under that node. -/
theorem fetched_origin (origins : Origins initial history cluster) (apart : initial.KeysApart)
    (ids : initial.PlainIds) {client : RedisClient} {reply : Reply}
    (mine : client.key ∈ initial.keys) (asked : NodeKnown initial history client.key nodeId)
    (listed : (peer.id, text) ∈ client.fetchLeavesForNode nodeId reply cluster.registry)
    (parsed : parseAddress text = some peer.address)
    : LeafOrigin initial history client.key nodeId peer :=
  (origins.leafWrote apart mine (RedisClient.mem_fetchLeavesForNode.mp listed).2).origin ids
    (asked.plain ids).2 parsed

/-- What the server may show after a member has acted has been written. -/
theorem entries_acts (origins : Origins initial history cluster)
    (own : cluster.member place = some member) {later : Member} {shared : Registry redis}
    (acts : member.Acts cluster.registry place event later shared) (shown : shared.MayShow entry)
    : NodeWrote initial (history ++ [{ before := cluster, event, outputs }]) entry
      ∨ LeafWrote initial (history ++ [{ before := cluster, event, outputs }]) entry := by
  have before (held : cluster.registry.MayShow entry)
      : NodeWrote initial (history ++ [{ before := cluster, event, outputs }]) entry
        ∨ LeafWrote initial (history ++ [{ before := cluster, event, outputs }]) entry :=
    (origins.entries entry held).imp NodeWrote.append LeafWrote.append
  obtain ⟨first, start, same⟩ := origins.first own
  have latest : (⟨cluster, event, outputs⟩ : DiscoveryStage redis)
      ∈ history ++ [{ before := cluster, event, outputs }] :=
    List.mem_append_right _ List.mem_cons_self
  cases acts with
  | @starts index reply startup here =>
      subst here
      rcases Registry.mayShow_register shown with rfl | held
      · refine .inl ⟨index, first, start, ?_, _, latest, reply, startup, rfl⟩
        exact congrArg (fun identity => identity.1.nodeEntry redis (formatAddress identity.2)) same
      · exact before held
  | @registers index reply succeeds nodeId here picked =>
      subst here
      rcases Registry.mayShow_register shown with rfl | held
      · refine .inr ⟨index, first, nodeId, start, ?_,
          ⟨_, latest, ⟨reply, succeeds, rfl⟩, member, own, picked⟩, ?_⟩
        · exact congrArg (fun identity => identity.1.leafEntry redis (formatAddress identity.2) nodeId) same
        · have sameKey : first.client.key = member.client.key :=
            congrArg (fun identity => identity.1.key) same
          exact sameKey ▸ (origins.holds _ member own nodeId (.inr picked)).append
      · exact before held
  | _ => exact before shown

/-- What a member holds after it has acted has been registered. -/
theorem holds_acts (origins : Origins initial history cluster) (apart : initial.KeysApart)
    (own : cluster.member place = some member) {later : Member} {shared : Registry redis}
    (acts : member.Acts cluster.registry place event later shared) (held : later.Holds nodeId)
    : NodeKnown initial history later.client.key nodeId := by
  have before := origins.holds place member own nodeId
  have mine := origins.key_mem own
  cases acts with
  | idle => exact before held
  | starts => exact before held
  | picks fetched =>
      rcases held with asked | picked
      · exact before (.inl asked)
      · obtain ⟨text, listed⟩ := fetched nodeId picked
        exact origins.fetched_known apart mine listed
  | registers =>
      rcases held with asked | picked
      · exact before (.inl asked)
      · cases picked
  | begins =>
      rcases held with asked | picked
      · rcases List.mem_append.mp asked with earlier | fetched
        · exact before (.inl earlier)
        · obtain ⟨-, text, listed⟩ := mem_idsToAsk.mp fetched
          exact origins.fetched_known apart mine listed
      · exact before (.inr picked)
  | asks => exact before (held.imp_left List.mem_of_mem_erase)

/-- What a leaf knows after a step is of a leaf that has registered. -/
theorem known_step (origins : Origins initial history cluster) (apart : initial.KeysApart)
    (ids : initial.PlainIds) {leaf later : LeafProcess} {step : LeafStep} {shared : Registry redis}
    {connects : List RemotePeer} (found : cluster.leaves[index]? = some leaf)
    (taken : leaf.step cluster.registry step = some (later, shared, connects)) {address : Address}
    (known : later.knownLeaves[leafId]? = some address)
    : ∃ nodeId, LeafOrigin initial history leaf.key nodeId { id := leafId, address } := by
  have before := origins.known leaf (List.mem_of_getElem? found) leafId address
  rcases LeafProcess.knownLeaves_of_step taken with same | ⟨nodeId, reply, asked, learns⟩
  · exact before (same ▸ known)
  · have own : cluster.member (.leaf index) = some leaf.member := by
      rw [Cluster.member, found, Option.map_some]
    have asks := origins.holds _ leaf.member own nodeId (.inl asked)
    rw [learns] at known
    revert known
    refine learn_keeps
      (fun learned : LeafProcess => learned.knownLeaves[leafId]? = some address
        → ∃ nodeId, LeafOrigin initial history leaf.key nodeId { id := leafId, address })
      ?_ before
    intro otherId text otherAddress learned listed parsed _ holds known
    by_cases same : otherId = leafId
    · subst same
      obtain rfl : otherAddress = address := by
        simpa using known
      exact ⟨nodeId, origins.fetched_origin apart ids (origins.key_mem own) asks listed parsed⟩
    · rw [Library.getElem?_insert_ne _ _ same] at known
      exact holds known

theorem step (origins : Origins initial history cluster) (apart : initial.KeysApart)
    (ids : initial.PlainIds) (steps : cluster.Steps event after outputs)
    : Origins initial (history ++ [{ before := cluster, event, outputs }]) after := by
  have turn := steps.turn
  refine ⟨?_, ?_, ?_, ?_⟩
  · intro place
    cases turn with
    | @acts actor member later mine own acts moved others =>
        by_cases same : place = actor
        · subst same
          rw [moved, Option.map_some, acts.identity_eq, ← origins.steady place, own, Option.map_some]
        · rw [others place same]
          exact origins.steady place
    | serves shown kept quiet others =>
        rw [others place]
        exact origins.steady place
  · intro entry shown
    cases turn with
    | acts mine own acts => exact origins.entries_acts own acts shown
    | serves shows => exact (origins.entries entry (shows entry shown)).imp .append .append
  · intro place member own nodeId held
    cases turn with
    | @acts actor before later mine was acts moved others =>
        by_cases same : place = actor
        · subst same
          obtain rfl := Option.some.inj (moved.symm.trans own)
          exact (origins.holds_acts apart was acts held).append
        · exact (origins.holds place member (others place same ▸ own) nodeId held).append
    | serves shown kept quiet others =>
        exact (origins.holds place member (others place ▸ own) nodeId held).append
  · intro leaf member leafId address known
    have before (member : leaf ∈ cluster.leaves) := origins.known leaf member leafId address known
    refine Exists.imp (fun _ => LeafOrigin.append) ?_
    cases steps with
    | node => exact before member
    | serves => exact before member
    | @leaf index step earlier _ _ _ found moved =>
        rcases List.mem_or_eq_of_mem_set member with elsewhere | rfl
        · exact before elsewhere
        · have same := (LeafProcess.acts_of_step index moved).identity_eq
          have sameKey : leaf.key = earlier.key := congrArg (fun identity => identity.1.key) same
          exact sameKey ▸ origins.known_step apart ids found moved known

end Origins

-- Runs of the cluster

theorem origins_of_run (fresh : initial.Fresh) (apart : initial.KeysApart) (ids : initial.PlainIds)
    (run : Run Cluster.step (fun _ _ _ => True) initial history last)
    : Origins initial history last :=
  run.invariant (Origins initial) (Origins.start fresh)
    fun _ _ _ _ _ _ origins _ taken => origins.step apart ids (Cluster.steps_of_ok taken)

/-- The peers of a step were registered before it: the nodes that a pass finds as nodes, the leaves as
leaves of the node asked for, and a dial goes to the known address of the leaf, read once more.
-/
def Justified (initial : Cluster redis) (front : List (DiscoveryStage redis))
    (stage : DiscoveryStage redis)
    : Prop :=
  match stage.event with
  | .node index (.fetchNodes _) =>
      ∀ member, initial.member (.node index) = some member
        → ∀ peer ∈ stage.outputs, NodeOrigin initial front member.client.key peer
  | .node index (.fetchLeaves nodeId _) =>
      ∀ member, initial.member (.node index) = some member
        → ∀ peer ∈ stage.outputs, LeafOrigin initial front member.client.key nodeId peer
  | .leaf index (.dial destNode destLeaf) =>
      ∀ member, initial.member (.leaf index) = some member
        → ∀ peer ∈ stage.outputs, peer.id = destNode
          ∧ ∃ nodeId known,
            LeafOrigin initial front member.client.key nodeId { id := destLeaf, address := known }
            ∧ parseAddress (formatAddress known) = some peer.address
  | _ => stage.outputs = []

theorem Origins.key_eq (origins : Origins initial history cluster) {first : Member}
    (own : cluster.member place = some member) (start : initial.member place = some first)
    : first.client.key = member.client.key := by
  obtain ⟨other, same, identical⟩ := origins.first own
  obtain rfl : first = other := Option.some.inj (start.symm.trans same)
  exact congrArg (fun identity => identity.1.key) identical

theorem Origins.node_justified (origins : Origins initial history cluster)
    (apart : initial.KeysApart) (ids : initial.PlainIds) {node later : NodeProcess}
    {step : NodeStep} {shared : Registry redis} (found : cluster.nodes[index]? = some node)
    (taken : node.step cluster.registry step = some (later, shared, outputs))
    : Justified initial history { before := cluster, event := .node index step, outputs } := by
  have own : cluster.member (.node index) = some node.member := by
    rw [Cluster.member, found, Option.map_some]
  have mine : node.client.key ∈ initial.keys := origins.key_mem own
  have connects := NodeProcess.connects_of_step taken
  cases step with
  | fetchNodes reply =>
      obtain rfl : outputs = _ := connects
      intro first start peer learned
      obtain ⟨text, listed, parsed⟩ := mem_learn learned
      rw [origins.key_eq own start]
      exact (origins.nodeWrote apart mine (RedisClient.mem_fetchNodes.mp listed).2).origin parsed
  | fetchLeaves nodeId reply =>
      obtain ⟨asked, rfl⟩ : nodeId ∈ node.toAsk ∧ outputs = _ := connects
      intro first start peer learned
      obtain ⟨text, listed, parsed⟩ := mem_learn learned
      rw [origins.key_eq own start]
      exact origins.fetched_origin apart ids mine (origins.holds _ _ own nodeId (.inl asked)) listed
        parsed
  | _ => exact connects

theorem Origins.leaf_justified (origins : Origins initial history cluster)
    {leaf later : LeafProcess} {step : LeafStep} {shared : Registry redis}
    (found : cluster.leaves[index]? = some leaf)
    (taken : leaf.step cluster.registry step = some (later, shared, outputs))
    : Justified initial history { before := cluster, event := .leaf index step, outputs } := by
  have own : cluster.member (.leaf index) = some leaf.member := by
    rw [Cluster.member, found, Option.map_some]
  have connects := LeafProcess.connects_of_step taken
  cases step with
  | dial destNode destLeaf =>
      obtain rfl : outputs = leaf.dial destNode destLeaf := connects
      intro first start peer dialled
      unfold LeafProcess.dial at dialled
      split at dialled
      · exact absurd dialled List.not_mem_nil
      · rename_i address known
        obtain ⟨read, parsed, rfl⟩ := Option.map_eq_some_iff.mp (Option.mem_toList.mp dialled)
        obtain ⟨nodeId, origin⟩ :=
          origins.known leaf (List.mem_of_getElem? found) destLeaf address known
        exact ⟨rfl, nodeId, address, origins.key_eq own start ▸ origin, parsed⟩
  | _ => exact connects

end

end

/-- The hashes by their keys. -/
abbrev Hashes := Std.TreeMap Bytes (Std.TreeMap Bytes Bytes)

theorem getD_insert (key own : Bytes) (hash : Std.TreeMap Bytes Bytes) (hashes : Hashes)
    : (hashes.insert own hash).getD key ∅ = if key = own then hash else hashes.getD key ∅ := by
  simp only [Std.TreeMap.getD_insert, Std.compare_eq_iff_eq, @eq_comm _ own key]

/-- A server that keeps its hashes in the order of their keys, and a library that takes the bytes before
the first zero.
-/
def sortedHashes : Redis where
  Server := Hashes
  hset entry hashes :=
    hashes.insert entry.key ((hashes.getD entry.key ∅).insert entry.field entry.value)
  hdel key field hashes := hashes.insert key ((hashes.getD key ∅).erase field)
  hgetall key hashes := (hashes.getD key ∅).toList
  argument text := text.takeWhile (· != 0)
  distinct key hashes := by
    rw [List.Nodup, List.pairwise_map]
    exact (hashes.getD key ∅).distinct_keys_toList.imp fun different same => different (by simp [same])
  mem_hset key field value entry hashes := by
    simp only [Std.TreeMap.mem_toList_iff_getElem?_eq_some, getD_insert]
    by_cases own : key = entry.key
    · subst own
      simp only [if_true, true_and, Std.TreeMap.getElem?_insert, Std.compare_eq_iff_eq,
        @eq_comm _ entry.field field]
      split
      · rw [Option.some.injEq, eq_comm]
      · rfl
    · simp only [own, if_false, false_and]
  mem_hdel key field value lostKey lostField hashes := by
    simp only [Std.TreeMap.mem_toList_iff_getElem?_eq_some, getD_insert]
    by_cases own : key = lostKey
    · subst own
      simp only [if_true, true_and, Std.TreeMap.getElem?_erase, Std.compare_eq_iff_eq,
        @eq_comm _ lostField field]
      split
      · rename_i same
        simp [same]
      · rename_i other
        simp [other]
    · simp only [own, if_false, false_and, not_false_eq_true, true_and]
  argument_whole text free :=
    List.takeWhile_eq_self_iff.mpr fun _ member => bne_iff_ne.mpr fun same => free (same ▸ member)
  argument_cut front rest free := by
    have kept := @List.takeWhile_append_of_pos _ (· != 0) front (0 :: rest)
      fun _ member => bne_iff_ne.mpr fun same => free (same ▸ member)
    exact kept.trans (List.append_nil front)

def firstNode : NodeProcess where
  udpBind := { host := ascii "10.0.0.1", port := 7001 }
  runtime := { config := { id := ascii "n1" }, versionCounter := 0 }

def secondNode : NodeProcess where
  udpBind := { host := ascii "10.0.0.2", port := 7002 }
  runtime := { config := { id := ascii "n2" }, versionCounter := 0 }

def onlyLeaf : LeafProcess where
  id := ascii "l"
  udpBind := { host := ascii "10.0.0.3", port := 7003 }

/-- Two nodes, and a leaf that registers under the first. -/
def twoNodes : Cluster sortedHashes where
  registry := { server := (∅ : Hashes) }
  nodes := [firstNode, secondNode]
  leaves := [onlyLeaf]

/-- All three start, and the second node makes a pass. -/
def secondNodePass : List DiscoveryEvent := [
  .node 0 (.start .answered .succeeds), .node 1 (.start .answered .succeeds),
  .leaf 0 (.start .answered 0), .leaf 0 (.register .answered true),
  .node 1 (.fetchNodes .answered), .node 1 (.fetchLeaves (ascii "n1") .answered)
]

theorem fresh_twoNodes : twoNodes.Fresh where
  shows := by
    rintro entry (shown | late)
    · have empty : sortedHashes.hgetall entry.key twoNodes.registry.server = [] :=
        congrArg Std.TreeMap.toList (Std.TreeMap.getD_emptyc : (∅ : Hashes).getD entry.key ∅ = ∅)
      rw [Registry.Shows, empty] at shown
      exact absurd shown List.not_mem_nil
    · exact absurd late List.not_mem_nil
  holds := by
    have idle : ∀ node ∈ twoNodes.nodes, node.toAsk = [] := by decide
    intro place member own nodeId held
    cases place with
    | node index =>
        obtain ⟨node, found, rfl⟩ := Option.map_eq_some_iff.mp own
        rcases held with asked | picked
        · have none_ : node.member.toAsk = [] := idle node (List.mem_of_getElem? found)
          exact absurd (none_ ▸ asked) List.not_mem_nil
        · cases picked
    | leaf index =>
        obtain ⟨leaf, found, rfl⟩ := Option.map_eq_some_iff.mp own
        obtain rfl := List.mem_singleton.mp (List.mem_of_getElem? found)
        rcases held with asked | picked
        · exact absurd asked List.not_mem_nil
        · cases picked
  known := by
    intro leaf member leafId
    obtain rfl := List.mem_singleton.mp member
    exact Std.TreeMap.getElem?_emptyc

end Creek.Mesh
