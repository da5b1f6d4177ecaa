import Creek.Proofs.Mesh.DiscoveryOrigins

/-! A pass of the discovery misses nobody. While the server loses nothing, a pass whose commands are all
answered meets every leaf that had been registered when it began.
-/

namespace Creek.Mesh

open Library (Run Since ascii)
open Telemetry (Address letter parseAddress)
open Tight (Bytes)

section

variable {redis : Redis}

namespace Cluster

/-- The nodes that a process has yet to ask for. -/
def toAsk (cluster : Cluster redis) (place : Place) : List Bytes :=
  ((cluster.member place).map Member.toAsk).getD []

/-- A process has met a leaf: a node has attached it, a leaf knows its address. -/
def Knows (leafId : Bytes) (cluster : Cluster redis) : Place → Prop
  | .node index =>
      ∃ node, cluster.nodes[index]? = some node ∧ node.runtime.leaves.contains leafId = true
  | .leaf index =>
      ∃ leaf, cluster.leaves[index]? = some leaf ∧ leaf.knownLeaves.contains leafId = true

/-- The addresses of the leaves are read back. -/
def Readable (cluster : Cluster redis) : Prop :=
  ∀ leaf ∈ cluster.leaves, (parseAddress (redis.argument (formatAddress leaf.udpBind))).isSome = true

instance (cluster : Cluster redis) : Decidable cluster.Readable :=
  inferInstanceAs (Decidable (∀ leaf ∈ cluster.leaves, _))

end Cluster

/-- The runs in which the server loses nothing. -/
def LosesNothing (_ : List (DiscoveryStage redis)) (_ : Cluster redis) (event : DiscoveryEvent) : Prop :=
  ∀ key field, event ≠ .lose key field

/-- A process has written an entry and has learned that the server has it. -/
def Acknowledged (entry : Registration) (history : List (DiscoveryStage redis)) : Prop :=
  ∃ stage ∈ history,
    (∃ index startup node, stage.event = .node index (.start .answered startup)
      ∧ stage.before.nodes[index]? = some node
      ∧ node.running = false
      ∧ node.entry redis = entry)
    ∨ ∃ index succeeds leaf nodeId, stage.event = .leaf index (.register .answered succeeds)
      ∧ stage.before.leaves[index]? = some leaf
      ∧ leaf.picked = some nodeId
      ∧ leaf.entry redis nodeId = entry

-- What is registered stays listed

section

variable {initial cluster after last : Cluster redis} {history : List (DiscoveryStage redis)}
  {event : DiscoveryEvent} {outputs : List RemotePeer} {place : Place} {member : Member}
  {nodeId leafId : Bytes}

theorem Member.Acts.lists {registry shared : Registry redis} {later : Member} {key field : Bytes}
    (acts : member.Acts registry place event later shared) (lists : registry.Lists key field)
    : shared.Lists key field := by
  cases acts with
  | starts => exact lists.register _ _
  | registers => exact lists.register _ _
  | _ => exact lists

theorem Cluster.Turn.lists (turn : Cluster.Turn cluster after event)
    (keeps : ∀ key field, event ≠ .lose key field) {key field : Bytes}
    (lists : cluster.registry.Lists key field)
    : after.registry.Lists key field := by
  cases turn with
  | acts mine own acts => exact acts.lists lists
  | serves shown kept => exact kept keeps key field lists

/-- The start of a node that has not been running, once it is answered. -/
theorem lists_start {node later : NodeProcess} {registry shared : Registry redis} {startup : Startup}
    {connects : List RemotePeer} (idle : node.running = false)
    (taken : node.step registry (.start .answered startup) = some (later, shared, connects))
    : shared.Lists (node.entry redis).key (node.entry redis).field := by
  have stored : (node.start .answered startup registry).2
      = { registry with server := redis.hset (node.entry redis) registry.server } := by
    cases startup <;> rfl
  simp only [NodeProcess.step, idle, Bool.false_eq_true, if_false, stored] at taken
  cases taken
  exact Registry.lists_hset _ _

theorem lists_register {leaf later : LeafProcess} {registry shared : Registry redis} {succeeds : Bool}
    {connects : List RemotePeer} {nodeId : Bytes} (picked : leaf.picked = some nodeId)
    (taken : leaf.step registry (.register .answered succeeds) = some (later, shared, connects))
    : shared.Lists (leaf.entry redis nodeId).key (leaf.entry redis nodeId).field := by
  simp only [LeafProcess.step, picked, Registry.register] at taken
  cases taken
  exact Registry.lists_hset _ _

theorem listed_of_run {entry : Registration}
    (run : Run Cluster.step LosesNothing initial history last)
    (acknowledged : Acknowledged entry history)
    : last.registry.Lists entry.key entry.field := by
  revert acknowledged
  refine run.invariant (fun history last => Acknowledged entry history
    → last.registry.Lists entry.key entry.field) ?_ ?_
  · rintro ⟨stage, member, -⟩
    exact absurd member List.not_mem_nil
  · rintro history cluster event after outputs - listed keeps taken ⟨stage, member, answered⟩
    rcases List.mem_append.mp member with earlier | latest
    · exact (Cluster.steps_of_ok taken).turn.lists keeps (listed ⟨stage, earlier, answered⟩)
    · obtain rfl := List.mem_singleton.mp latest
      have steps := Cluster.steps_of_ok taken
      rcases answered with ⟨index, startup, node, same, found, idle, rfl⟩
        | ⟨index, succeeds, leaf, nodeId, same, found, picked, rfl⟩
      · obtain rfl : event = .node index (.start .answered startup) := same
        cases steps with
        | node held moved =>
            obtain rfl := Option.some.inj (held.symm.trans found)
            exact lists_start idle moved
        | serves shown kept quiet => cases quiet
      · obtain rfl : event = .leaf index (.register .answered succeeds) := same
        cases steps with
        | leaf held moved =>
            obtain rfl := Option.some.inj (held.symm.trans found)
            exact lists_register picked moved
        | serves shown kept quiet => cases quiet

-- One pass

theorem mem_toAsk : nodeId ∈ cluster.toAsk place
    ↔ ∃ member, cluster.member place = some member ∧ nodeId ∈ member.toAsk := by
  rw [Cluster.toAsk]
  cases cluster.member place <;> simp

/-- The first command of a pass puts every other listed node on the list. -/
theorem asks_of_begin (turn : Cluster.Turn cluster after (place.fetchNodes .answered))
    (own : cluster.member place = some member)
    (lists : cluster.registry.Lists (redis.argument member.client.key) nodeId)
    (other : nodeId ≠ member.client.selfId)
    : nodeId ∈ after.toAsk place := by
  obtain ⟨text, shown⟩ := lists
  have fetched : nodeId
      ∈ idsToAsk member.client.selfId (member.client.fetchNodes .answered cluster.registry) :=
    mem_idsToAsk.mpr ⟨other, text, RedisClient.mem_fetchNodes.mpr ⟨rfl, shown⟩⟩
  cases turn with
  | @acts actor before later mine was acts moved others =>
      obtain rfl : place = actor := Option.some.inj ((place_fetchNodes place .answered).symm.trans mine)
      obtain rfl := Option.some.inj (was.symm.trans own)
      exact mem_toAsk.mpr ⟨later, moved, acts.toAsk_fetched fetched⟩
  | serves shown kept quiet =>
      rw [place_fetchNodes] at quiet
      cases quiet

/-- A node stays on the list of a process until the process asks for it. -/
theorem Member.Acts.waits {registry shared : Registry redis} {later : Member}
    (acts : member.Acts registry place event later shared)
    (waits : ∀ reply, event ≠ place.fetchLeaves nodeId reply) (listed : nodeId ∈ member.toAsk)
    : nodeId ∈ later.toAsk := by
  cases acts with
  | begins => exact List.mem_append_left _ listed
  | @asks asked reply =>
      have different : nodeId ≠ asked := fun same => waits reply (same ▸ rfl)
      exact (List.mem_erase_of_ne different).mpr listed
  | _ => exact listed

theorem Cluster.Turn.waits (turn : Cluster.Turn cluster after event)
    (waits : ∀ reply, event ≠ place.fetchLeaves nodeId reply)
    (listed : nodeId ∈ cluster.toAsk place)
    : nodeId ∈ after.toAsk place := by
  obtain ⟨member, own, listed⟩ := mem_toAsk.mp listed
  cases turn with
  | @acts actor before later mine was acts moved others =>
      by_cases same : place = actor
      · subst same
        obtain rfl := Option.some.inj (was.symm.trans own)
        exact mem_toAsk.mpr ⟨later, moved, acts.waits waits listed⟩
      · exact mem_toAsk.mpr ⟨member, (others place same).trans own, listed⟩
  | serves shown kept quiet others => exact mem_toAsk.mpr ⟨member, (others place).trans own, listed⟩

theorem Cluster.Steps.knows (steps : cluster.Steps event after outputs) {index : Nat}
    (known : cluster.Knows leafId (.leaf index))
    : after.Knows leafId (.leaf index) := by
  cases steps with
  | @leaf other step leaf later _ _ found moved =>
      obtain ⟨own, here, known⟩ := known
      simp only [Cluster.Knows, getElem?_set_found found]
      by_cases same : index = other
      · subst same
        obtain rfl : own = leaf := Option.some.inj (here.symm.trans found)
        refine ⟨later, if_pos rfl, ?_⟩
        rcases LeafProcess.knownLeaves_of_step moved with same | ⟨nodeId, reply, -, learns⟩
        · exact same ▸ known
        · rw [learns]
          refine learn_keeps
            (fun learned : LeafProcess => learned.knownLeaves.contains leafId = true) ?_ known
          intro otherId _ address learned _ _ _ known
          rw [Std.TreeMap.contains_insert, known, Bool.or_true]
      · exact ⟨own, (if_neg same).trans here, known⟩
  | node => exact known
  | serves => exact known

theorem NodeRuntime.learnLeaves_knows {leafId text : Bytes} {address : Address}
    {leaves : List (Bytes × Bytes)} {node : NodeRuntime} (listed : (leafId, text) ∈ leaves)
    (parsed : parseAddress text = some address)
    : (node.learnLeaves leaves).1.leaves.contains leafId = true := by
  refine @learn_covers NodeRuntime (fun node leafId => node.leaves.contains leafId) _ _ node leafId
    text address ?_ ?_ listed parsed
  · intro address learned
    exact Std.TreeSet.contains_insert_self
  · intro otherId address learned known
    simp only [discoverLeaf, Std.TreeSet.contains_insert, known, Bool.or_true]

theorem LeafProcess.learnLeaves_knows {leafId text : Bytes} {address : Address}
    {leaves : List (Bytes × Bytes)} {leaf : LeafProcess} (listed : (leafId, text) ∈ leaves)
    (parsed : parseAddress text = some address)
    : (leaf.learnLeaves leaves).knownLeaves.contains leafId = true := by
  refine @learn_covers LeafProcess (fun leaf leafId => leaf.knownLeaves.contains leafId) _ _ leaf
    leafId text address ?_ ?_ listed parsed
  · intro address learned
    exact Std.TreeMap.contains_insert_self
  · intro otherId address learned known
    simp only [Std.TreeMap.contains_insert, known, Bool.or_true]

/-- The answer to the command for a node makes its readable leaves known. -/
theorem knows_of_answer {text : Bytes} {address : Address}
    (taken : cluster.step (place.fetchLeaves nodeId .answered) = .ok (after, outputs))
    (own : cluster.member place = some member)
    (shown : cluster.registry.Shows {
      key := redis.argument member.client.leavesKey
      field := nodeId ++ letter ':' :: leafId
      value := text
    })
    (parsed : parseAddress text = some address)
    : after.Knows leafId place := by
  have listed : (leafId, text) ∈ member.client.fetchLeavesForNode nodeId .answered cluster.registry :=
    RedisClient.mem_fetchLeavesForNode.mpr ⟨rfl, shown⟩
  cases place with
  | node index =>
      obtain ⟨node, found, rfl⟩ := Option.map_eq_some_iff.mp own
      simp only [Place.fetchLeaves, Cluster.step, found, NodeProcess.step] at taken
      split at taken
      · cases taken
      · rename_i moved
        split at moved <;> cases moved
        cases taken
        simp only [Cluster.Knows, getElem?_set_found found, if_true]
        exact ⟨_, rfl, NodeRuntime.learnLeaves_knows listed parsed⟩
  | leaf index =>
      obtain ⟨leaf, found, rfl⟩ := Option.map_eq_some_iff.mp own
      simp only [Place.fetchLeaves, Cluster.step, found, LeafProcess.step] at taken
      split at taken
      · cases taken
      · rename_i moved
        split at moved <;> cases moved
        cases taken
        simp only [Cluster.Knows, getElem?_set_found found, if_true]
        exact ⟨_, rfl, LeafProcess.learnLeaves_knows listed parsed⟩

/-- A pass has begun in view of a node. -/
def BeganWith (place : Place) (nodeId : Bytes) (stage : DiscoveryStage redis) : Prop :=
  stage.event = place.fetchNodes .answered
    ∧ ∃ member, stage.before.member place = some member
      ∧ stage.before.registry.Lists (redis.argument member.client.key) nodeId
      ∧ nodeId ≠ member.client.selfId

/-- The process does not ask for the node. -/
def LeavesOut (place : Place) (nodeId : Bytes) (stage : DiscoveryStage redis) : Prop :=
  ∀ reply, stage.event ≠ place.fetchLeaves nodeId reply

/-- Since a pass has begun in view of a node, that node is on the list of the process unless it has asked. -/
theorem waits_of_run (run : Run Cluster.step LosesNothing initial history last)
    (since : Since (BeganWith place nodeId) (LeavesOut place nodeId) history)
    : nodeId ∈ last.toAsk place := by
  revert since
  refine run.invariant
    (fun history last => Since (BeganWith place nodeId) (LeavesOut place nodeId) history
      → nodeId ∈ last.toAsk place) ?_ ?_
  · exact fun since => absurd since Library.not_since_nil
  · intro history cluster event after outputs _ listed _ taken since
    have turn := (Cluster.steps_of_ok taken).turn
    rcases Library.since_append.mp since with ⟨begins, member, own, lists, other⟩ | ⟨earlier, waits⟩
    · obtain rfl : event = place.fetchNodes .answered := begins
      exact asks_of_begin turn own lists other
    · exact turn.waits waits (listed earlier)

/-- What a leaf has learned in some step it knows in the end. -/
theorem knows_of_run {index : Nat} (run : Run Cluster.step LosesNothing initial history last)
    {front back : List (DiscoveryStage redis)} {stage : DiscoveryStage redis}
    (split : history = front ++ stage :: back)
    (taken : Cluster.step stage.before stage.event = .ok (after, stage.outputs))
    (known : after.Knows leafId (.leaf index))
    : last.Knows leafId (.leaf index) := by
  have learned : Since
      (fun stage : DiscoveryStage redis => ∃ after,
        Cluster.step stage.before stage.event = .ok (after, stage.outputs)
          ∧ after.Knows leafId (.leaf index))
      (fun _ => True) history :=
    ⟨front, stage, back, split, ⟨after, taken, known⟩, fun _ _ => trivial⟩
  revert learned
  refine run.invariant (fun history last => Since _ _ history → last.Knows leafId (.leaf index)) ?_ ?_
  · exact fun since => absurd since Library.not_since_nil
  · intro history cluster event after outputs _ kept _ taken since
    rcases Library.since_append.mp since with ⟨reached, same, known⟩ | ⟨earlier, -⟩
    · obtain rfl : after = reached := congrArg Prod.fst (Except.ok.inj (taken.symm.trans same))
      exact known
    · exact (Cluster.steps_of_ok taken).knows (kept earlier)

/-- The commands of a pass, which ends with nothing left on the list of the process. -/
structure Pass (place : Place) (stage : DiscoveryStage redis) (back : List (DiscoveryStage redis))
    (last : Cluster redis)
    : Prop where
  begins : stage.event = place.fetchNodes .answered
  answered : ∀ later ∈ back, ∀ nodeId reply, later.event = place.fetchLeaves nodeId reply
    → reply = .answered
  ends : last.toAsk place = []

/-- A pass that misses no answer asks for every node that had registered before it. -/
theorem Pass.asks {front back : List (DiscoveryStage redis)} {stage : DiscoveryStage redis}
    (pass : Pass place stage back last)
    (run : Run Cluster.step LosesNothing initial (front ++ stage :: back) last)
    (began : BeganWith place nodeId stage)
    : ∃ later ∈ back, later.event = place.fetchLeaves nodeId .answered := by
  by_contra leftOut
  have waits : nodeId ∈ last.toAsk place := by
    refine waits_of_run run ⟨front, stage, back, rfl, began, fun later member reply asked => ?_⟩
    obtain rfl := pass.answered later member nodeId reply asked
    exact leftOut ⟨later, member, asked⟩
  rw [pass.ends] at waits
  exact absurd waits List.not_mem_nil

theorem Origins.readable (origins : Origins initial history cluster) (apart : initial.KeysApart)
    (readable : initial.Readable) (own : cluster.member place = some member) {field text : Bytes}
    (shown : cluster.registry.Shows
      { key := redis.argument member.client.leavesKey, field, value := text })
    : ∃ address, parseAddress text = some address := by
  obtain ⟨index, writer, parent, found, written, -⟩ :=
    origins.leafWrote apart (origins.key_mem own) shown
  obtain ⟨leaf, held, rfl⟩ := Option.map_eq_some_iff.mp found
  have value : redis.argument (formatAddress leaf.udpBind) = text := congrArg Registration.value written
  exact Option.isSome_iff_exists.mp (value ▸ readable leaf (List.mem_of_getElem? held))

/-- A pass whose commands are all answered meets every leaf whose registration was acknowledged, and that
of its node, when it began; and what a leaf has met it knows from then on.
-/
theorem pass_meets_leaves (fresh : initial.Fresh) (apart : initial.KeysApart)
    (ids : initial.PlainIds) (readable : initial.Readable) {front back : List (DiscoveryStage redis)}
    {stage : DiscoveryStage redis}
    (run : Run Cluster.step LosesNothing initial (front ++ stage :: back) last)
    (pass : Pass place stage back last) (own : initial.member place = some member)
    {node : NodeProcess} {leaf : LeafProcess}
    (keys : node.key = member.client.key ∧ leaf.key = member.client.key)
    (other : redis.argument node.runtime.config.id ≠ member.client.selfId)
    (nodeRegistered : Acknowledged (node.entry redis) front)
    (leafRegistered : Acknowledged (leaf.entry redis (redis.argument node.runtime.config.id)) front)
    : (∃ later ∈ back, ∃ after, Cluster.step later.before later.event = .ok (after, later.outputs)
        ∧ after.Knows (redis.argument leaf.id) place)
      ∧ ∀ index, place = .leaf index → last.Knows (redis.argument leaf.id) place := by
  have steady {history : List (DiscoveryStage redis)} {last : Cluster redis}
      (run : Run Cluster.step LosesNothing initial history last)
      : Origins initial history last
        ∧ ∃ now, last.member place = some now ∧ now.client = member.client := by
    have origins := origins_of_run fresh apart ids (run.mono fun _ _ _ _ => trivial)
    have same := origins.steady place
    rw [own, Option.map_some] at same
    obtain ⟨now, here, identical⟩ := Option.map_eq_some_iff.mp same
    exact ⟨origins, now, here, congrArg Prod.fst identical⟩
  -- The first command lists the node, so that the pass asks for its leaves.
  have began : BeganWith place (redis.argument node.runtime.config.id) stage := by
    obtain ⟨earlier, -, -⟩ := run.at_stage rfl
    obtain ⟨-, now, here, same⟩ := steady earlier
    have lists : stage.before.registry.Lists (redis.argument node.key)
        (redis.argument node.runtime.config.id) :=
      listed_of_run earlier nodeRegistered
    exact ⟨pass.begins, now, here, by rw [same, ← keys.1]; exact lists, same ▸ other⟩
  obtain ⟨later, inPass, asks⟩ := pass.asks run began
  obtain ⟨middle, rest, rfl⟩ := List.append_of_mem inPass
  have split : front ++ stage :: (middle ++ later :: rest)
      = (front ++ stage :: middle) ++ later :: rest := by
    rw [List.append_assoc, List.cons_append]
  obtain ⟨earlier, -, after, taken⟩ := run.at_stage split
  obtain ⟨origins, now, here, same⟩ := steady earlier
  -- The leaf is still listed then, with the address of some leaf of the cluster.
  have registered : Acknowledged (leaf.entry redis (redis.argument node.runtime.config.id))
      (front ++ stage :: middle) := by
    obtain ⟨first, inFront, registers⟩ := leafRegistered
    exact ⟨first, List.mem_append_left _ inFront, registers⟩
  obtain ⟨text, shown⟩ := listed_of_run earlier registered
  have field : (leaf.entry redis (redis.argument node.runtime.config.id)).field
      = redis.argument node.runtime.config.id ++ letter ':' :: redis.argument leaf.id :=
    (redis.argument_append (redis.zero_notMem_argument _) _).trans
      (congrArg _ (redis.argument_append (by decide : 0 ∉ [letter ':']) leaf.id))
  have key : (leaf.entry redis (redis.argument node.runtime.config.id)).key
      = redis.argument now.client.leavesKey := by
    rw [same]
    exact congrArg (fun key => redis.argument (key ++ ascii ":leaves")) keys.2
  rw [field, key] at shown
  obtain ⟨address, parsed⟩ := origins.readable apart readable here shown
  have known : after.Knows (redis.argument leaf.id) place :=
    knows_of_answer (asks ▸ taken) here shown parsed
  refine ⟨⟨later, inPass, after, taken, known⟩, ?_⟩
  rintro index rfl
  exact knows_of_run run split taken known

end

end

/-- Whether an event is none that the server loses something in. -/
def DiscoveryEvent.keeps : DiscoveryEvent → Bool
  | .lose .. => false
  | _ => true

/-- What the pass of the second node shows: nothing is lost, the first node starts once, the leaf picks it,
and the second node has asked for everything in the end.
-/
def showsPass (history : List (DiscoveryStage sortedHashes)) (last : Cluster sortedHashes) : Bool :=
  Library.audit (fun _ _ event => event.keeps) [] history
    && decide ((history.map fun stage =>
        stage.before.nodes[0]?.map fun node => (node.running, node.entry sortedHashes))[0]?
      = some (some (false, firstNode.entry sortedHashes)))
    && decide ((history.map fun stage =>
        stage.before.leaves[0]?.map fun leaf => (leaf.picked, leaf.entry sortedHashes (ascii "n1")))[3]?
      = some (some (some (ascii "n1"), onlyLeaf.entry sortedHashes (ascii "n1"))))
    && decide (last.toAsk (.node 1) = [])

theorem pass_meets_leaves_twoNodes
    : ∃ history last, Run Cluster.step LosesNothing twoNodes history last
      ∧ ∃ later ∈ history, ∃ after,
        Cluster.step later.before later.event = .ok (after, later.outputs)
          ∧ after.Knows (ascii "l") (.node 1) := by
  have facts : (match Library.execute Cluster.step twoNodes secondNodePass with
      | .error _ => false
      | .ok (history, last) => showsPass history last) = true := by
    decide +kernel
  rcases executed : Library.execute Cluster.step twoNodes secondNodePass
    with fault | ⟨history, last⟩
  · rw [executed] at facts
    cases facts
  · rw [executed] at facts
    simp only [showsPass, Bool.and_eq_true, decide_eq_true_eq] at facts
    obtain ⟨⟨⟨audited, first⟩, only⟩, ends⟩ := facts
    have events := Library.execute_events executed
    have run : Run Cluster.step LosesNothing twoNodes history last := by
      refine (Run.extend .start executed).of_audit ?_ audited
      rintro front before event keeps key field rfl
      cases keeps
    obtain ⟨starts, rest, rfl, start, events⟩ := List.map_eq_cons_iff.mp events
    obtain ⟨second, rest, rfl, -, events⟩ := List.map_eq_cons_iff.mp events
    obtain ⟨picks, rest, rfl, -, events⟩ := List.map_eq_cons_iff.mp events
    obtain ⟨registers, rest, rfl, register, events⟩ := List.map_eq_cons_iff.mp events
    obtain ⟨stage, rest, rfl, begins, events⟩ := List.map_eq_cons_iff.mp events
    obtain ⟨asks, rest, rfl, asked, events⟩ := List.map_eq_cons_iff.mp events
    obtain rfl := List.map_eq_nil_iff.mp events
    simp only [List.map_cons, List.getElem?_cons_zero, List.getElem?_cons_succ,
      Option.some.injEq] at first only
    obtain ⟨node, found, same⟩ := Option.map_eq_some_iff.mp first
    obtain ⟨idle, nodeEntry⟩ := Prod.mk.inj same
    obtain ⟨leaf, held, same⟩ := Option.map_eq_some_iff.mp only
    obtain ⟨picked, leafEntry⟩ := Prod.mk.inj same
    have pass : Pass (.node 1) stage [asks] last := by
      refine ⟨begins, ?_, ends⟩
      intro later member nodeId reply same
      obtain rfl := List.mem_singleton.mp member
      cases asked.symm.trans same
      rfl
    have id : sortedHashes.argument firstNode.runtime.config.id = ascii "n1" := by
      decide +kernel
    have nodeRegistered : Acknowledged (firstNode.entry sortedHashes)
        [starts, second, picks, registers] :=
      ⟨starts, List.mem_cons_self, .inl ⟨0, _, node, start, found, idle, nodeEntry⟩⟩
    have leafRegistered : Acknowledged
        (onlyLeaf.entry sortedHashes (sortedHashes.argument firstNode.runtime.config.id))
        [starts, second, picks, registers] :=
      ⟨registers, by simp, .inr ⟨0, _, leaf, _, register, held, picked, id ▸ leafEntry⟩⟩
    have met := @pass_meets_leaves sortedHashes twoNodes last (.node 1) secondNode.member fresh_twoNodes
      (by decide +kernel) (by decide +kernel) (by decide +kernel) _ _ stage run pass rfl firstNode
      onlyLeaf ⟨rfl, rfl⟩ (by decide +kernel) nodeRegistered leafRegistered
    obtain ⟨later, member, after, taken, known⟩ := met.1
    obtain rfl := List.mem_singleton.mp member
    exact ⟨_, _, run, later, by simp, after, taken, known⟩

end Creek.Mesh
