import Creek.Library.Lookups
import Creek.Library.Runs
import Creek.Proofs.Mesh.AddressTexts

/-! What one command does to the registry, and what one step does to a process. -/

namespace Creek.Mesh

open Library (ascii)
open Telemetry (Address letter parseAddress)
open Tight (Bytes)

-- Arguments of commands

namespace Redis

variable {redis : Redis}

/-- What is taken of a text, as the standard library's `strlen` measures it. -/
theorem argument_eq (text : Bytes) : redis.argument text = text.takeWhile (· != 0) := by
  have free : 0 ∉ text.takeWhile (· != 0) := Library.mark_notMem_takeWhile text
  have whole := text.takeWhile_append_dropWhile (p := (· != 0))
  rcases behind : text.dropWhile (· != 0) with _ | ⟨zero, rest⟩
  · rw [behind, List.append_nil] at whole
    rw [whole] at free ⊢
    exact redis.argument_whole text free
  · obtain rfl : zero = 0 := by simpa [behind] using List.head?_dropWhile_not (· != 0) text
    rw [behind] at whole
    have cut := redis.argument_cut _ rest free
    rwa [whole] at cut

theorem zero_notMem_argument (text : Bytes) : 0 ∉ redis.argument text := by
  rw [argument_eq]
  exact Library.mark_notMem_takeWhile text

theorem argument_prefix (text : Bytes) : redis.argument text <+: text := by
  rw [argument_eq]
  exact List.takeWhile_prefix _

theorem argument_append {front : Bytes} (free : 0 ∉ front) (rest : Bytes)
    : redis.argument (front ++ rest) = front ++ redis.argument rest := by
  rw [argument_eq, argument_eq]
  exact List.takeWhile_append_of_pos fun _ member => bne_iff_ne.mpr fun same => free (same ▸ member)

end Redis

-- The entries of the registry

section

variable {redis : Redis} {registry : Registry redis} {entry other : Registration} {key field : Bytes}
  {late : List Registration}

namespace Registry

/-- The server shows an entry to whoever reads its hash. -/
def Shows (entry : Registration) (registry : Registry redis) : Prop :=
  (entry.field, entry.value) ∈ redis.hgetall entry.key registry.server

/-- What is shown after a write was written or shown before. -/
theorem shows_hset
    (shown : ({ server := redis.hset entry registry.server, late } : Registry redis).Shows other)
    : other = entry ∨ registry.Shows other := by
  rw [Shows, redis.mem_hset] at shown
  split at shown
  · rename_i same
    obtain ⟨key, field, value⟩ := other
    obtain ⟨rfl, rfl⟩ := same
    exact .inl (congrArg (Registration.mk _ _) shown)
  · exact .inr shown

theorem shows_hdel
    (shown : ({ server := redis.hdel key field registry.server, late } : Registry redis).Shows entry)
    : registry.Shows entry :=
  ((redis.mem_hdel _ _ _ _ _ _).mp shown).2

/-- The server lists a field, whatever its value. -/
def Lists (key field : Bytes) (registry : Registry redis) : Prop :=
  ∃ value, registry.Shows { key, field, value }

theorem Lists.hset (lists : registry.Lists key field) (entry : Registration)
    : ({ server := redis.hset entry registry.server, late } : Registry redis).Lists key field := by
  obtain ⟨value, shown⟩ := lists
  by_cases same : key = entry.key ∧ field = entry.field
  · exact ⟨entry.value, (redis.mem_hset _ _ _ _ _).mpr ((if_pos same).mpr rfl)⟩
  · exact ⟨value, (redis.mem_hset _ _ _ _ _).mpr ((if_neg same).mpr shown)⟩

theorem lists_hset (entry : Registration) (registry : Registry redis)
    : ({ server := redis.hset entry registry.server, late } : Registry redis).Lists
        entry.key entry.field :=
  ⟨entry.value, (redis.mem_hset _ _ _ _ _).mpr ((if_pos ⟨rfl, rfl⟩).mpr rfl)⟩

theorem Lists.register (lists : registry.Lists key field) (entry : Registration) (reply : Reply)
    : (registry.register entry reply).1.Lists key field := by
  cases reply with
  | answered => exact lists.hset entry
  | _ => exact lists

/-- The server may yet show an entry, though nobody writes it again. -/
def MayShow (entry : Registration) (registry : Registry redis) : Prop :=
  registry.Shows entry ∨ entry ∈ registry.late

theorem mayShow_register {reply : Reply} (shown : (registry.register entry reply).1.MayShow other)
    : other = entry ∨ registry.MayShow other := by
  cases reply with
  | unconnected => exact .inr shown
  | refused => exact .inr shown
  | answered =>
      rcases shown with shown | late
      · exact (shows_hset shown).imp_right .inl
      · exact .inr (.inr late)
  | timedOut =>
      rcases shown with shown | late
      · exact .inr (.inl shown)
      · rcases List.mem_append.mp late with earlier | last
        · exact .inr (.inr earlier)
        · exact .inl (List.mem_singleton.mp last)

theorem mayShow_execute {index : Nat} (found : registry.late[index]? = some entry)
    (shown : ({
        server := redis.hset entry registry.server
        late := registry.late.eraseIdx index
      } : Registry redis).MayShow other)
    : registry.MayShow other := by
  rcases shown with shown | late
  · rcases shows_hset shown with rfl | before
    · exact .inr (List.mem_of_getElem? found)
    · exact .inl before
  · exact .inr (List.mem_of_mem_eraseIdx late)

theorem mayShow_hdel
    (shown : ({ registry with server := redis.hdel key field registry.server } : Registry redis).MayShow
      entry)
    : registry.MayShow entry :=
  shown.imp_left shows_hdel

end Registry

-- What is fetched

namespace RedisClient

variable {reply : Reply} {client : RedisClient}

theorem mem_hgetall {key field value : Bytes}
    : (field, value) ∈ hgetall key reply registry
      ↔ reply = .answered ∧ registry.Shows { key := redis.argument key, field, value } := by
  unfold hgetall
  split
  · rename_i arrives
    exact (and_iff_right arrives).symm
  · rename_i absent
    exact ⟨fun member => absurd member List.not_mem_nil, fun both => absurd both.1 absent⟩

theorem mem_fetchNodes {nodeId text : Bytes}
    : (nodeId, text) ∈ client.fetchNodes reply registry
      ↔ reply = .answered
        ∧ registry.Shows { key := redis.argument client.key, field := nodeId, value := text } :=
  mem_hgetall

/-- The leaves of a node are those whose field is its id, a colon and theirs. -/
theorem mem_fetchLeavesForNode {nodeId leafId text : Bytes}
    : (leafId, text) ∈ client.fetchLeavesForNode nodeId reply registry
      ↔ reply = .answered
        ∧ registry.Shows {
            key := redis.argument client.leavesKey
            field := nodeId ++ letter ':' :: leafId
            value := text
          } := by
  rw [fetchLeavesForNode, List.mem_filterMap]
  constructor
  · rintro ⟨⟨field, value⟩, member, kept⟩
    simp only at kept
    split at kept
    · rename_i begins
      obtain ⟨rest, rfl⟩ := List.isPrefixOf_iff_prefix.mp begins
      have left : (nodeId ++ [letter ':'] ++ rest).drop (nodeId.length + 1) = rest :=
        List.drop_left' (by simp)
      rw [left] at kept
      obtain ⟨rfl, rfl⟩ := Prod.mk.inj (Option.some.inj kept)
      rw [List.append_assoc] at member
      exact mem_hgetall.mp member
    · cases kept
  · intro shown
    refine ⟨_, mem_hgetall.mpr shown, ?_⟩
    have begins : (nodeId ++ [letter ':']).isPrefixOf (nodeId ++ letter ':' :: leafId) = true :=
      List.isPrefixOf_iff_prefix.mpr ⟨leafId, by simp⟩
    have left : (nodeId ++ letter ':' :: leafId).drop (nodeId.length + 1) = leafId := by
      rw [← List.singleton_append, ← List.append_assoc]
      exact List.drop_left' (by simp)
    simp only [if_pos begins, left]

end RedisClient

end

theorem mem_idsToAsk {selfId nodeId : Bytes} {nodes : List (Bytes × Bytes)}
    : nodeId ∈ idsToAsk selfId nodes ↔ nodeId ≠ selfId ∧ ∃ text, (nodeId, text) ∈ nodes := by
  rw [idsToAsk, List.mem_filter, List.mem_map]
  constructor
  · intro ⟨⟨⟨found, text⟩, member, same⟩, other⟩
    exact ⟨of_decide_eq_true other, text, same ▸ member⟩
  · intro ⟨other, text, member⟩
    exact ⟨⟨_, member, rfl⟩, decide_eq_true other⟩

theorem pickNode_mem {parents : List Bytes} {draw : Nat} {nodes : List (Bytes × Bytes)}
    {nodeId : Bytes} (picked : pickNode parents draw nodes = some nodeId)
    : ∃ text, (nodeId, text) ∈ nodes := by
  have listed : nodeId ∈ nodes.map Prod.fst := by
    simp only [pickNode] at picked
    split at picked
    · exact List.mem_of_getElem? picked
    · split at picked
      · rename_i member
        exact Option.some.inj picked ▸ List.contains_iff_mem.mp member
      · cases picked
  obtain ⟨⟨found, text⟩, member, same⟩ := List.mem_map.mp listed
  exact ⟨text, same ▸ member⟩

-- What is taken up

section

variable {σ : Type} {known : σ → Bytes → Bool} {takeUp : Bytes → Address → σ → σ}
  {entries : List (Bytes × Bytes)} {state : σ}

/-- Every peer taken up stands with its address among the entries. -/
theorem mem_learn {peer : RemotePeer} (member : peer ∈ (learn known takeUp entries state).2)
    : ∃ text, (peer.id, text) ∈ entries ∧ parseAddress text = some peer.address := by
  fun_induction learn known takeUp entries state with
  | case1 => exact absurd member List.not_mem_nil
  | case2 id text rest state seen ih =>
      obtain ⟨text, listed, parsed⟩ := ih member
      exact ⟨text, List.mem_cons_of_mem _ listed, parsed⟩
  | case3 id text rest state unseen unread ih =>
      obtain ⟨text, listed, parsed⟩ := ih member
      exact ⟨text, List.mem_cons_of_mem _ listed, parsed⟩
  | case4 id text rest state unseen address parsed later ih =>
      rcases List.mem_cons.mp member with rfl | behind
      · exact ⟨text, List.mem_cons_self, parsed⟩
      · obtain ⟨text, listed, parsed⟩ := ih behind
        exact ⟨text, List.mem_cons_of_mem _ listed, parsed⟩

theorem learn_keeps (holds : σ → Prop)
    (kept : ∀ id text address state, (id, text) ∈ entries
      → parseAddress text = some address
      → known state id = false
      → holds state
      → holds (takeUp id address state))
    (initially : holds state)
    : holds (learn known takeUp entries state).1 := by
  fun_induction learn known takeUp entries state with
  | case1 => exact initially
  | case2 id text rest state seen ih =>
      exact ih (fun id text address state listed =>
        kept id text address state (List.mem_cons_of_mem _ listed)) initially
  | case3 id text rest state unseen unread ih =>
      exact ih (fun id text address state listed =>
        kept id text address state (List.mem_cons_of_mem _ listed)) initially
  | case4 id text rest state unseen address parsed later ih =>
      refine ih (fun id text address state listed =>
        kept id text address state (List.mem_cons_of_mem _ listed)) ?_
      exact kept id text address state List.mem_cons_self parsed (Bool.eq_false_iff.mpr unseen)
        initially

/-- An entry with an address is known in the end, if nothing is unlearned. -/
theorem learn_covers {id text : Bytes} {address : Address}
    (taken : ∀ address state, known (takeUp id address state) id = true)
    (lasts : ∀ other address state, known state id = true
      → known (takeUp other address state) id = true)
    (listed : (id, text) ∈ entries) (parsed : parseAddress text = some address)
    : known (learn known takeUp entries state).1 id = true := by
  have stays {rest : List (Bytes × Bytes)} {state : σ} (seen : known state id = true)
      : known (learn known takeUp rest state).1 id = true :=
    learn_keeps (fun state => known state id = true)
      (fun other _ address state _ _ _ => lasts other address state) seen
  fun_induction learn known takeUp entries state with
  | case1 => exact absurd listed List.not_mem_nil
  | case2 other otherText rest state seen ih =>
      rcases List.mem_cons.mp listed with same | behind
      · exact stays ((Prod.mk.inj same).1 ▸ seen)
      · exact ih behind
  | case3 other otherText rest state unseen unread ih =>
      rcases List.mem_cons.mp listed with same | behind
      · rw [(Prod.mk.inj same).2, unread] at parsed
        cases parsed
      · exact ih behind
  | case4 other otherText rest state unseen found read later ih =>
      rcases List.mem_cons.mp listed with same | behind
      · obtain ⟨rfl, rfl⟩ := Prod.mk.inj same
        exact stays (taken found state)
      · exact ih behind

end

-- The members of a cluster

/-- A process by its place in the cluster. -/
inductive Place where
  | node (index : Nat)
  | leaf (index : Nat)
  deriving DecidableEq, Repr

namespace Place

def fetchNodes (reply : Reply) : Place → DiscoveryEvent
  | .node index => .node index (.fetchNodes reply)
  | .leaf index => .leaf index (.fetchNodes reply)

def fetchLeaves (nodeId : Bytes) (reply : Reply) : Place → DiscoveryEvent
  | .node index => .node index (.fetchLeaves nodeId reply)
  | .leaf index => .leaf index (.fetchLeaves nodeId reply)

end Place

/-- The place of the process that takes the step. -/
def DiscoveryEvent.place : DiscoveryEvent → Option Place
  | .node index _ => some (.node index)
  | .leaf index _ => some (.leaf index)
  | .execute _ | .lose .. => none

@[simp] theorem place_fetchNodes (place : Place) (reply : Reply)
    : (place.fetchNodes reply).place = some place := by
  cases place <;> rfl

theorem fetchNodes_reply {place : Place} {reply other : Reply}
    (same : place.fetchNodes reply = place.fetchNodes other)
    : reply = other := by
  cases place <;> cases same <;> rfl

/-- What the registry has to do with a process. -/
structure Member where
  client : RedisClient
  udpBind : Address
  toAsk : List Bytes
  picked : Option Bytes

namespace Member

/-- What of a member never changes. -/
def identity (member : Member) : RedisClient × Address := (member.client, member.udpBind)

def nodeEntry (redis : Redis) (member : Member) : Registration :=
  member.client.nodeEntry redis (formatAddress member.udpBind)

def leafEntry (redis : Redis) (nodeId : Bytes) (member : Member) : Registration :=
  member.client.leafEntry redis (formatAddress member.udpBind) nodeId

/-- A node id that a member still has a use for. -/
def Holds (nodeId : Bytes) (member : Member) : Prop :=
  nodeId ∈ member.toAsk ∨ member.picked = some nodeId

end Member

def NodeProcess.member (node : NodeProcess) : Member where
  client := node.client
  udpBind := node.udpBind
  toAsk := node.toAsk
  picked := none

def LeafProcess.member (leaf : LeafProcess) : Member where
  client := leaf.client
  udpBind := leaf.udpBind
  toAsk := leaf.toAsk
  picked := leaf.picked

section

variable {redis : Redis}

def Cluster.member (cluster : Cluster redis) : Place → Option Member
  | .node index => cluster.nodes[index]?.map NodeProcess.member
  | .leaf index => cluster.leaves[index]?.map LeafProcess.member

/-- What an event makes of a member and of the registry. -/
inductive Member.Acts (registry : Registry redis) (place : Place) (member : Member)
    : DiscoveryEvent → Member → Registry redis → Prop
  | idle {event : DiscoveryEvent} (busy : ∀ reply, event ≠ place.fetchNodes reply)
      : Acts registry place member event member registry
  | starts {index : Nat} {reply : Reply} {startup : Startup} (here : place = .node index)
      : Acts registry place member (.node index (.start reply startup)) member
          (registry.register (member.nodeEntry redis) reply).1
  | picks {index : Nat} {reply : Reply} {draw : Nat} {picked : Option Bytes}
      (fetched : ∀ nodeId, picked = some nodeId
        → ∃ text, (nodeId, text) ∈ member.client.fetchNodes reply registry)
      : Acts registry place member (.leaf index (.start reply draw)) { member with picked } registry
  | registers {index : Nat} {reply : Reply} {succeeds : Bool} {nodeId : Bytes}
      (here : place = .leaf index) (picked : member.picked = some nodeId)
      : Acts registry place member (.leaf index (.register reply succeeds))
          { member with picked := none } (registry.register (member.leafEntry redis nodeId) reply).1
  | begins {reply : Reply}
      : Acts registry place member (place.fetchNodes reply)
          {
            member with
            toAsk := member.toAsk
              ++ idsToAsk member.client.selfId (member.client.fetchNodes reply registry)
          } registry
  | asks {nodeId : Bytes} {reply : Reply} (asked : nodeId ∈ member.toAsk)
      : Acts registry place member (place.fetchLeaves nodeId reply)
          { member with toAsk := member.toAsk.erase nodeId } registry

/-- The first command of a pass puts every other node that it fetches on the list. -/
theorem Member.Acts.toAsk_fetched {registry shared : Registry redis} {place : Place} {member later : Member}
    {reply : Reply} {nodeId : Bytes}
    (acts : member.Acts registry place (place.fetchNodes reply) later shared)
    (fetched : nodeId ∈ idsToAsk member.client.selfId (member.client.fetchNodes reply registry))
    : nodeId ∈ later.toAsk := by
  generalize same : place.fetchNodes reply = event at acts
  cases acts with
  | idle busy => exact absurd same.symm (busy reply)
  | begins =>
      obtain rfl := fetchNodes_reply same
      exact List.mem_append_right _ fetched
  | _ => cases place <;> cases same

-- What a step of a process can do

theorem NodeRuntime.revokeLeaf_config (leafId : Bytes) (now : UInt64) (order : List Bytes)
    (node : NodeRuntime)
    : (node.revokeLeaf leafId now order).1.config = node.config := by
  simp only [revokeLeaf]
  split <;> rfl

theorem NodeRuntime.react_config (node : NodeRuntime) (event : NodeEvent)
    : (node.react event).1.config = node.config := by
  cases event with
  | peer event now order =>
      simp only [react, onPeerEvent]
      split
      · split
        · split
          · exact revokeLeaf_config _ now order _
          · rfl
        · rfl
      · split <;> rfl
  | directory peerId received now order =>
      simp only [react, handleDirectory]
      split
      · rfl
      · split <;> rfl
  | sync now => rfl
  | nodeDiscovered nodeId =>
      simp only [react, discoverNode]
      split <;> rfl
  | leafDiscovered leafId => rfl

namespace NodeProcess

variable {registry later : Registry redis} {node after : NodeProcess} {step : NodeStep}
  {connects : List RemotePeer}

theorem learnNodes_config (nodes : List (Bytes × Bytes)) (node : NodeRuntime)
    : (node.learnNodes nodes).1.config = node.config := by
  refine learn_keeps (fun learned : NodeRuntime => learned.config = node.config) ?_ rfl
  intro nodeId _ _ learned _ _ _ same
  rw [← same]
  exact learned.react_config (.nodeDiscovered nodeId)

theorem learnLeaves_config (leaves : List (Bytes × Bytes)) (node : NodeRuntime)
    : (node.learnLeaves leaves).1.config = node.config :=
  learn_keeps (fun learned : NodeRuntime => learned.config = node.config)
    (fun _ _ _ _ _ _ _ same => same) rfl

theorem start_spec (reply : Reply) (startup : Startup) (registry : Registry redis) (node : NodeProcess)
    : (node.start reply startup registry).2 = (registry.register (node.member.nodeEntry redis) reply).1
      ∧ (node.start reply startup registry).1.member = node.member := by
  have same : registry.register (node.member.nodeEntry redis) reply =
      registry.register (node.entry redis) reply := rfl
  unfold NodeProcess.start
  rw [same]
  rcases registry.register (node.entry redis) reply with ⟨registered, _ | _⟩ <;>
    cases startup <;> exact ⟨rfl, rfl⟩

theorem member_of_config {runtime : NodeRuntime} (same : runtime.config = node.runtime.config)
    (toAsk : List Bytes)
    : { node with runtime, toAsk }.member = { node.member with toAsk } := by
  simp only [member, client, same]

theorem acts_of_step (index : Nat) (taken : node.step registry step = some (after, later, connects))
    : node.member.Acts registry (.node index) (.node index step) after.member later := by
  cases step with
  | start reply startup =>
      simp only [NodeProcess.step] at taken
      split at taken
      · cases taken
        exact .idle fun _ same => nomatch same
      · obtain ⟨rfl, rfl, -⟩ : (node.start reply startup registry).1 = after
            ∧ (node.start reply startup registry).2 = later ∧ [] = connects := by
          simpa using taken
        obtain ⟨registered, same⟩ := node.start_spec reply startup registry
        rw [registered, same]
        exact .starts rfl
  | stop =>
      simp only [NodeProcess.step] at taken
      split at taken <;> cases taken
      exact .idle fun _ same => nomatch same
  | fetchNodes reply =>
      simp only [NodeProcess.step] at taken
      split at taken <;> cases taken
      rw [member_of_config (learnNodes_config _ _)]
      exact .begins
  | fetchLeaves nodeId reply =>
      simp only [NodeProcess.step] at taken
      split at taken
      · rename_i asked
        cases taken
        rw [member_of_config (learnLeaves_config _ _)]
        exact .asks (List.contains_iff_mem.mp asked)
      · cases taken
  | handle event =>
      simp only [NodeProcess.step] at taken
      split at taken <;> cases taken
      rw [@member_of_config node _ (NodeRuntime.react_config _ event) node.toAsk]
      exact .idle fun _ same => nomatch same

theorem connects_of_step (taken : node.step registry step = some (after, later, connects))
    : match step with
      | .fetchNodes reply =>
          connects = (node.runtime.learnNodes (node.client.fetchNodes reply registry)).2
      | .fetchLeaves nodeId reply =>
          nodeId ∈ node.toAsk
            ∧ connects
              = (node.runtime.learnLeaves (node.client.fetchLeavesForNode nodeId reply registry)).2
      | _ => connects = [] := by
  cases step with
  | start =>
      simp only [NodeProcess.step] at taken
      split at taken <;> cases taken <;> rfl
  | fetchLeaves =>
      simp only [NodeProcess.step] at taken
      split at taken
      · rename_i asked
        cases taken
        exact ⟨List.contains_iff_mem.mp asked, rfl⟩
      · cases taken
  | _ =>
      simp only [NodeProcess.step] at taken
      split at taken <;> cases taken
      rfl

end NodeProcess

namespace LeafProcess

variable {registry later : Registry redis} {leaf after : LeafProcess} {step : LeafStep}
  {connects : List RemotePeer}

/-- Nothing but the known leaves changes when leaves are learned. -/
theorem learnLeaves_frame (leaves : List (Bytes × Bytes)) (leaf : LeafProcess)
    : ∃ knownLeaves, leaf.learnLeaves leaves = { leaf with knownLeaves } := by
  refine learn_keeps (fun learned : LeafProcess => ∃ knownLeaves, learned = { leaf with knownLeaves })
    ?_ ⟨leaf.knownLeaves, rfl⟩
  rintro leafId _ address _ _ _ _ ⟨knownLeaves, rfl⟩
  exact ⟨knownLeaves.insert leafId address, rfl⟩

theorem acts_of_step (index : Nat) (taken : leaf.step registry step = some (after, later, connects))
    : leaf.member.Acts registry (.leaf index) (.leaf index step) after.member later := by
  cases step with
  | start reply draw =>
      simp only [LeafProcess.step] at taken
      split at taken <;> cases taken
      · exact .idle fun _ same => nomatch same
      · exact .picks fun nodeId picked => pickNode_mem picked
  | register reply succeeds =>
      simp only [LeafProcess.step] at taken
      split at taken
      · cases taken
      · rename_i nodeId picked
        cases taken
        exact .registers rfl picked
  | stop =>
      simp only [LeafProcess.step] at taken
      split at taken <;> cases taken
      exact .idle fun _ same => nomatch same
  | fetchNodes reply =>
      simp only [LeafProcess.step] at taken
      split at taken <;> cases taken
      exact .begins
  | fetchLeaves nodeId reply =>
      simp only [LeafProcess.step] at taken
      split at taken
      · rename_i asked
        cases taken
        obtain ⟨knownLeaves, frame⟩ :=
          leaf.learnLeaves_frame (leaf.client.fetchLeavesForNode nodeId reply registry)
        rw [frame]
        exact .asks (List.contains_iff_mem.mp asked)
      · cases taken
  | dial destNode destLeaf =>
      simp only [LeafProcess.step] at taken
      split at taken <;> cases taken
      exact .idle fun _ same => nomatch same

theorem knownLeaves_of_step (taken : leaf.step registry step = some (after, later, connects))
    : after.knownLeaves = leaf.knownLeaves
      ∨ ∃ nodeId reply, nodeId ∈ leaf.toAsk
        ∧ after.knownLeaves
          = (leaf.learnLeaves (leaf.client.fetchLeavesForNode nodeId reply registry)).knownLeaves := by
  cases step with
  | register =>
      simp only [LeafProcess.step] at taken
      split at taken <;> cases taken
      exact .inl rfl
  | fetchLeaves nodeId reply =>
      simp only [LeafProcess.step] at taken
      split at taken
      · rename_i asked
        cases taken
        exact .inr ⟨nodeId, reply, List.contains_iff_mem.mp asked, rfl⟩
      · cases taken
  | _ =>
      simp only [LeafProcess.step] at taken
      split at taken <;> cases taken <;> exact .inl rfl

theorem connects_of_step (taken : leaf.step registry step = some (after, later, connects))
    : match step with
      | .dial destNode destLeaf => connects = leaf.dial destNode destLeaf
      | _ => connects = [] := by
  cases step <;>
    · simp only [LeafProcess.step] at taken
      split at taken <;> cases taken <;> rfl

end LeafProcess

end

end Creek.Mesh
