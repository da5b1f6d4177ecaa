import Creek.Library.Separated
import Creek.Proofs.Mesh.LiveRouting

/-! Sessions stick to their endpoints. Other sessions only age a session, and one that is used within the
lifetime is never in the LRU part, so no trimming drops it.
-/

namespace Creek.Mesh

open Library
open Tight (Bytes TimePoint)

namespace StickyBalancer

variable {hash : Bytes → UInt64} {service sid id : Bytes} {metadata : Metadata}
  {endpoints : List Endpoint} {now since : TimePoint} {balancer after : StickyBalancer}
  {entries left right : Std.TreeMap Bytes StickyEntry} {key : Bytes} {entry : StickyEntry}
  {capacity fuel : Nat} {ttl : Int} {history : List BalancerStage}

-- The LRU part

theorem mem_lru {held : Bytes × StickyEntry}
    : held ∈ entries.toList.filter (fun entry => entry.2.lru)
      ↔ entries[held.1]? = some held.2 ∧ held.2.lru = true := by
  rw [List.mem_filter, Std.TreeMap.mem_toList_iff_getElem?_eq_some]

theorem nodup_lru (entries : Std.TreeMap Bytes StickyEntry)
    : (entries.toList.filter fun entry => entry.2.lru).Nodup := by
  refine List.Nodup.filter _ (entries.distinct_keys_toList.imp ?_)
  intro first second different same
  exact different (by rw [same]; exact Std.ReflCmp.compare_self)

theorem lruCount_mono
    (within : ∀ (key : Bytes) (entry : StickyEntry), left[key]? = some entry → entry.lru = true
      → right[key]? = some entry)
    : lruCount left ≤ lruCount right := by
  refine ((nodup_lru left).subperm ?_).length_le
  intro held member
  obtain ⟨found, inLru⟩ := mem_lru.mp member
  exact mem_lru.mpr ⟨within _ _ found inLru, inLru⟩

theorem lruCount_erase_lt (found : entries[key]? = some entry) (inLru : entry.lru = true)
    : lruCount (entries.erase key) < lruCount entries := by
  have fresh : (key, entry) ∉ (entries.erase key).toList.filter fun entry => entry.2.lru := by
    intro member
    have still := (mem_lru.mp member).1
    rw [Std.TreeMap.getElem?_erase_self] at still
    cases still
  have nodup := (nodup_lru (entries.erase key)).cons fresh
  refine (nodup.subperm ?_).length_le
  intro held member
  rcases List.mem_cons.mp member with rfl | member
  · exact mem_lru.mpr ⟨found, inLru⟩
  · obtain ⟨kept, lru⟩ := mem_lru.mp member
    refine mem_lru.mpr ⟨?_, lru⟩
    rw [Std.TreeMap.getElem?_erase] at kept
    split at kept
    · cases kept
    · exact kept

/-- While the LRU part is not empty it has an oldest session. -/
theorem oldest_ne_none (some_ : 0 < lruCount entries) : oldest entries ≠ none := by
  intro none_
  have active : ∀ held ∈ entries.toList, ¬held.2.lru = true := by
    rw [oldest] at none_
    generalize entries.toList = list at none_
    induction list using List.reverseRecOn with
    | nil => exact fun held member => absurd member List.not_mem_nil
    | append_singleton rest last ih =>
        rw [List.foldl_append, List.foldl_cons, List.foldl_nil] at none_
        split at none_
        · split at none_
          · cases none_
          · split at none_
            · cases none_
            · rename_i before _
              cases none_.symm.trans before
        · rename_i lastActive
          intro held member
          rcases List.mem_append.mp member with earlier | same
          · exact ih none_ held earlier
          · rw [List.mem_singleton.mp same]
            exact lastActive
  have empty : lruCount entries = 0 := by
    rw [lruCount, List.length_eq_zero_iff, List.filter_eq_nil_iff]
    exact active
  omega

theorem lruCount_trimLoop (enough : lruCount entries ≤ capacity + fuel)
    : lruCount (trimLoop capacity fuel entries) ≤ capacity := by
  induction fuel generalizing entries with
  | zero => exact enough
  | succ fuel ih =>
      rw [trimLoop]
      split
      · rename_i fits
        exact fits
      · rename_i many
        split
        · rename_i none_
          exact absurd none_ (oldest_ne_none (by omega))
        · rename_i last found
          obtain ⟨member, inLru⟩ := oldest_lru found
          have smaller := lruCount_erase_lt (Std.TreeMap.mem_toList_iff_getElem?_eq_some.mp member) inLru
          exact ih (by omega)

theorem lruCount_sweep : lruCount (balancer.sweep now).entries ≤ balancer.capacity := by
  refine lruCount_trimLoop ?_
  refine Nat.le_trans (List.length_filter_le _ _) ?_
  rw [Std.TreeMap.length_toList]
  exact Nat.le_add_left _ _

theorem lruCount_insert (active : entry.lru = false)
    : lruCount (entries.insert key entry) ≤ lruCount entries := by
  refine lruCount_mono fun other held found inLru => ?_
  rw [Std.TreeMap.getElem?_insert] at found
  split at found
  · cases found
    cases active.symm.trans inLru
  · exact found

-- What a pick remembers

/-- The session of a sticky call without a shard key. -/
def stickySession (metadata : Metadata) : Option Bytes :=
  match metadataShardKey metadata, metadataSticky metadata with
  | none, true => metadataSid metadata
  | _, _ => none

/-- The endpoint is listed, and nothing of its id that is listed is dead. -/
def Serves (endpoints : List Endpoint) (id : Bytes) : Prop :=
  (∃ endpoint ∈ endpoints, endpoint.endpointId = id)
  ∧ ∀ endpoint ∈ endpoints, endpoint.endpointId = id → endpoint.alive = true

theorem findLiveEndpoint_id {endpoint : Endpoint} (found : findLiveEndpoint endpoints id = some endpoint)
    : endpoint.endpointId = id := by
  rw [findLiveEndpoint] at found
  split at found
  · rename_i first here
    split at found
    · cases found
      have met := List.find?_some here
      simpa using met
    · cases found
  · cases found

theorem Serves.ne_nil (serves : Serves endpoints id) : endpoints ≠ [] := by
  obtain ⟨⟨endpoint, member, -⟩, -⟩ := serves
  exact List.ne_nil_of_mem member

theorem Serves.found (serves : Serves endpoints id)
    : ∃ endpoint, findLiveEndpoint endpoints id = some endpoint ∧ endpoint.endpointId = id := by
  obtain ⟨⟨listed, member, same⟩, alive⟩ := serves
  rcases first : endpoints.find? (fun endpoint => endpoint.endpointId = id) with _ | endpoint
  · exact absurd (decide_eq_true same) (List.find?_eq_none.mp first listed member)
  · have met := List.find?_some first
    have sameId : endpoint.endpointId = id := by simpa using met
    have found : findLiveEndpoint endpoints id = some endpoint := by
      rw [findLiveEndpoint, first]
      exact if_pos (alive endpoint (List.mem_of_find?_eq_some first) sameId)
    exact ⟨endpoint, found, sameId⟩

theorem pick_empty : balancer.pick hash service metadata [] now = (balancer, none) := rfl

theorem stickySession_eq_some
    : stickySession metadata = some sid
      ↔ metadataShardKey metadata = none ∧ metadataSticky metadata = true
        ∧ metadataSid metadata = some sid := by
  rw [stickySession]
  rcases metadataShardKey metadata with _ | shard
  · rcases metadataSticky metadata with _ | _
    · simp
    · simp
  · simp

/-- An active session at a live endpoint is kept and used now. -/
theorem pick_held {live : Endpoint} (nonempty : endpoints ≠ [])
    (session : stickySession metadata = some sid)
    (found : (balancer.sweep now).entries[sessionKey service sid]? = some entry)
    (active : entry.lru = false)
    (alive : findLiveEndpoint endpoints entry.endpointId = some live)
    : balancer.pick hash service metadata endpoints now
      = (
        {
          balancer.sweep now with
          entries :=
            (balancer.sweep now).entries.insert (sessionKey service sid)
              { entry with lastUsed := now }
        },
        some live
      ) := by
  have some_ : endpoints.isEmpty = false := by
    rw [Bool.eq_false_iff]
    exact mt List.isEmpty_iff.mp nonempty
  obtain ⟨shard, sticky, hasSid⟩ := stickySession_eq_some.mp session
  simp only [pick, some_, shard, sticky, hasSid, found, active, alive, Bool.false_eq_true, if_false]

theorem pick_moved (nonempty : endpoints ≠ []) (session : stickySession metadata = some sid)
    (moves : ∀ entry, (balancer.sweep now).entries[sessionKey service sid]? = some entry
      → entry.lru = false → findLiveEndpoint endpoints entry.endpointId = none)
    : balancer.pick hash service metadata endpoints now
      = (
        ((balancer.sweep now).stick (sessionKey service sid) endpoints now).1,
        some ((balancer.sweep now).stick (sessionKey service sid) endpoints now).2
      ) := by
  have some_ : endpoints.isEmpty = false := by
    rw [Bool.eq_false_iff]
    exact mt List.isEmpty_iff.mp nonempty
  obtain ⟨shard, sticky, hasSid⟩ := stickySession_eq_some.mp session
  rcases found : (balancer.sweep now).entries[sessionKey service sid]? with _ | entry
  · simp only [pick, some_, shard, sticky, hasSid, found, Bool.false_eq_true, if_false]
  · rcases active : entry.lru with _ | _
    · simp only [pick, some_, shard, sticky, hasSid, found, active, moves entry found active,
        Bool.false_eq_true, if_false]
    · simp only [pick, some_, shard, sticky, hasSid, found, active, Bool.false_eq_true, if_false,
        if_true]

/-- What a sticky pick leaves behind: its session is active, used now, and at the endpoint it returns. -/
structure Remembers (balancer : StickyBalancer) (key : Bytes) (now : TimePoint)
    (result : StickyBalancer × Option Endpoint)
    : Prop where
  stored : ∃ entry endpoint, result.1.entries = (balancer.sweep now).entries.insert key entry
    ∧ result.2 = some endpoint ∧ entry.endpointId = endpoint.endpointId ∧ entry.lastUsed = now
    ∧ entry.lru = false
  ttl : result.1.ttl = balancer.ttl
  capacity : result.1.capacity = balancer.capacity

theorem pick_remembers (nonempty : endpoints ≠ []) (session : stickySession metadata = some sid)
    : Remembers balancer (sessionKey service sid) now
        (balancer.pick hash service metadata endpoints now) := by
  by_cases held : ∃ entry live, (balancer.sweep now).entries[sessionKey service sid]? = some entry
      ∧ entry.lru = false ∧ findLiveEndpoint endpoints entry.endpointId = some live
  · obtain ⟨entry, live, found, active, alive⟩ := held
    rw [pick_held nonempty session found active alive]
    exact ⟨⟨_, live, rfl, rfl, (findLiveEndpoint_id alive).symm, rfl, active⟩, rfl, rfl⟩
  · rw [pick_moved nonempty session]
    · exact ⟨⟨_, _, rfl, rfl, rfl, rfl, rfl⟩, rfl, rfl⟩
    · intro entry found active
      rcases alive : findLiveEndpoint endpoints entry.endpointId with _ | live
      · rfl
      · exact absurd ⟨entry, live, found, active, alive⟩ held

/-- Without a sticky session a pick only sweeps the sessions. -/
theorem pick_plain (nonempty : endpoints ≠ []) (plain : stickySession metadata = none)
    : ∃ roundRobin endpoint,
        balancer.pick hash service metadata endpoints now
          = ({ balancer.sweep now with roundRobin := roundRobin }, some endpoint) := by
  have some_ : ¬endpoints.isEmpty = true := mt List.isEmpty_iff.mp nonempty
  rw [pick, if_neg some_]
  rw [stickySession] at plain
  rcases shard : metadataShardKey metadata with _ | _
  · rcases sticky : metadataSticky metadata with _ | _
    · exact ⟨_, _, rfl⟩
    · simp only [shard, sticky] at plain
      rw [plain]
      exact ⟨_, _, rfl⟩
  · exact ⟨_, _, rfl⟩

theorem lruCount_pick (fits : lruCount balancer.entries ≤ balancer.capacity)
    : lruCount (balancer.pick hash service metadata endpoints now).1.entries
      ≤ (balancer.pick hash service metadata endpoints now).1.capacity := by
  by_cases nonempty : endpoints = []
  · rw [nonempty, pick_empty]
    exact fits
  · rcases session : stickySession metadata with _ | sid
    · obtain ⟨roundRobin, endpoint, eq⟩ :=
        @pick_plain hash service metadata endpoints now balancer nonempty session
      rw [eq]
      exact lruCount_sweep
    · obtain ⟨⟨entry, endpoint, stored, -, -, -, active⟩, -, capacity⟩ :=
        @pick_remembers hash service sid metadata endpoints now balancer nonempty session
      rw [stored, capacity]
      exact Nat.le_trans (lruCount_insert active) lruCount_sweep

theorem limits_pick
    : (balancer.pick hash service metadata endpoints now).1.ttl = balancer.ttl
      ∧ (balancer.pick hash service metadata endpoints now).1.capacity = balancer.capacity := by
  by_cases nonempty : endpoints = []
  · rw [nonempty, pick_empty]
    exact ⟨rfl, rfl⟩
  · rcases session : stickySession metadata with _ | sid
    · obtain ⟨roundRobin, endpoint, eq⟩ :=
        @pick_plain hash service metadata endpoints now balancer nonempty session
      rw [eq]
      exact ⟨rfl, rfl⟩
    · obtain ⟨-, ttl, capacity⟩ :=
        @pick_remembers hash service sid metadata endpoints now balancer nonempty session
      exact ⟨ttl, capacity⟩

theorem step_fits {call : BalancerCall} {outputs : List (Option Endpoint)}
    (fits : balancer.capacity = capacity ∧ lruCount balancer.entries ≤ capacity)
    (taken : balancer.step hash call = .ok (after, outputs))
    : after.capacity = capacity ∧ lruCount after.entries ≤ capacity := by
  obtain ⟨rfl, fits⟩ := fits
  cases call with
  | pick service metadata endpoints now =>
      cases taken
      refine ⟨limits_pick.2, ?_⟩
      have kept := @lruCount_pick hash service metadata endpoints now balancer fits
      rwa [limits_pick.2] at kept
  | invalidate endpointId =>
      cases taken
      refine ⟨rfl, Nat.le_trans (lruCount_mono fun key entry found _ => ?_) fits⟩
      rw [invalidate, Std.TreeMap.getElem?_filter] at found
      obtain ⟨kept, -⟩ := Option.pfilter_eq_some_iff.mp found
      exact kept
  | setTtl ttl =>
      cases taken
      exact ⟨rfl, Nat.zero_le _⟩

-- Sessions over a run

/-- When a call picks. -/
def pickTime? : BalancerCall → Option TimePoint
  | .pick _ _ _ now => some now
  | _ => none

/-- When a call picks for the session. -/
def sessionTime? (service sid : Bytes) : BalancerCall → Option TimePoint
  | .pick name metadata _ now =>
      if name = service ∧ stickySession metadata = some sid then some now else none
  | _ => none

/-- When the calls of a history pick for the session. -/
def sessionTimes (service sid : Bytes) (stages : List BalancerStage) : List TimePoint :=
  stages.filterMap fun stage => sessionTime? service sid stage.event

/-- No service has a separator in its name, and time does not go back. -/
def Orderly (history : List BalancerStage) (_ : StickyBalancer) : BalancerCall → Prop
  | .pick service _ _ now =>
      '|'.toNat.toUInt8 ∉ service
      ∧ ∀ stage ∈ history, ∀ earlier, pickTime? stage.event = some earlier → earlier ≤ now
  | _ => True

/-- From its first call on, nothing ends the session at its endpoint: the lifetime is not set, the
endpoint is not invalidated, the picks for the session are less than the lifetime apart, and each of
them after the first finds the endpoint listed and alive.
-/
structure Undisturbed (service sid id : Bytes) (ttl : Int) (first : BalancerStage)
    (rest : List BalancerStage)
    : Prop where
  keepsTtl : ∀ stage ∈ rest, ∀ ttl, stage.event ≠ .setTtl ttl
  valid : ∀ stage ∈ rest, stage.event ≠ .invalidate id
  listed : ∀ stage ∈ rest, ∀ metadata endpoints now,
    stage.event = .pick service metadata endpoints now → stickySession metadata = some sid
    → Serves endpoints id
  used : (sessionTimes service sid (first :: rest)).IsChain
    fun earlier later => later - earlier < ttl * 1000000

/-- The session is active at the endpoint and was last used at this time. -/
def Held (key id : Bytes) (since : TimePoint) (balancer : StickyBalancer) : Prop :=
  ∃ entry, balancer.entries[key]? = some entry ∧ entry.endpointId = id ∧ entry.lastUsed = since
    ∧ entry.lru = false

theorem Held.sweep (held : Held key id since balancer)
    (young : now - since < toNanos balancer.ttl)
    : Held key id since (balancer.sweep now) := by
  obtain ⟨entry, found, same, used, active⟩ := held
  refine ⟨entry, (sweep_active active).mpr ⟨found, ?_⟩, same, used, active⟩
  rw [used]
  exact young

theorem Remembers.held {result : StickyBalancer × Option Endpoint} {endpoint : Endpoint}
    (remembers : Remembers balancer key now result) (picked : result.2 = some endpoint)
    : Held key endpoint.endpointId now result.1 := by
  obtain ⟨entry, other, stored, returned, same, used, active⟩ := remembers.stored
  obtain rfl := Option.some.inj (picked.symm.trans returned)
  refine ⟨entry, ?_, same, used, active⟩
  rw [stored, Std.TreeMap.getElem?_insert_self]

/-- A pick for a session that is held within the lifetime returns its endpoint while that serves. -/
theorem Held.pick (held : Held (sessionKey service sid) id since balancer)
    (young : now - since < toNanos balancer.ttl) (session : stickySession metadata = some sid)
    (serves : Serves endpoints id)
    : ∃ again, (balancer.pick hash service metadata endpoints now).2 = some again
      ∧ again.endpointId = id := by
  obtain ⟨entry, found, rfl, -, active⟩ := held.sweep young
  obtain ⟨live, alive, same⟩ := serves.found
  rw [pick_held serves.ne_nil session found active alive]
  exact ⟨live, rfl, same⟩

/-- The keys of different sessions differ, as the name of a service ends at the first separator. -/
theorem sessionKey_inj {otherService otherSid : Bytes} (name : '|'.toNat.toUInt8 ∉ service)
    (otherName : '|'.toNat.toUInt8 ∉ otherService)
    (same : sessionKey service sid = sessionKey otherService otherSid)
    : service = otherService ∧ sid = otherSid := by
  rw [sessionKey, sessionKey, List.append_assoc, List.append_assoc] at same
  exact split_unique name otherName same

/-- A pick for another session keeps the session within the lifetime. -/
theorem Held.pick_other {name : Bytes} (held : Held (sessionKey service sid) id since balancer)
    (young : now - since < toNanos balancer.ttl) (safe : '|'.toNat.toUInt8 ∉ service)
    (otherSafe : '|'.toNat.toUInt8 ∉ name)
    (other : ¬(name = service ∧ stickySession metadata = some sid))
    : Held (sessionKey service sid) id since
        (balancer.pick hash name metadata endpoints now).1 := by
  by_cases nonempty : endpoints = []
  · rw [nonempty, pick_empty]
    exact held
  · have swept := held.sweep young
    rcases session : stickySession metadata with _ | otherSid
    · obtain ⟨roundRobin, endpoint, eq⟩ :=
        @pick_plain hash name metadata endpoints now balancer nonempty session
      rw [eq]
      exact swept
    · obtain ⟨⟨entry, endpoint, stored, -⟩, -⟩ :=
        @pick_remembers hash name otherSid metadata endpoints now balancer nonempty session
      obtain ⟨kept, found, same⟩ := swept
      refine ⟨kept, ?_, same⟩
      rw [stored, Std.TreeMap.getElem?_insert, if_neg]
      · exact found
      · intro equal
        obtain ⟨rfl, rfl⟩ := sessionKey_inj otherSafe safe (Std.LawfulEqCmp.eq_of_compare equal)
        exact other ⟨rfl, session⟩

theorem Held.invalidate {other : Bytes} (held : Held key id since balancer) (differs : other ≠ id)
    : Held key id since (balancer.invalidate other) := by
  obtain ⟨entry, found, rfl, used, active⟩ := held
  refine ⟨entry, ?_, rfl, used, active⟩
  rw [StickyBalancer.invalidate, Std.TreeMap.getElem?_filter, found]
  simp [differs.symm]

/-- The nanoseconds of the lifetime do not pass the upper end of 64 bits. -/
def Countable (ttl : Int) : Prop := ttl * 1000000 < 2 ^ 63

/-- The session is held as it was last used, unless it has not been used for the lifetime. -/
def HeldWhileUsed (service sid id : Bytes) (ttl : Int) (first : BalancerStage)
    (history rest : List BalancerStage) (balancer : StickyBalancer)
    : Prop :=
  balancer.ttl = ttl
  ∧ ∀ since, (sessionTimes service sid (first :: rest)).getLast? = some since
    → (∀ stage ∈ history, ∀ time, pickTime? stage.event = some time
      → time - since < toNanos ttl)
    → Held (sessionKey service sid) id since balancer

theorem sessionTimes_concat (stages : List BalancerStage) (stage : BalancerStage)
    : sessionTimes service sid (stages ++ [stage])
      = sessionTimes service sid stages ++ (sessionTime? service sid stage.event).toList := by
  have last : sessionTimes service sid [stage] = (sessionTime? service sid stage.event).toList := by
    rcases picks : sessionTime? service sid stage.event with _ | time
    · exact List.filterMap_cons_none picks
    · exact List.filterMap_cons_some picks
  rw [← last]
  exact List.filterMap_append

theorem sessionTimes_ne_nil {stage : BalancerStage} {time : TimePoint} {stages : List BalancerStage}
    (picks : sessionTime? service sid stage.event = some time)
    : sessionTimes service sid (stage :: stages) ≠ [] := by
  have head : sessionTimes service sid (stage :: stages) = time :: sessionTimes service sid stages :=
    List.filterMap_cons_some picks
  rw [head]
  exact List.cons_ne_nil _ _

/-- At the next pick of the session it is still held, and within the lifetime. -/
theorem HeldWhileUsed.held_at {first final : BalancerStage} {rest : List BalancerStage}
    {start : TimePoint} (held : HeldWhileUsed service sid id ttl first history rest balancer)
    (begins : sessionTime? service sid first.event = some start)
    (picks : sessionTime? service sid final.event = some now)
    (inOrder : ∀ stage ∈ history, ∀ earlier, pickTime? stage.event = some earlier → earlier ≤ now)
    (countable : Countable ttl)
    (undisturbed : Undisturbed service sid id ttl first (rest ++ [final]))
    : ∃ since, Held (sessionKey service sid) id since balancer
      ∧ now - since < toNanos balancer.ttl := by
  obtain ⟨rfl, held⟩ := held
  have chain := undisturbed.used
  rw [← List.cons_append, sessionTimes_concat, picks, List.isChain_append] at chain
  rcases lastUse : (sessionTimes service sid (first :: rest)).getLast? with _ | since
  · exact absurd (List.getLast?_eq_none_iff.mp lastUse) (sessionTimes_ne_nil begins)
  · have young : now - since < toNanos balancer.ttl :=
      Int.lt_of_lt_of_le (chain.2.2 since lastUse now rfl) (le_int64_iff.mpr countable)
    refine ⟨since, held since lastUse fun stage member time picked => ?_, young⟩
    exact Int.lt_of_le_of_lt (Int.sub_le_sub_right (inOrder stage member time picked) since) young

/-- A call that does not disturb the session leaves it held. -/
theorem HeldWhileUsed.step {first : BalancerStage} {rest : List BalancerStage} {start : TimePoint}
    {call : BalancerCall} {outputs : List (Option Endpoint)}
    (held : HeldWhileUsed service sid id ttl first history rest balancer)
    (begins : sessionTime? service sid first.event = some start)
    (safe : '|'.toNat.toUInt8 ∉ service) (permitted : Orderly history balancer call)
    (countable : Countable ttl)
    (taken : balancer.step hash call = .ok (after, outputs))
    (undisturbed : Undisturbed service sid id ttl first
      (rest ++ [{ before := balancer, event := call, outputs := outputs }]))
    : HeldWhileUsed service sid id ttl first
        (history ++ [{ before := balancer, event := call, outputs := outputs }])
        (rest ++ [{ before := balancer, event := call, outputs := outputs }]) after := by
  obtain ⟨rfl, held⟩ := held
  have last := List.mem_append_right rest
    (List.mem_singleton_self { before := balancer, event := call, outputs := outputs })
  have earlier : ∀ stage ∈ history,
      stage ∈ history ++ [{ before := balancer, event := call, outputs := outputs }] :=
    fun stage member => List.mem_append_left _ member
  cases call with
  | setTtl ttl => exact absurd rfl (undisturbed.keepsTtl _ last ttl)
  | invalidate other =>
      cases taken
      have differs : other ≠ id := fun same => undisturbed.valid _ last (congrArg _ same)
      refine ⟨rfl, fun since lastUse young => ?_⟩
      have skips : sessionTime? service sid (.invalidate other) = none := rfl
      rw [← List.cons_append, sessionTimes_concat, skips, Option.toList_none, List.append_nil]
        at lastUse
      exact (held since lastUse fun stage member => young stage (earlier stage member)).invalidate
        differs
  | pick name metadata endpoints now =>
      cases taken
      refine ⟨limits_pick.1, fun since lastUse recent => ?_⟩
      rw [← List.cons_append] at lastUse
      by_cases own : name = service ∧ stickySession metadata = some sid
      · obtain ⟨rfl, session⟩ := own
        have serves := undisturbed.listed _ last _ _ _ rfl session
        have picks : sessionTime? name sid (.pick name metadata endpoints now) = some now :=
          if_pos ⟨rfl, session⟩
        obtain ⟨before, heldNow, young⟩ :=
          HeldWhileUsed.held_at ⟨rfl, held⟩ begins picks permitted.2 countable undisturbed
        rw [sessionTimes_concat, picks, Option.toList_some, List.getLast?_concat] at lastUse
        obtain rfl := Option.some.inj lastUse
        obtain ⟨again, picked, rfl⟩ := @Held.pick hash _ _ _ _ _ _ _ _ heldNow young session serves
        exact (pick_remembers serves.ne_nil session).held picked
      · have skips : sessionTime? service sid (.pick name metadata endpoints now) = none :=
          if_neg own
        rw [sessionTimes_concat, skips, Option.toList_none, List.append_nil] at lastUse
        have before := held since lastUse fun stage member => recent stage (earlier stage member)
        have youngNow := recent _ (List.mem_append_right _ List.mem_cons_self) now rfl
        exact before.pick_other youngNow safe permitted.1 own

theorem Undisturbed.prefix {first : BalancerStage} {rest more : List BalancerStage}
    (undisturbed : Undisturbed service sid id ttl first (rest ++ more))
    : Undisturbed service sid id ttl first rest where
  keepsTtl stage member := undisturbed.keepsTtl stage (List.mem_append_left _ member)
  valid stage member := undisturbed.valid stage (List.mem_append_left _ member)
  listed stage member := undisturbed.listed stage (List.mem_append_left _ member)
  used := by
    have used := undisturbed.used
    rw [← List.cons_append, sessionTimes, List.filterMap_append] at used
    exact (List.isChain_append.mp used).1

theorem sessionTime?_eq_some {call : BalancerCall} {time : TimePoint}
    (picks : sessionTime? service sid call = some time)
    : ∃ metadata endpoints, call = .pick service metadata endpoints time
      ∧ stickySession metadata = some sid := by
  cases call with
  | setTtl ttl => cases picks
  | invalidate id => cases picks
  | pick name metadata endpoints now =>
      rw [sessionTime?] at picks
      split at picks
      · rename_i own
        obtain ⟨rfl, session⟩ := own
        cases picks
        exact ⟨metadata, endpoints, rfl, session⟩
      · cases picks

/-- The first pick of a session holds it at the endpoint it returns. -/
theorem heldWhileUsed_first {call : BalancerCall} {outputs : List (Option Endpoint)}
    {start : TimePoint} {endpoint : Endpoint}
    (begins : sessionTime? service sid call = some start)
    (taken : balancer.step hash call = .ok (after, outputs))
    (picked : outputs = [some endpoint])
    : HeldWhileUsed service sid endpoint.endpointId balancer.ttl
        { before := balancer, event := call, outputs := outputs }
        (history ++ [{ before := balancer, event := call, outputs := outputs }]) [] after := by
  obtain ⟨metadata, endpoints, rfl, session⟩ := sessionTime?_eq_some begins
  cases taken
  refine ⟨limits_pick.1, fun since lastUse _ => ?_⟩
  have only : sessionTimes service sid
      ([] ++ [{ before := balancer, event := .pick service metadata endpoints start,
                outputs := [(balancer.pick hash service metadata endpoints start).2] }])
      = [start] := by
    rw [sessionTimes_concat, begins]
    rfl
  obtain rfl : start = since := Option.some.inj (only ▸ lastUse :)
  have returned : (balancer.pick hash service metadata endpoints start).2 = some endpoint :=
    List.head_eq_of_cons_eq picked
  by_cases nonempty : endpoints = []
  · rw [nonempty, pick_empty] at returned
    cases returned
  · exact (pick_remembers nonempty session).held returned

/-- Every session is held at the endpoint of its first pick as long as it is not disturbed. -/
def SessionsHeld (history : List BalancerStage) (balancer : StickyBalancer) : Prop :=
  ∀ service sid front first rest start endpoint, history = front ++ first :: rest
    → sessionTime? service sid first.event = some start
    → first.outputs = [some endpoint]
    → Countable first.before.ttl
    → Undisturbed service sid endpoint.endpointId first.before.ttl first rest
    → HeldWhileUsed service sid endpoint.endpointId first.before.ttl first history rest balancer

theorem sessionsHeld_of_run (run : Run (step hash) Orderly balancer history after)
    : SessionsHeld history after := by
  refine run.invariant SessionsHeld ?_ ?_
  · intro service sid front first rest start endpoint split
    cases (List.append_eq_nil_iff.mp split.symm).2
  · intro history before call after outputs run held permitted taken service sid front first rest
      start endpoint split begins picked countable undisturbed
    rcases List.eq_nil_or_concat rest with rfl | ⟨earlier, last, rfl⟩
    · obtain ⟨rfl, same⟩ := List.append_inj' split rfl
      obtain rfl := List.head_eq_of_cons_eq same
      exact heldWhileUsed_first begins taken picked
    · rw [List.concat_eq_append] at split undisturbed ⊢
      rw [← List.cons_append, ← List.append_assoc] at split
      obtain ⟨rfl, same⟩ := List.append_inj' split rfl
      obtain rfl := List.head_eq_of_cons_eq same
      have safe : '|'.toNat.toUInt8 ∉ service := by
        obtain ⟨-, permittedFirst, -⟩ := run.at_stage rfl
        obtain ⟨metadata, endpoints, eq, -⟩ := sessionTime?_eq_some begins
        rw [eq] at permittedFirst
        exact permittedFirst.1
      exact (held service sid front first earlier start endpoint rfl begins picked countable
        undisturbed.prefix).step begins safe permitted countable taken undisturbed

/-- Of the lifetimes allowed: the two ends of an undisturbed session return the same endpoint. -/
def Sticks (allowed : Int → Prop) (history : List BalancerStage) : Prop :=
  ∀ service sid front first middle final back start finish endpoint,
    history = front ++ first :: (middle ++ final :: back)
    → sessionTime? service sid first.event = some start
    → sessionTime? service sid final.event = some finish
    → first.outputs = [some endpoint]
    → allowed first.before.ttl
    → Undisturbed service sid endpoint.endpointId first.before.ttl first (middle ++ [final])
    → ∃ again, final.outputs = [some again] ∧ again.endpointId = endpoint.endpointId

/-- In every run in order the sessions stick whose lifetime can be counted in nanoseconds, and the LRU
part always fits.
-/
theorem sticky_and_trimmed
    (run : Run (step hash) Orderly { capacity := capacity, ttl := ttl } history after)
    : Sticks Countable history
      ∧ Throughout (fun _ balancer => lruCount balancer.entries ≤ capacity) history after := by
  constructor
  · intro service sid front first middle final back start finish endpoint split begins ends picked
      countable undisturbed
    rw [← List.cons_append, ← List.append_assoc] at split
    obtain ⟨earlier, permitted, last, taken⟩ := run.at_stage split
    obtain ⟨metadata, endpoints, eq, session⟩ := sessionTime?_eq_some ends
    rw [eq] at permitted taken
    have held := sessionsHeld_of_run earlier service sid front first middle start endpoint rfl begins
      picked countable undisturbed.prefix
    obtain ⟨since, heldNow, young⟩ := held.held_at begins ends permitted.2 countable undisturbed
    have serves := undisturbed.listed final (List.mem_append_right _ List.mem_cons_self) _ _ _ eq
      session
    obtain ⟨again, returned, same⟩ := @Held.pick hash _ _ _ _ _ _ _ _ heldNow young session serves
    refine ⟨again, ?_, same⟩
    rw [← returned]
    exact (congrArg Prod.snd (Except.ok.inj taken)).symm
  · refine run.throughout fun history state earlier => ?_
    have fits : state.capacity = capacity ∧ lruCount state.entries ≤ capacity := by
      refine earlier.invariant
        (fun _ state => state.capacity = capacity ∧ lruCount state.entries ≤ capacity)
        ⟨rfl, Nat.zero_le _⟩ ?_
      intro history before call after outputs _ fits _ taken
      exact step_fits fits taken
    exact fits.2

/-- The metadata of a sticky call. -/
def stickyCall : Metadata :=
  ((∅ : Metadata).insert "sticky".toUTF8.toList "1".toUTF8.toList).insert "sid".toUTF8.toList [7]

def firstOfTwo : Endpoint := { endpointId := [5], alive := true }

def secondOfTwo : Endpoint := { endpointId := [6], alive := true }

theorem step_pick
    : balancer.step hash (.pick service metadata endpoints now)
      = .ok
        (
          (balancer.pick hash service metadata endpoints now).1,
          [(balancer.pick hash service metadata endpoints now).2]
        ) :=
  rfl

/-- A sticky pick among two endpoints. -/
def usedAt (endpoints : List Endpoint) (now : TimePoint) (balancer : StickyBalancer) : BalancerStage :=
  {
    before := balancer
    event := .pick [1] stickyCall endpoints now
    outputs := [(balancer.pick (fun _ => 0) [1] stickyCall endpoints now).2]
  }

theorem run_usedTwice (capacity : Nat) (ttl : Int) (earlier later : List Endpoint)
    : ∃ after, Run (step fun _ => 0) Orderly { capacity := capacity, ttl := ttl }
        [
          usedAt earlier 0 { capacity := capacity, ttl := ttl },
          usedAt later 1
            (StickyBalancer.pick (fun _ => 0) [1] stickyCall earlier 0
              { capacity := capacity, ttl := ttl }).1
        ]
        after := by
  have first : Orderly [] { capacity := capacity, ttl := ttl } (.pick [1] stickyCall earlier 0) :=
    ⟨by decide, fun stage member => absurd member List.not_mem_nil⟩
  have second : ∀ balancer, Orderly [usedAt earlier 0 { capacity := capacity, ttl := ttl }] balancer
      (.pick [1] stickyCall later 1) := by
    refine fun balancer => ⟨by decide, fun stage member earlier picked => ?_⟩
    rw [List.mem_singleton.mp member] at picked
    obtain rfl : 0 = earlier := Option.some.inj picked
    decide
  exact ⟨_, Run.next (.next .start first (@step_pick (fun _ => 0) _ _ _ _ _)) (second _)
    (@step_pick (fun _ => 0) _ _ _ _ _)⟩

/-- The second of the two picks comes within the lifetime, and finds the endpoint alive. -/
theorem undisturbed_usedTwice {id : Bytes} {earlier later : List Endpoint} {ttl : Int}
    {begun balancer : StickyBalancer} (serves : Serves later id) (within : 1 < ttl * 1000000)
    : Undisturbed [1] [7] id ttl (usedAt earlier 0 begun) [usedAt later 1 balancer] := by
  refine ⟨?_, ?_, ?_, ?_⟩
  · intro stage member ttl same
    rw [List.mem_singleton.mp member] at same
    cases same
  · intro stage member same
    rw [List.mem_singleton.mp member] at same
    cases same
  · intro stage member metadata endpoints now same _
    rw [List.mem_singleton.mp member] at same
    cases same
    exact serves
  · have started : sessionTime? [1] [7] (.pick [1] stickyCall earlier 0) = some 0 :=
      if_pos ⟨rfl, by decide +kernel⟩
    have used : sessionTime? [1] [7] (.pick [1] stickyCall later 1) = some 1 :=
      if_pos ⟨rfl, by decide +kernel⟩
    have times : sessionTimes [1] [7] ([usedAt earlier 0 begun] ++ [usedAt later 1 balancer])
        = [0, 1] := by
      rw [sessionTimes_concat, ← List.nil_append [usedAt earlier 0 begun], sessionTimes_concat, usedAt,
        usedAt, started, used]
      rfl
    show (sessionTimes [1] [7] ([usedAt earlier 0 begun] ++ [usedAt later 1 balancer])).IsChain _
    rw [times]
    exact List.isChain_pair.mpr (by omega)

/-- A session is used twice within the lifetime, and the endpoints are listed the other way round. -/
theorem sticky_and_trimmed_usedTwice
    : ∃ (balancer : StickyBalancer) (again : Endpoint),
        (usedAt [secondOfTwo, firstOfTwo] 1 balancer).outputs = [some again]
        ∧ again.endpointId = firstOfTwo.endpointId := by
  obtain ⟨after, run⟩ := run_usedTwice 4096 60000 [firstOfTwo, secondOfTwo] [secondOfTwo, firstOfTwo]
  have serves : Serves [secondOfTwo, firstOfTwo] firstOfTwo.endpointId :=
    ⟨⟨firstOfTwo, List.mem_cons_of_mem _ List.mem_cons_self, rfl⟩, by decide⟩
  obtain ⟨again, picked, same⟩ :=
    (sticky_and_trimmed run).1 [1] [7] [] (usedAt [firstOfTwo, secondOfTwo] 0 {}) []
      (usedAt [secondOfTwo, firstOfTwo] 1 _) [] 0 1 firstOfTwo rfl (if_pos ⟨rfl, by decide +kernel⟩)
      (if_pos ⟨rfl, by decide +kernel⟩) (by decide +kernel) (by show (60000 : Int) * 1000000 < _; decide)
      (undisturbed_usedTwice serves (by decide))
  exact ⟨_, again, picked, same⟩

/-- A lifetime of 292 years is negative in nanoseconds: the second of two picks moves the session. -/
theorem longTtl_moves
    : ¬∀ (capacity : Nat) (ttl : Int) (history : List BalancerStage) (after : StickyBalancer),
      Run (step fun _ => 0) Orderly { capacity := capacity, ttl := ttl } history after
      → Sticks (fun _ => True) history := by
  intro always
  obtain ⟨after, run⟩ :=
    run_usedTwice 4096 9223372036855 [firstOfTwo, secondOfTwo] [firstOfTwo, secondOfTwo]
  have serves : Serves [firstOfTwo, secondOfTwo] firstOfTwo.endpointId :=
    ⟨⟨firstOfTwo, List.mem_cons_self, rfl⟩, by decide⟩
  obtain ⟨again, picked, same⟩ :=
    always 4096 9223372036855 _ after run [1] [7] [] (usedAt [firstOfTwo, secondOfTwo] 0 _) []
      (usedAt [firstOfTwo, secondOfTwo] 1 _) [] 0 1 firstOfTwo rfl (if_pos ⟨rfl, by decide +kernel⟩)
      (if_pos ⟨rfl, by decide +kernel⟩) (by decide +kernel) trivial
      (undisturbed_usedTwice serves (by show (1 : Int) < 9223372036855 * 1000000; decide))
  have moved : (StickyBalancer.pick (fun _ => 0) [1] stickyCall [firstOfTwo, secondOfTwo] 1
      (StickyBalancer.pick (fun _ => 0) [1] stickyCall [firstOfTwo, secondOfTwo] 0
        { capacity := 4096, ttl := 9223372036855 }).1).2 = some secondOfTwo := by
    decide +kernel
  obtain rfl := Option.some.inj (moved.symm.trans (List.head_eq_of_cons_eq picked))
  exact absurd same (by decide)

end StickyBalancer

end Creek.Mesh
