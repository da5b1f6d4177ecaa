import Creek.Mesh.Balancer

/-! When a pick lands on a live endpoint. Liveness is looked at for the endpoint of a remembered session
only: the shard path and the round robin take what stands at their position.
-/

namespace Creek.Mesh

open Library
open Tight (Bytes TimePoint)

namespace StickyBalancer

variable {hash : Bytes → UInt64} {service : Bytes} {metadata : Metadata}
  {endpoints : List Endpoint} {now : TimePoint} {balancer : StickyBalancer}

-- The sweep

theorem oldest_lru {entries : Std.TreeMap Bytes StickyEntry} {entry : Bytes × StickyEntry}
    (found : oldest entries = some entry)
    : entry ∈ entries.toList ∧ entry.2.lru = true := by
  have holds : ∀ best, oldest entries = some best → best ∈ entries.toList ∧ best.2.lru = true := by
    rw [oldest]
    refine List.foldlRecOn (motive := fun best : Option (Bytes × StickyEntry) =>
      ∀ held, best = some held → held ∈ entries.toList ∧ held.2.lru = true)
      entries.toList _ (fun _ none_ => by cases none_) ?_
    intro best earlier head member held chosen
    split at chosen
    · rename_i inLru
      cases best with
      | none =>
          cases chosen
          exact ⟨member, inLru⟩
      | some before =>
          simp only at chosen
          split at chosen
          · cases chosen
            exact ⟨member, inLru⟩
          · exact earlier held chosen
    · exact earlier held chosen
  exact holds entry found

/-- Trimming keeps the sessions that are not in the LRU part, and adds none. -/
theorem trimLoop_active {capacity fuel : Nat} {entries : Std.TreeMap Bytes StickyEntry}
    {key : Bytes} {entry : StickyEntry} (active : entry.lru = false)
    : (trimLoop capacity fuel entries)[key]? = some entry ↔ entries[key]? = some entry := by
  induction fuel generalizing entries with
  | zero => rfl
  | succ fuel ih =>
      rw [trimLoop]
      split
      · rfl
      · split
        · rfl
        · rename_i last found
          obtain ⟨member, inLru⟩ := oldest_lru found
          rw [ih, Std.TreeMap.getElem?_erase]
          by_cases same : compare last.1 key = .eq
          · rw [if_pos same]
            obtain rfl := Std.LawfulEqCmp.eq_of_compare same
            rw [Std.TreeMap.mem_toList_iff_getElem?_eq_some.mp member]
            refine ⟨nofun, fun here => ?_⟩
            obtain rfl := Option.some.inj here
            cases active.symm.trans inLru
          · rw [if_neg same]

/-- After the sweep a session is active when it was and has been used within the lifetime. -/
theorem sweep_active {key : Bytes} {entry : StickyEntry} (active : entry.lru = false)
    : (balancer.sweep now).entries[key]? = some entry
      ↔ balancer.entries[key]? = some entry ∧ now - entry.lastUsed < toNanos balancer.ttl := by
  rw [sweep, trimLoop_active active, Std.TreeMap.getElem?_map]
  constructor
  · intro aged
    obtain ⟨before, found, eq⟩ := Option.map_eq_some_iff.mp aged
    rw [age] at eq
    split at eq
    · rw [← eq] at active
      cases active
    · rename_i young
      subst eq
      refine ⟨found, Int.not_le.mp fun old => young ⟨?_, old⟩⟩
      rw [active]
      nofun
  · rintro ⟨found, young⟩
    rw [found, Option.map_some, age, if_neg fun old => Int.not_le.mpr young old.2]

-- What a pick returns

/-- The live endpoint that the session of a sticky call has been routed to within the lifetime. -/
def remembered (service : Bytes) (metadata : Metadata) (endpoints : List Endpoint)
    (now : TimePoint) (balancer : StickyBalancer)
    : Option Endpoint :=
  if metadataSticky metadata then
    (metadataSid metadata).bind fun sid =>
      (balancer.entries[sessionKey service sid]?).bind fun entry =>
        if entry.lru = false ∧ now - entry.lastUsed < toNanos balancer.ttl then
          findLiveEndpoint endpoints entry.endpointId
        else
          none
  else
    none

/-- The position of the endpoint that a pick takes when no session is remembered. -/
def position (hash : Bytes → UInt64) (metadata : Metadata) (endpoints : List Endpoint)
    (balancer : StickyBalancer)
    : Nat :=
  match metadataShardKey metadata with
  | some shard => (hash shard).toNat % endpoints.length
  | none => balancer.roundRobin % endpoints.length

/-- A session remembered by the swept balancer is what the pick looks up. -/
theorem held_of_sweep {key : Bytes} {entry : StickyEntry}
    (found : (balancer.sweep now).entries[key]? = some entry)
    : (if entry.lru then none else findLiveEndpoint endpoints entry.endpointId) =
      (balancer.entries[key]?).bind fun entry =>
        if entry.lru = false ∧ now - entry.lastUsed < toNanos balancer.ttl then
          findLiveEndpoint endpoints entry.endpointId
        else
          none := by
  by_cases lru : entry.lru = true
  · rw [if_pos lru]
    rcases before : balancer.entries[key]? with _ | old
    · rfl
    · rw [Option.bind_some, if_neg]
      rintro ⟨active, young⟩
      have kept := (sweep_active active).mpr ⟨before, young⟩
      obtain rfl := Option.some.inj (found.symm.trans kept)
      cases active.symm.trans lru
  · rw [if_neg lru]
    have active : entry.lru = false := by simpa using lru
    obtain ⟨before, young⟩ := (sweep_active active).mp found
    rw [before, Option.bind_some, if_pos ⟨active, young⟩]

theorem held_of_dropped {key : Bytes} (dropped : (balancer.sweep now).entries[key]? = none)
    : ((balancer.entries[key]?).bind fun entry =>
        if entry.lru = false ∧ now - entry.lastUsed < toNanos balancer.ttl then
          findLiveEndpoint endpoints entry.endpointId
        else
          none) = none := by
  rcases before : balancer.entries[key]? with _ | old
  · rfl
  · rw [Option.bind_some, if_neg]
    rintro ⟨active, young⟩
    cases dropped.symm.trans ((sweep_active active).mpr ⟨before, young⟩)

/-- A pick without a shard key returns the remembered endpoint or the next one in turn; a pick with one
takes its position by the hash.
-/
theorem pick_endpoint (nonempty : endpoints ≠ [])
    : (balancer.pick hash service metadata endpoints now).2 =
      some
        (match metadataShardKey metadata with
          | some _ => endpoints.getD (position hash metadata endpoints balancer) {}
          | none =>
              (balancer.remembered service metadata endpoints now).getD
                (endpoints.getD (position hash metadata endpoints balancer) {})) := by
  have some_ : ¬endpoints.isEmpty = true := by rwa [List.isEmpty_iff]
  rw [pick, if_neg some_]
  simp only [position, remembered]
  rcases metadataShardKey metadata with _ | shard
  · rcases metadataSticky metadata with _ | _
    · rfl
    · rcases metadataSid metadata with _ | sid
      · rfl
      · simp only [if_true, Option.bind_some]
        rcases found : (balancer.sweep now).entries[sessionKey service sid]? with _ | entry
        · rw [held_of_dropped found]
          rfl
        · rw [← held_of_sweep found]
          simp only
          split
          · rename_i none_
            rw [none_]
            rfl
          · rename_i some_
            rw [some_]
            rfl
  · rfl

theorem findLiveEndpoint_spec {id : Bytes} {endpoint : Endpoint}
    (found : findLiveEndpoint endpoints id = some endpoint)
    : endpoint ∈ endpoints ∧ endpoint.alive = true := by
  rw [findLiveEndpoint] at found
  split at found
  · rename_i first here
    split at found
    · rename_i alive
      cases found
      exact ⟨List.mem_of_find?_eq_some here, alive⟩
    · cases found
  · cases found

theorem remembered_spec {endpoint : Endpoint}
    (found : balancer.remembered service metadata endpoints now = some endpoint)
    : endpoint ∈ endpoints ∧ endpoint.alive = true := by
  rw [remembered] at found
  split at found
  · obtain ⟨sid, -, found⟩ := Option.bind_eq_some_iff.mp found
    obtain ⟨entry, -, found⟩ := Option.bind_eq_some_iff.mp found
    split at found
    · exact findLiveEndpoint_spec found
    · cases found
  · cases found

/-- The endpoint of a list at some position is alive. -/
def AliveAt (endpoints : List Endpoint) (index : Nat) : Prop :=
  ∃ endpoint, endpoints[index]? = some endpoint ∧ endpoint.alive = true

/-- The call remembers a live endpoint, or the endpoint at its position is alive. -/
def LandsLive (hash : Bytes → UInt64) (service : Bytes) (metadata : Metadata)
    (endpoints : List Endpoint) (now : TimePoint) (balancer : StickyBalancer)
    : Prop :=
  metadataShardKey metadata = none
      ∧ (balancer.remembered service metadata endpoints now).isSome = true
    ∨ AliveAt endpoints (position hash metadata endpoints balancer)

/-- A pick returns a live endpoint of its list exactly when it lands on one. -/
theorem pick_live_iff (nonempty : endpoints ≠ [])
    : (∃ endpoint ∈ endpoints,
        (balancer.pick hash service metadata endpoints now).2 = some endpoint
        ∧ endpoint.alive = true)
      ↔ balancer.LandsLive hash service metadata endpoints now := by
  have bound : position hash metadata endpoints balancer < endpoints.length := by
    rw [position]
    split <;> exact Nat.mod_lt _ (List.length_pos_iff.mpr nonempty)
  have placed : (∃ endpoint ∈ endpoints,
        some (endpoints.getD (position hash metadata endpoints balancer) {}) = some endpoint
        ∧ endpoint.alive = true)
      ↔ AliveAt endpoints (position hash metadata endpoints balancer) := by
    rw [List.getD_eq_getElem?_getD, List.getElem?_eq_getElem bound, Option.getD_some]
    constructor
    · rintro ⟨endpoint, -, same, alive⟩
      exact ⟨_, List.getElem?_eq_getElem bound, (Option.some.inj same) ▸ alive⟩
    · rintro ⟨endpoint, here, alive⟩
      rw [List.getElem?_eq_getElem bound] at here
      exact ⟨endpoint, Option.some.inj here ▸ List.getElem_mem bound, here, alive⟩
  rw [pick_endpoint nonempty, LandsLive, ← placed]
  rcases metadataShardKey metadata with _ | shard
  · rcases found : balancer.remembered service metadata endpoints now with _ | endpoint
    · simp
    · obtain ⟨member, alive⟩ := remembered_spec found
      exact iff_of_true ⟨endpoint, member, rfl, alive⟩ (.inl ⟨rfl, rfl⟩)
  · simp

-- Whole runs

/-- A pick over a list with a live endpoint returns one of them. -/
def ServedLive (stage : BalancerStage) : Prop :=
  ∀ service metadata endpoints now, stage.event = .pick service metadata endpoints now
    → (∃ endpoint ∈ endpoints, endpoint.alive = true)
    → ∃ endpoint ∈ endpoints, stage.outputs = [some endpoint] ∧ endpoint.alive = true

/-- A pick over a list with a live endpoint lands on one of them. -/
def LandedLive (hash : Bytes → UInt64) (stage : BalancerStage) : Prop :=
  ∀ service metadata endpoints now, stage.event = .pick service metadata endpoints now
    → (∃ endpoint ∈ endpoints, endpoint.alive = true)
    → stage.before.LandsLive hash service metadata endpoints now

variable {capacity : Nat} {ttl : Int} {history : List BalancerStage} {last : StickyBalancer}

/-- In every run a pick returns a live endpoint exactly when it lands on one. -/
theorem served_iff_landed
    (run : Run (step hash) (fun _ _ _ => True) { capacity := capacity, ttl := ttl } history last)
    : ∀ stage ∈ history, ServedLive stage ↔ LandedLive hash stage := by
  refine Run.forall_stage (fun _ _ _ => trivial) ?_ run
  rintro - before event after outputs - - taken
  refine forall_congr' fun service => forall_congr' fun metadata => forall_congr' fun endpoints =>
    forall_congr' fun now => forall_congr' fun same => forall_congr' fun ⟨endpoint, member, _⟩ => ?_
  cases same
  cases taken
  rw [← pick_live_iff (List.ne_nil_of_mem member)]
  refine exists_congr fun endpoint => and_congr_right fun _ => and_congr_left fun _ => ?_
  exact List.singleton_inj

/-- A dead endpoint and a live one. -/
def halfDead : List Endpoint :=
  [{ endpointId := [1], alive := false }, { endpointId := [2], alive := true }]

theorem served_iff_landed_halfDead
    : ∃ history last, history.length = 1
      ∧ Run (step fun _ => 0) (fun _ _ _ => True) {} history last
      ∧ ∀ stage ∈ history, ServedLive stage ↔ LandedLive (fun _ => 0) stage := by
  have run : Run (step fun _ => 0) (fun _ _ _ => True) {} _ _ :=
    .next .start trivial (rfl : step (fun _ => 0) {} (.pick [] {} halfDead 0) = .ok (_, _))
  exact ⟨_, _, rfl, run, @served_iff_landed _ 4096 60000 _ _ run⟩

/-- The first call in turn is routed to the dead endpoint. -/
theorem routed_dead
    : ∃ history last, Run (step fun _ => 0) (fun _ _ _ => True) {} history last
      ∧ ¬∀ stage ∈ history, ServedLive stage := by
  refine ⟨_, _,
    .next .start trivial (rfl : step (fun _ => 0) {} (.pick [] {} halfDead 0) = .ok (_, _)),
    fun served => ?_⟩
  obtain ⟨endpoint, member, same, alive⟩ :=
    served _ (List.mem_singleton.mpr rfl) _ _ _ _ rfl
      ⟨{ endpointId := [2], alive := true }, List.mem_cons_of_mem _ List.mem_cons_self, rfl⟩
  have dead : endpoint.alive = false := by
    obtain rfl := Option.some.inj (List.singleton_inj.mp same)
    rfl
  cases alive.symm.trans dead

end StickyBalancer

end Creek.Mesh
