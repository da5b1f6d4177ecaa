import Creek.Library.Runs
import Creek.Proofs.Mesh.Replication

/-! How long a removal is remembered among directories that exchange snapshots.
A directory starts the lifetime of a tombstone when it learns of it, so a tombstone handed on
late lives longer than the removal it stands for.
-/

namespace Creek.Mesh

open Tight (Bytes)
open Library

/-- Any number of directories, the snapshots taken so far and their common clock. -/
structure Gossip where
  directories : Nat → EndpointDirectory := fun _ => {}
  sent : List DirectorySnapshot := []
  clock : UInt64 := 0

/-- What can happen at one of the directories. A snapshot may be delivered at any time, to any
directory, any number of times.
-/
inductive GossipEvent where
  | call (site : Nat) (call : LocalCall)
  | snapshot (site : Nat)
  | deliver (site index : Nat)
  deriving DecidableEq, Repr

/-- An event and its instant. -/
structure GossipStep where
  now : UInt64
  event : GossipEvent
  deriving DecidableEq, Repr

namespace Gossip

/-- Replaces the directory of a site. -/
def set (site : Nat) (directory : EndpointDirectory) (gossip : Gossip) : Gossip :=
  { gossip with directories := Function.update gossip.directories site directory }

/-- One event; a snapshot that is taken is put out. -/
def step (gossip : Gossip) (step : GossipStep) : Except Empty (Gossip × List DirectorySnapshot) :=
  let gossip := { gossip with clock := step.now }
  match step.event with
  | .call site call =>
      .ok (gossip.set site (call.apply step.now (gossip.directories site)), [])
  | .snapshot site =>
      let (directory, snapshot) := (gossip.directories site).snapshot [] step.now
      .ok ({ gossip with sent := gossip.sent ++ [snapshot] }.set site directory, [snapshot])
  | .deliver site index =>
      match gossip.sent[index]? with
      | none => .ok (gossip, [])
      | some snapshot =>
          .ok (gossip.set site ((gossip.directories site).mergeSnapshot snapshot step.now).1, [])

/-- A step of a run of directories. -/
abbrev Happening := Stage Gossip GossipStep DirectorySnapshot

/-- Whether an event removes an id that its directory holds. -/
def Removes (endpointId : Bytes) (gossip : Gossip) (step : GossipStep) : Prop :=
  ∃ site, step.event = .call site (.remove endpointId)
    ∧ (gossip.directories site).endpoints.contains endpointId

/-- What every run is promised: the clock never goes back, and the id is removed once. -/
def Lawful (endpointId : Bytes) (history : List Happening) (gossip : Gossip) (step : GossipStep)
    : Prop :=
  gossip.clock ≤ step.now
  ∧ (Removes endpointId gossip step
    → ∀ earlier ∈ history, ¬Removes endpointId earlier.before earlier.event)

/-- Whether a snapshot carries the tombstone of an id. -/
def Carries (endpointId : Bytes) (snapshot : DirectorySnapshot) : Prop :=
  ∃ removed ∈ snapshot.removedEndpoints, removed.endpointId = endpointId

/-- A tombstone is not handed to a directory without it once its lifetime has passed since the
removal.
-/
def Prompt (endpointId : Bytes) (history : List Happening) (gossip : Gossip) (step : GossipStep)
    : Prop :=
  ∀ removal ∈ history, Removes endpointId removal.before removal.event
    → removal.event.now.toNat + EndpointDirectory.kTombstoneTtlMs.toNat ≤ step.now.toNat
    → ∀ site index snapshot, step.event = .deliver site index
      → gossip.sent[index]? = some snapshot
      → Carries endpointId snapshot
      → (gossip.directories site).tombstones.contains endpointId

/-- A directory that has dropped the tombstone of a removal takes it again, its lifetime after
the removal.
-/
def AcceptsAgain (endpointId : Bytes) (removal : Happening) (between : List Happening)
    (stage : Happening)
    : Prop :=
  ∃ site index snapshot,
    stage.event.event = .deliver site index
    ∧ removal.event.now.toNat + EndpointDirectory.kTombstoneTtlMs.toNat ≤ stage.event.now.toNat
    ∧ (∃ earlier ∈ between, (earlier.before.directories site).tombstones.contains endpointId)
    ∧ ¬(stage.before.directories site).tombstones.contains endpointId
    ∧ stage.before.sent[index]? = some snapshot
    ∧ ((stage.before.directories site).mergeSnapshot snapshot
      stage.event.now).1.tombstones.contains endpointId

/-- After the removal of an id, no directory that has dropped its tombstone takes it again once
the lifetime has passed, and no snapshot carries it once a bound has passed.
-/
def Forgets (bound : Nat) (endpointId : Bytes) (history : List Happening) : Prop :=
  ∀ front removal between stage back, history = front ++ removal :: (between ++ stage :: back)
    → Removes endpointId removal.before removal.event
    → ¬AcceptsAgain endpointId removal between stage
      ∧ ∀ snapshot ∈ stage.outputs,
        removal.event.now.toNat + bound ≤ stage.event.now.toNat
        → ¬Carries endpointId snapshot

end Gossip

namespace EndpointDirectory

variable {directory : EndpointDirectory} {endpointId : Bytes} {now : UInt64}

/-- One message leaves the tombstone of an id or is a newer removal of it. -/
theorem apply_tombstone (directory : EndpointDirectory) (now : UInt64) (endpointId : Bytes)
    (message : Message)
    : (message.apply now directory).tombstones[endpointId]? = directory.tombstones[endpointId]?
      ∨ ∃ version updatedMs, message = .removal endpointId version updatedMs
        ∧ (∀ tombstone ∈ directory.tombstones[endpointId]?, tombstone.version < version)
        ∧ (message.apply now directory).tombstones[endpointId]? =
          some { version := version, updatedMs := updatedMs, removedMs := now } := by
  rcases message with endpoint | ⟨removedId, version, updatedMs⟩
  · refine .inl ?_
    simp only [Message.apply, merge]
    split
    · rfl
    · split
      · rfl
      · split
        · rfl
        · split <;> rfl
  · by_cases own : removedId = endpointId
    · subst own
      simp only [Message.apply, applyRemoval]
      split
      · exact .inl rfl
      · rcases erased : (directory.endpoints[removedId]?).any fun existing =>
          existing.version ≤ version with _ | _
        all_goals
          rcases known : (directory.tombstones[removedId]?).any fun tombstone =>
            version ≤ tombstone.version with _ | _
          · refine .inr ⟨version, updatedMs, rfl, fun tombstone present => ?_, ?_⟩
            · rw [Option.mem_def.mp present] at known
              simpa using known
            · simp [erased, known]
          · refine .inl ?_
            simp [erased, known]
    · refine .inl ?_
      simp only [Message.apply, applyRemoval]
      split
      · rfl
      · split <;> split <;> simp [Std.TreeMap.getElem?_insert, own]

/-- After messages a tombstone is an old one or comes from one of the removals. -/
theorem foldl_tombstone (property : Tombstone → Prop) (messages : List Message)
    (old : ∀ tombstone ∈ directory.tombstones[endpointId]?, property tombstone)
    (new : ∀ version updatedMs, .removal endpointId version updatedMs ∈ messages
      → property { version := version, updatedMs := updatedMs, removedMs := now })
    : ∀ tombstone ∈ (messages.foldl (fun directory message => message.apply now directory)
        directory).tombstones[endpointId]?, property tombstone := by
  induction messages generalizing directory with
  | nil => exact old
  | cons message rest ih =>
      refine ih ?_ fun version updatedMs member => new version updatedMs (List.mem_cons_of_mem _ member)
      rcases apply_tombstone directory now endpointId message
        with same | ⟨version, updatedMs, rfl, -, replaced⟩
      · rwa [same]
      · rw [replaced]
        rintro tombstone member
        obtain rfl := Option.some.inj member
        exact new version updatedMs (by simp)

/-- Messages that remove nothing newer leave a tombstone in place. -/
theorem foldl_tombstone_kept {tombstone : Tombstone} (messages : List Message)
    (held : directory.tombstones[endpointId]? = some tombstone)
    (older : ∀ version updatedMs, .removal endpointId version updatedMs ∈ messages
      → version ≤ tombstone.version)
    : (messages.foldl (fun directory message => message.apply now directory)
        directory).tombstones[endpointId]? = some tombstone := by
  induction messages generalizing directory with
  | nil => exact held
  | cons message rest ih =>
      refine ih ?_ fun version updatedMs member =>
        older version updatedMs (List.mem_cons_of_mem _ member)
      rcases apply_tombstone directory now endpointId message
        with same | ⟨version, updatedMs, rfl, newer, -⟩
      · exact same.trans held
      · exact absurd (newer tombstone held) (UInt64.not_lt.mpr (older version updatedMs (by simp)))

/-- A local call leaves the tombstone of an id, clears it, or removes the id. -/
theorem call_tombstone (directory : EndpointDirectory) (now : UInt64) (endpointId : Bytes)
    (call : LocalCall)
    : (call.apply now directory).tombstones[endpointId]? = directory.tombstones[endpointId]?
      ∨ (call.apply now directory).tombstones[endpointId]? = none
      ∨ ∃ existing, call = .remove endpointId
        ∧ directory.endpoints[endpointId]? = some existing
        ∧ (call.apply now directory).tombstones[endpointId]? =
          some { version := existing.version, updatedMs := existing.updatedMs, removedMs := now } := by
  by_cases own : call.endpointId = endpointId
  · rcases call with endpoint | removedId
    · by_cases named : endpoint.endpointId = []
      · exact .inl (by simp [LocalCall.apply, upsertLocal, named])
      · exact .inr (.inl (((upsertLocal_lookup _ _ _ endpoint named).2).trans (if_pos own)))
    · obtain rfl : removedId = endpointId := own
      rcases present : directory.endpoints[removedId]? with _ | existing
      · exact .inl (by simp [LocalCall.apply, removeLocal, present])
      · exact .inr (.inr ⟨existing, rfl, rfl, ((removeLocal_lookup _ _ present).2).trans (if_pos rfl)⟩)
  · exact .inl (apply_lookup_of_ne _ _ own).2

/-- A removal a snapshot lists is an unexpired tombstone of its directory. -/
theorem snapshot_lists {sourceId : Bytes} {removed : Endpoint}
    (listed : removed ∈ (directory.snapshot sourceId now).2.removedEndpoints)
    : ∃ tombstone ∈ directory.tombstones[removed.endpointId]?,
      tombstone.version = removed.version ∧ expired tombstone now = false := by
  obtain ⟨entry, member, rfl⟩ := List.mem_map.mp listed
  have found := Std.TreeMap.mem_toList_iff_getElem?_eq_some.mp member
  rw [prune_tombstones] at found
  obtain ⟨present, fresh⟩ := Option.filter_eq_some_iff.mp found
  exact ⟨entry.2, present, rfl, by simpa using fresh⟩

end EndpointDirectory

namespace Gossip

/-- The removals among the messages of a snapshot are those it lists. -/
theorem removal_mem_messages {snapshot : DirectorySnapshot} {endpointId : Bytes}
    {version updatedMs : UInt64}
    (member : .removal endpointId version updatedMs ∈ snapshot.messages)
    : ∃ removed ∈ snapshot.removedEndpoints,
      removed.endpointId = endpointId ∧ removed.version = version := by
  rcases List.mem_append.mp member with record | removal
  · obtain ⟨endpoint, -, same⟩ := List.mem_map.mp record
    cases same
  · obtain ⟨removed, listed, same⟩ := List.mem_map.mp removal
    cases same
    exact ⟨removed, listed, rfl, rfl⟩

/-- What is known of every tombstone of an id, and of every version the snapshots list for it. -/
structure Confined (endpointId : Bytes) (about : Tombstone → Prop) (listed : UInt64 → Prop)
    (gossip : Gossip)
    : Prop where
  tombstones : ∀ site, ∀ tombstone ∈ (gossip.directories site).tombstones[endpointId]?,
    about tombstone
  sent : ∀ snapshot ∈ gossip.sent, ∀ removed ∈ snapshot.removedEndpoints,
    removed.endpointId = endpointId → listed removed.version

section

variable {endpointId : Bytes} {about : Tombstone → Prop} {listed : UInt64 → Prop}
  {gossip after : Gossip} {move : GossipStep} {outputs : List DirectorySnapshot}

/-- Replacing one directory keeps what is known, if it holds of the new one. -/
theorem Confined.set (confined : Confined endpointId about listed gossip) (site : Nat)
    (directory : EndpointDirectory)
    (new : ∀ tombstone ∈ directory.tombstones[endpointId]?, about tombstone)
    : Confined endpointId about listed (gossip.set site directory) where
  tombstones := by
    intro other
    by_cases same : other = site
    · subst same
      simpa [Gossip.set] using new
    · simpa [Gossip.set, same] using confined.tombstones other
  sent := confined.sent

/-- One event keeps what is known, when a delivery that carries the tombstone brings only what
is known or reaches a directory that remembers at least as much.
-/
theorem Confined.step (confined : Confined endpointId about listed gossip)
    (kept : ¬Removes endpointId gossip move) (shells : ∀ tombstone, about tombstone → listed tombstone.version)
    (fresh : ∀ site index snapshot, move.event = .deliver site index
      → gossip.sent[index]? = some snapshot
      → Carries endpointId snapshot
      → (∀ version updatedMs, listed version
          → about { version := version, updatedMs := updatedMs, removedMs := move.now })
        ∨ ∃ tombstone ∈ (gossip.directories site).tombstones[endpointId]?,
          ∀ version, listed version → version ≤ tombstone.version)
    (taken : gossip.step move = .ok (after, outputs))
    : Confined endpointId about listed after := by
  have clocked : Confined endpointId about listed { gossip with clock := move.now } :=
    ⟨confined.tombstones, confined.sent⟩
  rcases event : move.event with ⟨site, call⟩ | site | ⟨site, index⟩
  · simp only [Gossip.step, event] at taken
    cases taken
    refine clocked.set site _ fun tombstone member => ?_
    rcases EndpointDirectory.call_tombstone (gossip.directories site) move.now
      endpointId call with same | cleared | ⟨existing, removal, present, -⟩
    · rw [same] at member
      exact confined.tombstones site tombstone member
    · rw [cleared] at member
      cases member
    · refine absurd ⟨site, event.trans (by rw [removal]), ?_⟩ kept
      simp [Std.TreeMap.contains_iff_mem, Std.TreeMap.mem_iff_isSome_getElem?, present]
  · simp only [Gossip.step, event] at taken
    cases taken
    have sent : Confined endpointId about listed
        {
          gossip with
          clock := move.now
          sent := gossip.sent ++ [((gossip.directories site).snapshot [] move.now).2]
        } := by
      refine ⟨confined.tombstones, fun snapshot member removed lists own => ?_⟩
      rcases List.mem_append.mp member with earlier | last
      · exact confined.sent snapshot earlier removed lists own
      · obtain rfl := List.mem_singleton.mp last
        obtain ⟨tombstone, present, version, -⟩ := EndpointDirectory.snapshot_lists lists
        rw [own] at present
        rw [← version]
        exact shells tombstone (confined.tombstones site tombstone present)
    refine sent.set site _ fun tombstone member => ?_
    have pruned : tombstone ∈ ((gossip.directories site).prune move.now).tombstones[endpointId]? :=
      member
    rw [EndpointDirectory.prune_tombstones] at pruned
    exact confined.tombstones site tombstone (Option.filter_eq_some_iff.mp pruned).1
  · simp only [Gossip.step, event] at taken
    rcases found : gossip.sent[index]? with _ | snapshot
    · rw [found] at taken
      cases taken
      exact clocked
    · rw [found] at taken
      cases taken
      refine clocked.set site _ ?_
      rw [EndpointDirectory.mergeSnapshot_eq]
      have carried : ∀ version updatedMs, .removal endpointId version updatedMs ∈ snapshot.messages
          → Carries endpointId snapshot ∧ listed version := by
        intro version updatedMs member
        obtain ⟨removed, lists, own, rfl⟩ := removal_mem_messages member
        exact ⟨⟨removed, lists, own⟩,
          confined.sent snapshot (List.mem_of_getElem? found) removed lists own⟩
      by_cases carries : Carries endpointId snapshot
      · rcases fresh site index snapshot event found carries with brings | ⟨tombstone, held, above⟩
        · exact EndpointDirectory.foldl_tombstone _ _ (confined.tombstones site)
            fun version updatedMs member => brings version updatedMs (carried _ _ member).2
        · rw [EndpointDirectory.foldl_tombstone_kept _ held
            fun version updatedMs member => above version (carried _ _ member).2, ← held]
          exact confined.tombstones site
      · exact EndpointDirectory.foldl_tombstone _ _ (confined.tombstones site)
          fun version updatedMs member => absurd (carried _ _ member).1 carries

/-- A removal, where no tombstone of the id exists yet, makes the only one. -/
theorem Confined.removal (clean : Confined endpointId (fun _ => False) (fun _ => False) gossip)
    (removes : Removes endpointId gossip move) (taken : gossip.step move = .ok (after, outputs))
    : ∃ version, Confined endpointId
        (fun tombstone => tombstone.version = version ∧ tombstone.removedMs = move.now)
        (· = version) after := by
  obtain ⟨site, event, contains⟩ := removes
  simp only [Gossip.step, event] at taken
  cases taken
  rcases present : (gossip.directories site).endpoints[endpointId]? with _ | existing
  · simp [Std.TreeMap.contains_iff_mem, Std.TreeMap.mem_iff_isSome_getElem?, present] at contains
  · have weaker : Confined endpointId
        (fun tombstone => tombstone.version = existing.version ∧ tombstone.removedMs = move.now)
        (· = existing.version) { gossip with clock := move.now } :=
      ⟨fun site tombstone member => (clean.tombstones site tombstone member).elim,
        fun snapshot member removed lists own => (clean.sent snapshot member removed lists own).elim⟩
    refine ⟨existing.version, weaker.set site _ fun tombstone member => ?_⟩
    have buried := (EndpointDirectory.removeLocal_lookup move.now endpointId present).2
    rw [if_pos rfl] at buried
    obtain rfl := Option.some.inj (buried.symm.trans member)
    exact ⟨rfl, rfl⟩

theorem Confined.mono (confined : Confined endpointId about listed gossip)
    (weaker : Tombstone → Prop)
    (implied : ∀ tombstone, about tombstone → weaker tombstone)
    : Confined endpointId weaker listed gossip :=
  ⟨fun site tombstone member => implied tombstone (confined.tombstones site tombstone member),
    confined.sent⟩

theorem step_clock (taken : gossip.step move = .ok (after, outputs)) : after.clock = move.now := by
  rcases event : move.event with ⟨site, call⟩ | site | ⟨site, index⟩
  · simp only [Gossip.step, event] at taken
    cases taken
    rfl
  · simp only [Gossip.step, event] at taken
    cases taken
    rfl
  · simp only [Gossip.step, event] at taken
    rcases found : gossip.sent[index]? with _ | snapshot
    · rw [found] at taken
      cases taken
      rfl
    · rw [found] at taken
      cases taken
      rfl

/-- What a run under the condition knows: nothing before the removal, and after it that every
tombstone of the id was learnt less than a lifetime after the removal.
-/
structure Remembers (endpointId : Bytes) (history : List Happening) (gossip : Gossip) : Prop where
  untouched : (∀ stage ∈ history, ¬Removes endpointId stage.before stage.event)
    → Confined endpointId (fun _ => False) (fun _ => False) gossip
  removed : ∀ removal ∈ history, Removes endpointId removal.before removal.event
    → ∃ version, removal.event.now ≤ gossip.clock
      ∧ Confined endpointId
        (fun tombstone => tombstone.version = version ∧ tombstone.removedMs ≤ gossip.clock
          ∧ tombstone.removedMs.toNat <
            removal.event.now.toNat + EndpointDirectory.kTombstoneTtlMs.toNat)
        (· = version) gossip

theorem Remembers.initial : Remembers endpointId [] {} where
  untouched := fun _ => ⟨fun site tombstone member => by simp at member, by simp⟩
  removed := by simp

/-- One step under the condition. Witness: a delivery in the lifetime dates the tombstone
within the bound, and a later one finds it in place.
-/
theorem Remembers.step {history : List Happening} (remembers : Remembers endpointId history gossip)
    (lawful : Lawful endpointId history gossip move) (prompt : Prompt endpointId history gossip move)
    (taken : gossip.step move = .ok (after, outputs))
    : Remembers endpointId (history ++ [{ before := gossip, event := move, outputs }]) after := by
  have clock := step_clock taken
  have lifetime : EndpointDirectory.kTombstoneTtlMs.toNat = 60000 := rfl
  constructor
  · intro none
    have clean := remembers.untouched fun stage member => none stage (by simp [member])
    refine clean.step (none { before := gossip, event := move, outputs } (by simp))
      (fun _ impossible => impossible.elim) (fun site index snapshot _ found carries => ?_) taken
    obtain ⟨removed, lists, own⟩ := carries
    exact (clean.sent snapshot (List.mem_of_getElem? found) removed lists own).elim
  · intro removal member removes
    rcases List.mem_append.mp member with earlier | last
    · obtain ⟨version, since, confined⟩ := remembers.removed removal earlier removes
      have kept : ¬Removes endpointId gossip move :=
        fun again => lawful.2 again removal earlier removes
      refine ⟨version, clock ▸ UInt64.le_trans since lawful.1, ?_⟩
      have aged := confined.mono (fun tombstone => tombstone.version = version
        ∧ tombstone.removedMs ≤ after.clock
        ∧ tombstone.removedMs.toNat <
          removal.event.now.toNat + EndpointDirectory.kTombstoneTtlMs.toNat)
        fun tombstone known => ⟨known.1, clock ▸ UInt64.le_trans known.2.1 lawful.1, known.2.2⟩
      refine aged.step kept (fun tombstone known => known.1)
        (fun site index snapshot event found carries => ?_) taken
      by_cases late : removal.event.now.toNat + EndpointDirectory.kTombstoneTtlMs.toNat ≤
          move.now.toNat
      · have held := prompt removal earlier removes late site index snapshot event found carries
        rw [Std.TreeMap.contains_iff_mem, Std.TreeMap.mem_iff_isSome_getElem?] at held
        obtain ⟨tombstone, present⟩ := Option.isSome_iff_exists.mp held
        refine .inr ⟨tombstone, present, ?_⟩
        rintro listed rfl
        exact (aged.tombstones site tombstone present).1 ▸ UInt64.le_refl _
      · refine .inl ?_
        rintro listed updatedMs rfl
        exact ⟨rfl, clock ▸ UInt64.le_refl _, Nat.lt_of_not_le late⟩
    · obtain rfl := List.mem_singleton.mp last
      have clean := remembers.untouched (lawful.2 removes)
      obtain ⟨version, confined⟩ := clean.removal removes taken
      refine ⟨version, clock ▸ UInt64.le_refl _, confined.mono _ ?_⟩
      rintro tombstone ⟨same, dated⟩
      rw [dated]
      exact ⟨same, clock ▸ UInt64.le_refl _, by omega⟩

/-- A step under the condition neither hands a dropped tombstone back nor puts out a snapshot
that carries it two lifetimes after the removal.
-/
theorem Remembers.forgets {history : List Happening} {removal : Happening}
    {between : List Happening} (remembers : Remembers endpointId history gossip)
    (lawful : Lawful endpointId history gossip move) (prompt : Prompt endpointId history gossip move)
    (taken : gossip.step move = .ok (after, outputs)) (member : removal ∈ history)
    (removes : Removes endpointId removal.before removal.event)
    : ¬AcceptsAgain endpointId removal between { before := gossip, event := move, outputs }
      ∧ ∀ snapshot ∈ outputs,
        removal.event.now.toNat + 2 * EndpointDirectory.kTombstoneTtlMs.toNat ≤ move.now.toNat
        → ¬Carries endpointId snapshot := by
  constructor
  · rintro ⟨site, index, snapshot, event, late, -, dropped, found, takes⟩
    have empty : (gossip.directories site).tombstones[endpointId]? = none := by
      rw [Std.TreeMap.contains_iff_mem, Std.TreeMap.mem_iff_isSome_getElem?] at dropped
      simpa using dropped
    by_cases carries : Carries endpointId snapshot
    · exact dropped (prompt removal member removes late site index snapshot event found carries)
    · simp only [Std.TreeMap.contains_iff_mem, Std.TreeMap.mem_iff_isSome_getElem?] at takes
      obtain ⟨tombstone, present⟩ := Option.isSome_iff_exists.mp takes
      rw [EndpointDirectory.mergeSnapshot_eq] at present
      refine EndpointDirectory.foldl_tombstone (fun _ => False) snapshot.messages (by simp [empty])
        (fun version updatedMs listed => carries ?_) tombstone present
      obtain ⟨removed, lists, own, -⟩ := removal_mem_messages listed
      exact ⟨removed, lists, own⟩
  · rintro snapshot member late ⟨removed, lists, own⟩
    obtain ⟨version, -, confined⟩ := remembers.removed removal ‹_› removes
    rcases event : move.event with ⟨site, call⟩ | site | ⟨site, index⟩
    · simp only [Gossip.step, event] at taken
      cases taken
      cases member
    · simp only [Gossip.step, event] at taken
      cases taken
      obtain rfl := List.mem_singleton.mp member
      obtain ⟨tombstone, present, -, fresh⟩ := EndpointDirectory.snapshot_lists lists
      rw [own] at present
      obtain ⟨-, past, dated⟩ := confined.tombstones site tombstone present
      have past := UInt64.le_trans past lawful.1
      have age := UInt64.toNat_sub_of_le move.now tombstone.removedMs past
      have past := UInt64.le_iff_toNat_le.mp past
      simp only [EndpointDirectory.expired, decide_eq_false_iff_not, ge_iff_le,
        UInt64.le_iff_toNat_le, age] at fresh
      omega
    · simp only [Gossip.step, event] at taken
      rcases found : gossip.sent[index]? with _ | snapshot
      · rw [found] at taken
        cases taken
        cases member
      · rw [found] at taken
        cases taken
        cases member

end

/-- When no directory without the tombstone is handed it a lifetime or more after the removal,
every run forgets the removal within two lifetimes.
-/
theorem forgets_of_prompt (endpointId : Bytes) {history : List Happening} {gossip : Gossip}
    (run : Run step
      (fun history gossip move => Lawful endpointId history gossip move
        ∧ Prompt endpointId history gossip move)
      {} history gossip)
    : Forgets (2 * EndpointDirectory.kTombstoneTtlMs.toNat) endpointId history := by
  have both : Remembers endpointId history gossip
      ∧ Forgets (2 * EndpointDirectory.kTombstoneTtlMs.toNat) endpointId history := by
    refine run.invariant (fun history gossip => Remembers endpointId history gossip
      ∧ Forgets (2 * EndpointDirectory.kTombstoneTtlMs.toNat) endpointId history)
      ⟨.initial, ?_⟩ ?_
    · intro front removal between stage back split
      simp at split
    · rintro history gossip move after outputs - ⟨remembers, forgets⟩ ⟨lawful, prompt⟩ taken
      refine ⟨remembers.step lawful prompt taken, ?_⟩
      intro front removal between stage back split removes
      rcases List.eq_nil_or_concat back with rfl | ⟨rest, final, rfl⟩
      · have split : history ++ [{ before := gossip, event := move, outputs }] =
            (front ++ removal :: between) ++ [stage] := by
          simpa using split
        obtain ⟨rfl, last⟩ := List.append_inj' split rfl
        obtain rfl := List.singleton_injective last
        exact remembers.forgets lawful prompt taken (by simp) removes
      · have split : history ++ [{ before := gossip, event := move, outputs }] =
            (front ++ removal :: (between ++ stage :: rest)) ++ [final] := by
          simpa using split
        obtain ⟨rfl, -⟩ := List.append_inj' split rfl
        exact forgets front removal between stage rest rfl removes
  exact both.2

/-- A removal is learnt by a second directory just before the first forgets it, and handed back
just after.
-/
def handBack : List GossipStep :=
  [
    { now := 1000, event := .call 0 (.upsert { endpointId := [1] }) },
    { now := 2000, event := .call 0 (.remove [1]) },
    { now := 2001, event := .snapshot 0 },
    { now := 61000, event := .deliver 1 0 },
    { now := 62000, event := .snapshot 0 },
    { now := 62001, event := .snapshot 1 },
    { now := 62002, event := .deliver 0 2 }
  ]

/-- Whether an event is a removal call. -/
def isRemoval : GossipEvent → Bool
  | .call _ (.remove _) => true
  | _ => false

/-- A check that implies `Lawful`: the clock, and no removal after another. -/
def lawfulCheck (history : List Happening) (gossip : Gossip) (step : GossipStep) : Bool :=
  gossip.clock ≤ step.now
  && (!isRemoval step.event || history.all fun earlier => !isRemoval earlier.event.event)

theorem lawful_of_check {endpointId : Bytes} {history : List Happening} {gossip : Gossip}
    {step : GossipStep} (passes : lawfulCheck history gossip step = true)
    : Lawful endpointId history gossip step := by
  simp only [lawfulCheck, Bool.and_eq_true, decide_eq_true_eq] at passes
  refine ⟨passes.1, ?_⟩
  rintro ⟨site, event, -⟩ earlier member ⟨other, again, -⟩
  rcases (Bool.or_eq_true _ _).mp passes.2 with other | none
  · rw [event] at other
    cases other
  · have before := List.all_eq_true.mp none earlier member
    rw [again] at before
    cases before

/-- The second step removes the id, the third finds its tombstone at the first directory, and
the last gives it back to the directory without it.
-/
def handedBack : List Happening → Bool
  | [_, removal, third, _, _, _, stage] =>
      removal.event = { now := 2000, event := .call 0 (.remove [1]) }
      && (removal.before.directories 0).endpoints.contains [1]
      && (third.before.directories 0).tombstones.contains [1]
      && stage.event = { now := 62002, event := .deliver 0 2 }
      && !(stage.before.directories 0).tombstones.contains [1]
      && (stage.before.sent[2]?).any fun snapshot =>
        ((stage.before.directories 0).mergeSnapshot snapshot 62002).1.tombstones.contains [1]
  | _ => false

/-- The first directory takes the tombstone again, so no bound makes the claim true. -/
theorem handBack_not_forgets
    : ¬∃ bound, ∀ (endpointId : Bytes) (history : List Happening) (gossip : Gossip),
        Run step (Lawful endpointId) {} history gossip → Forgets bound endpointId history := by
  rintro ⟨bound, always⟩
  have shown : shows step {} handBack
      (fun history => audit lawfulCheck [] history && handedBack history) = true := by
    decide +kernel
  obtain ⟨history, gossip, run, passes⟩ := Run.of_shows shown
  simp only [Bool.and_eq_true] at passes
  have forgets := always [1] history gossip
    (run.of_audit (fun _ _ _ => lawful_of_check) passes.1)
  match history, passes.2 with
  | [first, removal, third, fourth, fifth, sixth, stage], found =>
      simp only [handedBack, Bool.and_eq_true, decide_eq_true_eq, Bool.not_eq_true'] at found
      obtain ⟨⟨⟨⟨⟨removed, held⟩, learnt⟩, event⟩, dropped⟩, takes⟩ := found
      obtain ⟨snapshot, sent, contains⟩ := (Option.any_eq_true_iff_get _ _).mp takes |> fun found =>
        (⟨_, (Option.some_get found.choose).symm, found.choose_spec⟩ :
          ∃ snapshot, stage.before.sent[2]? = some snapshot
            ∧ ((stage.before.directories 0).mergeSnapshot snapshot
              62002).1.tombstones.contains [1] = true)
      have removes : Removes [1] removal.before removal.event := ⟨0, by rw [removed], held⟩
      refine (forgets [first] removal [third, fourth, fifth, sixth] stage [] rfl removes).1
        ⟨0, 2, snapshot, by rw [event], by rw [removed, event]; decide, ⟨third, by simp, learnt⟩, ?_,
          sent, by rw [event]; exact contains⟩
      rw [dropped]
      exact Bool.false_ne_true

/-- A removal that a second directory learns of in time; both send again after its lifetime. -/
def handedOn : List GossipStep :=
  [
    { now := 1000, event := .call 0 (.upsert { endpointId := [1] }) },
    { now := 2000, event := .call 0 (.remove [1]) },
    { now := 3000, event := .snapshot 0 },
    { now := 4000, event := .deliver 1 0 },
    { now := 122000, event := .snapshot 0 },
    { now := 122001, event := .snapshot 1 }
  ]

/-- The second directory has the tombstone after the delivery, and both forget it. -/
theorem forgets_of_prompt_merged
    : ∃ history : List Happening, history.map Stage.event = handedOn
      ∧ (history[4]?.any fun stage => (stage.before.directories 1).tombstones.contains [1]) = true
      ∧ Forgets (2 * EndpointDirectory.kTombstoneTtlMs.toNat) [1] history := by
  have shown : shows step {} handedOn
      (fun history => audit (fun front gossip move =>
          lawfulCheck front gossip move
          && match move.event with
            | .deliver .. => decide (move.now.toNat < EndpointDirectory.kTombstoneTtlMs.toNat)
            | _ => true) [] history
        && decide (history.map Stage.event = handedOn)
        && history[4]?.any fun stage => (stage.before.directories 1).tombstones.contains [1])
        = true := by
    decide +kernel
  obtain ⟨history, gossip, run, passes⟩ := Run.of_shows shown
  simp only [Bool.and_eq_true, decide_eq_true_eq] at passes
  obtain ⟨⟨audited, events⟩, learnt⟩ := passes
  refine ⟨history, events, learnt, forgets_of_prompt [1] (run.of_audit ?_ audited)⟩
  intro front before move checked
  simp only [Bool.and_eq_true] at checked
  refine ⟨lawful_of_check checked.1, ?_⟩
  rintro removal - - late site index - event - -
  rw [event] at checked
  exact absurd (Nat.le_trans (Nat.le_add_left _ _) late) (Nat.not_le.mpr (of_decide_eq_true checked.2))

end Gossip

end Creek.Mesh
