import Mathlib

/-! Last-writer-wins registers with removals.
A record carries a stamp, and the stamp has a version. A register keeps the record with the
greatest stamp among those whose version is above every removal it has seen. What it ends
with depends on the set of updates alone.
-/

namespace Creek.Library

/-- An update of a register: a record, or the removal of everything up to a version. -/
inductive Update (ρ ν : Type*) where
  | put (record : ρ)
  | remove (version : ν)

/-- The record a register holds and the greatest version removed from it. -/
structure Register (ρ ν : Type*) where
  held : Option ρ := none
  floor : Option ν := none

section

variable {ρ σ ν : Type*} [LinearOrder σ] [LinearOrder ν] (stamp : ρ → σ) (version : σ → ν)

/-- Whether a record lies above the floor of a register. -/
def Register.admits (register : Register ρ ν) (record : ρ) : Prop :=
  ∀ floor ∈ register.floor, floor < version (stamp record)

instance (register : Register ρ ν) (record : ρ)
    : Decidable (register.admits stamp version record) :=
  inferInstanceAs (Decidable (∀ floor ∈ register.floor, floor < version (stamp record)))

/-- One update: a record takes the place of a held one with a smaller stamp, when the floor
admits it; a removal drops a held record up to its version and may raise the floor.
-/
def Register.apply (register : Register ρ ν) : Update ρ ν → Register ρ ν
  | .put record =>
      if register.admits stamp version record ∧ ∀ held ∈ register.held, stamp held < stamp record then
        { register with held := some record }
      else register
  | .remove removed =>
      {
        held := register.held.filter fun held => removed < version (stamp held)
        floor :=
          if ∃ floor ∈ register.floor, removed ≤ floor then register.floor else some removed
      }

/-- What a register is after the updates of a list, in whatever order they came: its floor is
the greatest removal, and it holds the record with the greatest stamp above the floor.
-/
structure Settled (updates : List (Update ρ ν)) (register : Register ρ ν) : Prop where
  floor_mem : ∀ floor ∈ register.floor, .remove floor ∈ updates
  floor_ge : ∀ removed, .remove removed ∈ updates → ∃ floor ∈ register.floor, removed ≤ floor
  held_mem : ∀ record ∈ register.held, .put record ∈ updates
  held_admitted : ∀ record ∈ register.held, register.admits stamp version record
  held_ge : ∀ record, .put record ∈ updates → register.admits stamp version record
    → ∃ held ∈ register.held, stamp record ≤ stamp held

/-- An empty register is settled for no updates. -/
theorem Settled.nil : Settled stamp version [] ({} : Register ρ ν) where
  floor_mem := by simp
  floor_ge := by simp
  held_mem := by simp
  held_admitted := by simp
  held_ge := by simp

variable {stamp version} {updates others : List (Update ρ ν)} {register : Register ρ ν}

/-- A record that the floor keeps out, or that does not exceed the held one, changes nothing. -/
theorem Settled.put_covered (settled : Settled stamp version updates register) {record : ρ}
    (covered : register.admits stamp version record → ∃ held ∈ register.held, stamp record ≤ stamp held)
    : Settled stamp version (updates ++ [.put record]) register where
  floor_mem := fun floor member => List.mem_append_left _ (settled.floor_mem floor member)
  floor_ge := fun removed member => settled.floor_ge removed (by simpa using member)
  held_mem := fun held member => List.mem_append_left _ (settled.held_mem held member)
  held_admitted := settled.held_admitted
  held_ge := by
    intro other member admitted
    rcases List.mem_append.mp member with earlier | last
    · exact settled.held_ge other earlier admitted
    · obtain rfl : other = record := by simpa using last
      exact covered admitted

/-- An admitted record that exceeds the held one, if any, takes its place. -/
theorem Settled.put_taken (settled : Settled stamp version updates register) {record : ρ}
    (admitted : register.admits stamp version record)
    (newer : ∀ held ∈ register.held, stamp held ≤ stamp record)
    : Settled stamp version (updates ++ [.put record]) { register with held := some record } where
  floor_mem := fun floor member => List.mem_append_left _ (settled.floor_mem floor member)
  floor_ge := fun removed member => settled.floor_ge removed (by simpa using member)
  held_mem := by simp
  held_admitted := by
    intro held holds
    obtain rfl := Option.some.inj holds
    exact admitted
  held_ge := by
    intro other member above
    refine ⟨record, rfl, ?_⟩
    rcases List.mem_append.mp member with earlier | last
    · obtain ⟨held, holds, below⟩ := settled.held_ge other earlier above
      exact below.trans (newer held holds)
    · obtain rfl : other = record := by simpa using last
      exact le_rfl

/-- A removal below the floor changes nothing. -/
theorem Settled.remove_known (settled : Settled stamp version updates register)
    {removed floor : ν} (known : floor ∈ register.floor) (below : removed ≤ floor)
    : Settled stamp version (updates ++ [.remove removed]) register where
  floor_mem := fun floor member => List.mem_append_left _ (settled.floor_mem floor member)
  floor_ge := by
    intro other member
    rcases List.mem_append.mp member with earlier | last
    · exact settled.floor_ge other earlier
    · obtain rfl : other = removed := by simpa using last
      exact ⟨floor, known, below⟩
  held_mem := fun held member => List.mem_append_left _ (settled.held_mem held member)
  held_admitted := settled.held_admitted
  held_ge := fun other member => settled.held_ge other (by simpa using member)

/-- A removal above the floor becomes the floor and drops a held record up to it. Witness: a
record above the new floor was above the old one, so the held record is at least as new.
-/
theorem Settled.remove_new (settled : Settled stamp version updates register)
    (monotone : Monotone version) {removed : ν}
    (above : ∀ floor ∈ register.floor, floor < removed)
    : Settled stamp version (updates ++ [.remove removed])
      {
        held := register.held.filter fun held => removed < version (stamp held)
        floor := some removed
      } where
  floor_mem := by simp
  floor_ge := by
    intro other member
    refine ⟨removed, rfl, ?_⟩
    rcases List.mem_append.mp member with earlier | last
    · obtain ⟨floor, known, below⟩ := settled.floor_ge other earlier
      exact below.trans (above floor known).le
    · obtain rfl : other = removed := by simpa using last
      exact le_rfl
  held_mem := by
    intro held holds
    have kept := (Option.mem_filter_iff.mp holds).1
    exact List.mem_append_left _ (settled.held_mem held kept)
  held_admitted := by
    intro held holds floor known
    obtain rfl := Option.some.inj known
    exact of_decide_eq_true (Option.mem_filter_iff.mp holds).2
  held_ge := by
    intro other member admitted
    have passes : removed < version (stamp other) := admitted removed rfl
    have earlier : .put other ∈ updates := by simpa using member
    obtain ⟨held, holds, below⟩ := settled.held_ge other earlier
      fun floor known => (above floor known).trans passes
    refine ⟨held, Option.mem_filter_iff.mpr ⟨holds, decide_eq_true ?_⟩, below⟩
    exact passes.trans_le (monotone below)

/-- One update keeps a register settled. -/
theorem Settled.apply (settled : Settled stamp version updates register)
    (monotone : Monotone version) (update : Update ρ ν)
    : Settled stamp version (updates ++ [update]) (register.apply stamp version update) := by
  cases update with
  | put record =>
      rw [Register.apply]
      by_cases admitted : register.admits stamp version record
      · by_cases newer : ∀ held ∈ register.held, stamp held < stamp record
        · rw [if_pos ⟨admitted, newer⟩]
          exact settled.put_taken admitted fun held holds => (newer held holds).le
        · rw [if_neg fun both => newer both.2]
          push Not at newer
          obtain ⟨held, holds, older⟩ := newer
          exact settled.put_covered fun _ => ⟨_, holds, older⟩
      · rw [if_neg fun both => admitted both.1]
        exact settled.put_covered fun above => absurd above admitted
  | remove removed =>
      rw [Register.apply]
      split
      · rename_i known
        obtain ⟨floor, member, below⟩ := known
        have unchanged : register.held.filter (fun held => removed < version (stamp held)) =
            register.held := by
          rcases holds : register.held with _ | held
          · rfl
          · have above := settled.held_admitted held holds floor member
            exact Option.filter_eq_some_iff.mpr ⟨rfl, decide_eq_true (below.trans_lt above)⟩
        rw [unchanged]
        exact settled.remove_known member below
      · rename_i unknown
        push Not at unknown
        exact settled.remove_new monotone unknown

/-- Any updates keep a register settled, whatever their order. -/
theorem Settled.foldl (settled : Settled stamp version updates register)
    (monotone : Monotone version) (more : List (Update ρ ν))
    : Settled stamp version (updates ++ more) (more.foldl (Register.apply stamp version) register) := by
  induction more generalizing updates register with
  | nil => simpa using settled
  | cons update rest ih =>
      rw [← List.singleton_append, ← List.append_assoc]
      exact ih (settled.apply monotone update)

/-- Registers settled for the same updates agree, when no two records share a stamp.
Witness: the floors bound each other, and so do the stamps of the held records.
-/
theorem Settled.unique {other : Register ρ ν} (left : Settled stamp version updates register)
    (right : Settled stamp version others other) (same : ∀ update, update ∈ updates ↔ update ∈ others)
    (distinct : ∀ first second, .put first ∈ updates → .put second ∈ updates
      → stamp first = stamp second
      → first = second)
    : register = other := by
  have floors : register.floor = other.floor := by
    rcases known : register.floor with _ | floor
    · rcases known' : other.floor with _ | floor'
      · rfl
      · obtain ⟨found, member, -⟩ :=
          left.floor_ge floor' ((same _).mpr (right.floor_mem floor' known'))
        rw [known] at member
        cases member
    · obtain ⟨floor', known', below⟩ :=
        right.floor_ge floor ((same _).mp (left.floor_mem floor known))
      obtain ⟨found, member, above⟩ :=
        left.floor_ge floor' ((same _).mpr (right.floor_mem floor' known'))
      obtain rfl : floor = found := Option.some.inj (known.symm.trans member)
      rw [known', le_antisymm below above]
  have admits : ∀ record, register.admits stamp version record ↔ other.admits stamp version record :=
    fun record => by rw [Register.admits, Register.admits, floors]
  have helds : register.held = other.held := by
    rcases holds : register.held with _ | held
    · rcases holds' : other.held with _ | held'
      · rfl
      · obtain ⟨found, member, -⟩ := left.held_ge held'
          ((same _).mpr (right.held_mem held' holds'))
          ((admits held').mpr (right.held_admitted held' holds'))
        rw [holds] at member
        cases member
    · have mine := left.held_mem held holds
      obtain ⟨held', holds', below⟩ := right.held_ge held ((same _).mp mine)
        ((admits held).mp (left.held_admitted held holds))
      have theirs := (same _).mpr (right.held_mem held' holds')
      obtain ⟨found, member, above⟩ := left.held_ge held' theirs
        ((admits held').mpr (right.held_admitted held' holds'))
      obtain rfl : held = found := Option.some.inj (holds.symm.trans member)
      rw [holds', distinct held held' mine theirs (le_antisymm below above)]
  cases register
  cases other
  simp_all

/-- Every record a register holds lies above its floor. -/
def Register.Sound (stamp : ρ → σ) (version : σ → ν) (register : Register ρ ν) : Prop :=
  ∀ held ∈ register.held, register.admits stamp version held

/-- An update keeps the held record above the floor. -/
theorem Register.Sound.apply (sound : register.Sound stamp version) (update : Update ρ ν)
    : (register.apply stamp version update).Sound stamp version := by
  cases update with
  | put record =>
      rw [Register.apply]
      split
      · rename_i taken
        intro held holds
        obtain rfl := Option.some.inj holds
        exact taken.1
      · exact sound
  | remove removed =>
      intro held holds floor known
      obtain ⟨earlier, above⟩ := Option.mem_filter_iff.mp holds
      rw [Register.apply] at known
      dsimp only at known
      split at known
      · exact sound held earlier floor known
      · obtain rfl := Option.some.inj known
        exact of_decide_eq_true above

/-- The first record with the greatest stamp. -/
def Foremost (stamp : ρ → σ) (records : List ρ) (record : ρ) : Prop :=
  ∃ earlier later, records = earlier ++ record :: later
    ∧ (∀ other ∈ earlier, stamp other < stamp record)
    ∧ ∀ other ∈ later, stamp other ≤ stamp record

namespace Foremost

variable {records rest : List ρ} {record first second : ρ}

/-- No record has a greater stamp. -/
theorem stamp_le (foremost : Foremost stamp records record)
    : ∀ other ∈ records, stamp other ≤ stamp record := by
  obtain ⟨earlier, later, rfl, below, above⟩ := foremost
  intro other member
  rcases List.mem_append.mp member with before | behind
  · exact (below other before).le
  · rcases List.mem_cons.mp behind with rfl | after
    · exact le_rfl
    · exact above other after

/-- There is at most one. Witness: the first of two positions would have to have a smaller stamp than
the second, and no smaller.
-/
theorem unique {other : ρ} (left : Foremost stamp records record)
    (right : Foremost stamp records other)
    : record = other := by
  obtain ⟨earlier, later, rfl, below, above⟩ := left
  obtain ⟨earlier', later', split, below', above'⟩ := right
  rcases List.append_eq_append_iff.mp split with ⟨middle, rfl, tail⟩ | ⟨middle, rfl, tail⟩
  · cases middle with
    | nil => exact List.head_eq_of_cons_eq tail
    | cons head middle =>
        obtain ⟨rfl, rfl⟩ := List.cons.inj tail
        have smaller := below' record (List.mem_append_right _ List.mem_cons_self)
        have notSmaller := above other (List.mem_append_right _ List.mem_cons_self)
        exact absurd smaller notSmaller.not_gt
  · cases middle with
    | nil => exact (List.head_eq_of_cons_eq tail).symm
    | cons head middle =>
        obtain ⟨rfl, rfl⟩ := List.cons.inj tail
        have smaller := below other (List.mem_append_right _ List.mem_cons_self)
        have notSmaller := above' record (List.mem_append_right _ List.mem_cons_self)
        exact absurd smaller notSmaller.not_gt

/-- A record with a smaller stamp than the next is not the one. -/
theorem cons_newer (newer : stamp first < stamp second)
    : Foremost stamp (first :: second :: rest) record
      ↔ Foremost stamp (second :: rest) record := by
  constructor
  · rintro ⟨_ | ⟨head, earlier⟩, later, split, below, above⟩
    · obtain ⟨rfl, rfl⟩ := List.cons.inj split
      exact absurd (above second List.mem_cons_self) newer.not_ge
    · exact ⟨earlier, later, (List.cons.inj split).2,
        fun other member => below other (List.mem_cons_of_mem _ member), above⟩
  · intro foremost
    have least := newer.trans_le (foremost.stamp_le second List.mem_cons_self)
    obtain ⟨earlier, later, split, below, above⟩ := foremost
    refine ⟨first :: earlier, later, by rw [split, List.cons_append], ?_, above⟩
    intro other member
    rcases List.mem_cons.mp member with rfl | inner
    · exact least
    · exact below other inner

/-- A record with no greater stamp than the one before it is not the one. -/
theorem cons_older (older : stamp second ≤ stamp first)
    : Foremost stamp (first :: second :: rest) record
      ↔ Foremost stamp (first :: rest) record := by
  constructor
  · rintro ⟨_ | ⟨head, _ | ⟨next, earlier⟩⟩, later, split, below, above⟩
    · obtain ⟨rfl, rfl⟩ := List.cons.inj split
      exact ⟨[], rest, rfl, below, fun other member => above other (List.mem_cons_of_mem _ member)⟩
    · obtain ⟨rfl, tail⟩ := List.cons.inj split
      obtain ⟨rfl, rfl⟩ := List.cons.inj tail
      exact absurd (below first List.mem_cons_self) older.not_gt
    · obtain ⟨rfl, tail⟩ := List.cons.inj split
      obtain ⟨rfl, rfl⟩ := List.cons.inj tail
      refine ⟨first :: earlier, later, rfl, fun other member => below other ?_, above⟩
      rcases List.mem_cons.mp member with rfl | inner
      · exact List.mem_cons_self
      · exact List.mem_cons_of_mem _ (List.mem_cons_of_mem _ inner)
  · rintro ⟨_ | ⟨head, earlier⟩, later, split, below, above⟩
    · obtain ⟨rfl, rfl⟩ := List.cons.inj split
      refine ⟨[], second :: rest, rfl, below, fun other member => ?_⟩
      rcases List.mem_cons.mp member with rfl | inner
      · exact older
      · exact above other inner
    · obtain ⟨rfl, rfl⟩ := List.cons.inj split
      refine ⟨first :: second :: earlier, later, rfl, fun other member => ?_, above⟩
      have least := below first List.mem_cons_self
      rcases List.mem_cons.mp member with rfl | inner
      · exact least
      · rcases List.mem_cons.mp inner with rfl | inside
        · exact older.trans_lt least
        · exact below other (List.mem_cons_of_mem _ inside)

/-- Of one record it is the one. -/
theorem singleton : Foremost stamp [first] record ↔ record = first := by
  constructor
  · rintro ⟨earlier, later, split, -, -⟩
    exact (List.append_eq_singleton_iff.mp split.symm).elim
      (fun both => List.head_eq_of_cons_eq both.2)
      (fun both => absurd both.2 (List.cons_ne_nil _ _))
  · rintro rfl
    exact ⟨[], [], rfl, fun other member => absurd member List.not_mem_nil,
      fun other member => absurd member List.not_mem_nil⟩

/-- Among some records there is one. -/
theorem exists_cons (first : ρ) (rest : List ρ)
    : ∃ record, Foremost stamp (first :: rest) record := by
  induction rest generalizing first with
  | nil => exact ⟨first, singleton.mpr rfl⟩
  | cons second rest ih =>
      rcases lt_or_ge (stamp first) (stamp second) with newer | older
      · exact (ih second).imp fun record => (cons_newer newer).mpr
      · exact (ih first).imp fun record => (cons_older older).mpr

end Foremost

/-- A record leaves the floor. -/
theorem Register.apply_put_admits (record other : ρ)
    : (register.apply stamp version (.put record)).admits stamp version other
      ↔ register.admits stamp version other := by
  rw [Register.apply]
  split
  · exact Iff.rfl
  · exact Iff.rfl

/-- After records the register holds the foremost of what it held and what the floor admits. -/
theorem Register.foldl_put_held (records : List ρ) (record : ρ)
    : ((records.map Update.put).foldl (Register.apply stamp version) register).held = some record
      ↔ Foremost stamp
        (register.held.toList ++ records.filter fun other => register.admits stamp version other)
        record := by
  induction records generalizing register with
  | nil =>
      rcases holds : register.held with _ | held
      · refine iff_of_false (fun found => ?_) ?_
        · rw [List.map_nil, List.foldl_nil, holds] at found
          cases found
        · rintro ⟨earlier, later, split, -, -⟩
          exact absurd split.symm (List.append_ne_nil_of_right_ne_nil _ (List.cons_ne_nil _ _))
      · rw [List.map_nil, List.foldl_nil, holds]
        exact Option.some_inj.trans (eq_comm.trans Foremost.singleton.symm)
  | cons next rest ih =>
      rw [List.map_cons, List.foldl_cons, ih]
      simp only [Register.apply_put_admits]
      rw [Register.apply]
      by_cases admitted : register.admits stamp version next
      · have listed : (next :: rest).filter (fun other => register.admits stamp version other) =
            next :: rest.filter fun other => register.admits stamp version other :=
          List.filter_cons_of_pos (decide_eq_true admitted)
        rw [listed]
        rcases holds : register.held with _ | held
        · rw [if_pos ⟨admitted, fun held member => by cases member⟩]
          rfl
        · by_cases newer : stamp held < stamp next
          · rw [if_pos ⟨admitted, fun other member => Option.some.inj member ▸ newer⟩]
            exact (Foremost.cons_newer newer).symm
          · rw [if_neg fun both => newer (both.2 held rfl), holds]
            exact (Foremost.cons_older (not_lt.mp newer)).symm
      · have skipped : (next :: rest).filter (fun other => register.admits stamp version other) =
            rest.filter fun other => register.admits stamp version other :=
          List.filter_cons_of_neg fun passes => admitted (of_decide_eq_true passes)
        rw [if_neg fun both => admitted both.1, skipped]

/-- After removals the held record is there exactly when it exceeds all of them. -/
theorem Register.foldl_remove_held (versions : List ν)
    : ((versions.map Update.remove).foldl (Register.apply stamp version) register).held =
      register.held.filter fun held => ∀ removed ∈ versions, removed < version (stamp held) := by
  induction versions generalizing register with
  | nil => rcases holds : register.held with _ | held <;> simp [holds, Option.filter]
  | cons removed rest ih =>
      rw [List.map_cons, List.foldl_cons, ih, Register.apply]
      simp only [Option.filter_filter, List.forall_mem_cons]
      refine congrArg (fun keep => Option.filter keep register.held) (funext fun held => ?_)
      rw [← Bool.decide_and]

end

end Creek.Library
