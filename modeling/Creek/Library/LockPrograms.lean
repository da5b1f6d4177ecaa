import Creek.Library.Locks

/-! Programs reduced to the locks they take, and the paths through them.
A branch that matters carries a tag, which its paths show. What a program may do at each lock is checked
along its structure; which tags lead where is, too.
-/

namespace Creek.Library

/-- What a path shows: a lock that is taken, blocking or not, or returned, and the tag of a branch. -/
inductive LockStep (Lock Tag : Type*) where
  | acquire (lock : Lock)
  | tryAcquire (lock : Lock)
  | release (lock : Lock)
  | branch (tag : Tag)

/-- What a step does to the locks of its thread. -/
def LockStep.effect {Lock Tag : Type*} : LockStep Lock Tag → LockEffect Lock
  | .acquire lock => .acquire lock
  | .tryAcquire lock => .acquire lock
  | .release lock => .release lock
  | .branch _ => .keep

/-- A program: a section under a lock, or one that is skipped when the lock is not free, a tagged branch,
one after another, a choice, one for some index, and any number of rounds.
-/
inductive LockCode (Lock Tag : Type) where
  | skip
  | tagged (tag : Tag) (body : LockCode Lock Tag)
  | locked (lock : Lock) (body : LockCode Lock Tag)
  | tried (lock : Lock) (body : LockCode Lock Tag)
  | seq (first second : LockCode Lock Tag)
  | either (left right : LockCode Lock Tag)
  | any (body : Nat → LockCode Lock Tag)
  | many (body : LockCode Lock Tag)

namespace LockCode

variable {Lock Tag : Type}

/-- The paths through a program. -/
def paths : LockCode Lock Tag → Language (LockStep Lock Tag)
  | skip => 1
  | tagged tag body => {[.branch tag]} * body.paths
  | locked lock body => {[.acquire lock]} * body.paths * {[.release lock]}
  | tried lock body => 1 + {[.tryAcquire lock]} * body.paths * {[.release lock]}
  | seq first second => first.paths * second.paths
  | either left right => left.paths + right.paths
  | any body => ⨆ index, (body index).paths
  | many body => KStar.kstar body.paths

/-- A program obeys a rule under the locks held, as long as it takes allowed branches. -/
def Follows (rule : List Lock → LockStep Lock Tag → Prop) (allowed : Tag → Prop) (held : List Lock)
    : LockCode Lock Tag → Prop
  | skip => True
  | tagged tag body => rule held (.branch tag) ∧ (allowed tag → body.Follows rule allowed held)
  | locked lock body =>
      rule held (.acquire lock)
      ∧ body.Follows rule allowed (lock :: held)
      ∧ rule (lock :: held) (.release lock)
  | tried lock body =>
      rule held (.tryAcquire lock)
      ∧ body.Follows rule allowed (lock :: held)
      ∧ rule (lock :: held) (.release lock)
  | seq first second => first.Follows rule allowed held ∧ second.Follows rule allowed held
  | either left right => left.Follows rule allowed held ∧ right.Follows rule allowed held
  | any body => ∀ index, (body index).Follows rule allowed held
  | many body => body.Follows rule allowed held

/-- The paths behind every branch with a tag are of a kind. -/
def Leads (tag : Tag) (kind : List (LockStep Lock Tag) → Prop) : LockCode Lock Tag → Prop
  | skip => True
  | tagged other body => (other = tag → ∀ path ∈ body.paths, kind path) ∧ body.Leads tag kind
  | locked _ body => body.Leads tag kind
  | tried _ body => body.Leads tag kind
  | seq first second => first.Leads tag kind ∧ second.Leads tag kind
  | either left right => left.Leads tag kind ∧ right.Leads tag kind
  | any body => ∀ index, (body index).Leads tag kind
  | many body => body.Leads tag kind

theorem mem_section {enter leave : LockStep Lock Tag} {inside : Language (LockStep Lock Tag)}
    {path : List (LockStep Lock Tag)}
    : path ∈ ({[enter]} * inside * {[leave]} : Language (LockStep Lock Tag))
      ↔ ∃ body ∈ inside, path = enter :: body ++ [leave] := by
  constructor
  · rintro ⟨front, ⟨first, rfl, body, member, rfl⟩, last, rfl, rfl⟩
    exact ⟨body, member, rfl⟩
  · rintro ⟨body, member, rfl⟩
    exact ⟨enter :: body, ⟨[enter], rfl, body, member, rfl⟩, [leave], rfl, rfl⟩

theorem mem_tagged {tag : Tag} {inside : Language (LockStep Lock Tag)}
    {path : List (LockStep Lock Tag)}
    : path ∈ ({[.branch tag]} * inside : Language (LockStep Lock Tag))
      ↔ ∃ body ∈ inside, path = .branch tag :: body := by
  constructor
  · rintro ⟨first, rfl, body, member, rfl⟩
    exact ⟨body, member, rfl⟩
  · rintro ⟨body, member, rfl⟩
    exact ⟨[.branch tag], rfl, body, member, rfl⟩

-- What the paths obey

variable [DecidableEq Lock] {rule : List Lock → LockStep Lock Tag → Prop} {allowed : Tag → Prop}
  {code : LockCode Lock Tag} {path : List (LockStep Lock Tag)}

/-- Every path returns the locks it takes. -/
theorem balanced_of_mem (member : path ∈ code.paths) : Balanced LockStep.effect path := by
  induction code generalizing path with
  | skip =>
      obtain rfl := (Language.mem_one path).mp member
      exact balanced_nil
  | tagged tag body ih =>
      obtain ⟨inside, through, rfl⟩ := mem_tagged.mp member
      exact Balanced.append (balanced_keep rfl) (ih through)
  | locked lock body ih =>
      obtain ⟨inside, through, rfl⟩ := mem_section.mp member
      exact (ih through).section_ rfl rfl
  | tried lock body ih =>
      rcases (Language.mem_add _ _ path).mp member with missed | taken
      · obtain rfl := (Language.mem_one path).mp missed
        exact balanced_nil
      · obtain ⟨inside, through, rfl⟩ := mem_section.mp taken
        exact (ih through).section_ rfl rfl
  | seq first second ih ih' =>
      obtain ⟨front, early, back, late, rfl⟩ := Language.mem_mul.mp member
      exact (ih early).append (ih' late)
  | either left right ih ih' =>
      exact ((Language.mem_add _ _ path).mp member).elim ih ih'
  | any body ih =>
      obtain ⟨index, here⟩ := Language.mem_iSup.mp member
      exact ih index here
  | many body ih =>
      obtain ⟨rounds, rfl, each⟩ := Language.mem_kstar.mp member
      rw [← List.flatMap_id]
      exact .flatMap fun round member => ih (each round member)

/-- A program that follows a rule has paths that obey it, as long as they take allowed branches. -/
theorem Follows.obeys {held : List Lock} (follows : code.Follows rule allowed held)
    (member : path ∈ code.paths) (tags : ∀ tag, .branch tag ∈ path → allowed tag)
    : Obeys LockStep.effect rule held path := by
  induction code generalizing held path with
  | skip =>
      obtain rfl := (Language.mem_one path).mp member
      exact obeys_nil
  | tagged tag body ih =>
      obtain ⟨inside, through, rfl⟩ := mem_tagged.mp member
      refine obeys_cons.mpr ⟨follows.1, ?_⟩
      refine ih (follows.2 (tags tag List.mem_cons_self)) through fun other later => ?_
      exact tags other (List.mem_cons_of_mem _ later)
  | locked lock body ih =>
      obtain ⟨inside, through, rfl⟩ := mem_section.mp member
      obtain ⟨enter, within, leave⟩ := follows
      refine Obeys.section_ (ih within through fun tag later => ?_) (balanced_of_mem through) rfl enter
        leave
      exact tags tag (List.mem_append_left _ (List.mem_cons_of_mem _ later))
  | tried lock body ih =>
      rcases (Language.mem_add _ _ path).mp member with missed | taken
      · obtain rfl := (Language.mem_one path).mp missed
        exact obeys_nil
      · obtain ⟨inside, through, rfl⟩ := mem_section.mp taken
        obtain ⟨enter, within, leave⟩ := follows
        refine Obeys.section_ (ih within through fun tag later => ?_) (balanced_of_mem through) rfl enter
          leave
        exact tags tag (List.mem_append_left _ (List.mem_cons_of_mem _ later))
  | seq first second ih ih' =>
      obtain ⟨front, early, back, late, rfl⟩ := Language.mem_mul.mp member
      refine (ih follows.1 early fun tag earlier => ?_).append (balanced_of_mem early)
        (ih' follows.2 late fun tag later => ?_)
      · exact tags tag (List.mem_append_left _ earlier)
      · exact tags tag (List.mem_append_right _ later)
  | either left right ih ih' =>
      rcases (Language.mem_add _ _ path).mp member with here | there
      · exact ih follows.1 here tags
      · exact ih' follows.2 there tags
  | any body ih =>
      obtain ⟨index, here⟩ := Language.mem_iSup.mp member
      exact ih index (follows index) here tags
  | many body ih =>
      obtain ⟨rounds, rfl, each⟩ := Language.mem_kstar.mp member
      rw [← List.flatMap_id]
      refine Obeys.flatMap (fun round member => ?_) fun round member => balanced_of_mem (each round member)
      exact ih follows (each round member) fun tag inside => tags tag (List.mem_flatten_of_mem member inside)

omit [DecidableEq Lock] in
/-- A path that takes a branch goes on as the branch leads. -/
theorem Leads.segment {tag : Tag} {kind : List (LockStep Lock Tag) → Prop} (leads : code.Leads tag kind)
    (member : path ∈ code.paths) (taken : .branch tag ∈ path)
    : ∃ front segment back, path = front ++ segment ++ back ∧ kind segment := by
  have inside {enter leave : LockStep Lock Tag} {body : List (LockStep Lock Tag)}
      (found : ∃ front segment back, body = front ++ segment ++ back ∧ kind segment)
      : ∃ front segment back, enter :: body ++ [leave] = front ++ segment ++ back ∧ kind segment := by
    obtain ⟨front, segment, back, rfl, holds⟩ := found
    exact ⟨enter :: front, segment, back ++ [leave], by simp, holds⟩
  induction code generalizing path with
  | skip =>
      obtain rfl := (Language.mem_one path).mp member
      cases taken
  | tagged other body ih =>
      obtain ⟨rest, through, rfl⟩ := mem_tagged.mp member
      rcases List.mem_cons.mp taken with here | later
      · obtain rfl := LockStep.branch.inj here
        exact ⟨[.branch tag], rest, [], by simp, leads.1 rfl rest through⟩
      · obtain ⟨front, segment, back, rfl, holds⟩ := ih leads.2 through later
        exact ⟨.branch other :: front, segment, back, by simp, holds⟩
  | locked lock body ih =>
      obtain ⟨rest, through, rfl⟩ := mem_section.mp member
      exact inside (ih leads through (by simpa using taken))
  | tried lock body ih =>
      rcases (Language.mem_add _ _ path).mp member with missed | tries
      · obtain rfl := (Language.mem_one path).mp missed
        cases taken
      · obtain ⟨rest, through, rfl⟩ := mem_section.mp tries
        exact inside (ih leads through (by simpa using taken))
  | seq first second ih ih' =>
      obtain ⟨start, early, rest, late, rfl⟩ := Language.mem_mul.mp member
      rcases List.mem_append.mp taken with earlier | later
      · obtain ⟨front, segment, back, rfl, holds⟩ := ih leads.1 early earlier
        exact ⟨front, segment, back ++ rest, by simp, holds⟩
      · obtain ⟨front, segment, back, rfl, holds⟩ := ih' leads.2 late later
        exact ⟨start ++ front, segment, back, by simp, holds⟩
  | either left right ih ih' =>
      rcases (Language.mem_add _ _ path).mp member with here | there
      · exact ih leads.1 here taken
      · exact ih' leads.2 there taken
  | any body ih =>
      obtain ⟨index, here⟩ := Language.mem_iSup.mp member
      exact ih index (leads index) here taken
  | many body ih =>
      obtain ⟨rounds, rfl, each⟩ := Language.mem_kstar.mp member
      obtain ⟨round, listed, within⟩ := List.mem_flatten.mp taken
      obtain ⟨before, after, rfl⟩ := List.append_of_mem listed
      obtain ⟨front, segment, back, rfl, holds⟩ := ih leads (each round listed) within
      exact ⟨before.flatten ++ front, segment, back ++ after.flatten, by simp, holds⟩

-- How paths begin

section

variable {Lock Tag : Type} {kind : Lock → Prop} {lock : Lock} {body first second : LockCode Lock Tag}

/-- Every path begins with a lock of a kind. -/
def Begins (kind : Lock → Prop) (code : LockCode Lock Tag) : Prop :=
  ∀ path ∈ code.paths, ∃ lock rest, path = .acquire lock :: rest ∧ kind lock

theorem begins_locked (holds : kind lock) : Begins kind (locked lock body) := by
  intro path member
  obtain ⟨inside, -, rfl⟩ := mem_section.mp member
  exact ⟨lock, inside ++ [.release lock], rfl, holds⟩

theorem Begins.seq (begins : Begins kind first) : Begins kind (first.seq second) := by
  intro path member
  obtain ⟨front, early, back, -, rfl⟩ := Language.mem_mul.mp member
  obtain ⟨lock, rest, rfl, holds⟩ := begins front early
  exact ⟨lock, rest ++ back, rfl, holds⟩

theorem begins_any {body : Nat → LockCode Lock Tag} (begins : ∀ index, Begins kind (body index))
    : Begins kind (any body) := by
  intro path member
  obtain ⟨index, here⟩ := Language.mem_iSup.mp member
  exact begins index path here

end

-- Which branches are there

section

variable {Lock Tag : Type}

/-- Some path takes a branch with a tag. -/
def Reaches (tag : Tag) : LockCode Lock Tag → Prop
  | skip => False
  | tagged other body => other = tag ∨ body.Reaches tag
  | locked _ body => body.Reaches tag
  | tried _ body => body.Reaches tag
  | seq first second => first.Reaches tag ∨ second.Reaches tag
  | either left right => left.Reaches tag ∨ right.Reaches tag
  | any body => ∃ index, (body index).Reaches tag
  | many body => body.Reaches tag

/-- There is a path through every program. -/
theorem exists_path (code : LockCode Lock Tag) : ∃ path, path ∈ code.paths := by
  induction code with
  | skip => exact ⟨[], (Language.mem_one []).mpr rfl⟩
  | tagged tag body ih =>
      obtain ⟨inside, through⟩ := ih
      exact ⟨_, mem_tagged.mpr ⟨inside, through, rfl⟩⟩
  | locked lock body ih =>
      obtain ⟨inside, through⟩ := ih
      exact ⟨_, mem_section.mpr ⟨inside, through, rfl⟩⟩
  | tried lock body _ => exact ⟨[], .inl ((Language.mem_one []).mpr rfl)⟩
  | seq first second ih ih' =>
      obtain ⟨front, early⟩ := ih
      obtain ⟨back, late⟩ := ih'
      exact ⟨front ++ back, Language.mem_mul.mpr ⟨front, early, back, late, rfl⟩⟩
  | either left right ih _ =>
      obtain ⟨path, here⟩ := ih
      exact ⟨path, .inl here⟩
  | any body ih =>
      obtain ⟨path, here⟩ := ih 0
      exact ⟨path, Language.mem_iSup.mpr ⟨0, here⟩⟩
  | many body _ => exact ⟨[], Language.mem_kstar.mpr ⟨[], rfl, by simp⟩⟩

/-- A branch that is reached is on a path. -/
theorem Reaches.exists {tag : Tag} {code : LockCode Lock Tag} (reaches : code.Reaches tag)
    : ∃ path ∈ code.paths, .branch tag ∈ path := by
  induction code with
  | skip => cases reaches
  | tagged other body ih =>
      rcases reaches with rfl | later
      · obtain ⟨inside, through⟩ := exists_path body
        exact ⟨_, mem_tagged.mpr ⟨inside, through, rfl⟩, List.mem_cons_self⟩
      · obtain ⟨inside, through, takes⟩ := ih later
        exact ⟨_, mem_tagged.mpr ⟨inside, through, rfl⟩, List.mem_cons_of_mem _ takes⟩
  | locked lock body ih =>
      obtain ⟨inside, through, takes⟩ := ih reaches
      exact ⟨_, mem_section.mpr ⟨inside, through, rfl⟩, by simp [takes]⟩
  | tried lock body ih =>
      obtain ⟨inside, through, takes⟩ := ih reaches
      exact ⟨_, .inr (mem_section.mpr ⟨inside, through, rfl⟩), by simp [takes]⟩
  | seq first second ih ih' =>
      rcases reaches with here | there
      · obtain ⟨front, early, takes⟩ := ih here
        obtain ⟨back, late⟩ := exists_path second
        exact ⟨front ++ back, Language.mem_mul.mpr ⟨front, early, back, late, rfl⟩,
          List.mem_append_left _ takes⟩
      · obtain ⟨front, early⟩ := exists_path first
        obtain ⟨back, late, takes⟩ := ih' there
        exact ⟨front ++ back, Language.mem_mul.mpr ⟨front, early, back, late, rfl⟩,
          List.mem_append_right _ takes⟩
  | either left right ih ih' =>
      rcases reaches with here | there
      · obtain ⟨path, through, takes⟩ := ih here
        exact ⟨path, .inl through, takes⟩
      · obtain ⟨path, through, takes⟩ := ih' there
        exact ⟨path, .inr through, takes⟩
  | any body ih =>
      obtain ⟨index, here⟩ := reaches
      obtain ⟨path, through, takes⟩ := ih index here
      exact ⟨path, Language.mem_iSup.mpr ⟨index, through⟩, takes⟩
  | many body ih =>
      obtain ⟨path, through, takes⟩ := ih reaches
      refine ⟨path, Language.mem_kstar.mpr ⟨[path], by simp, ?_⟩, takes⟩
      exact fun round member => List.mem_singleton.mp member ▸ through

end

end LockCode

end Creek.Library
