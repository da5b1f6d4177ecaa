import Creek.Leaf.LeafMutexes

/-! The order in which a leaf takes its mutexes. Under `m_mutex` streams to backends are locked, and by
`stop` calls of clients and slots; two branches go the other way, and one of them comes back to the
mutex it holds.
-/

namespace Creek.Leaf.LeafCode

open Library
open LockCode

abbrev LeafStep := LockStep LeafMutex LeafBranch

/-- Among some paths, one blocks on a mutex of a kind while it holds one of another. -/
def Blocks (taken : Set (List LeafStep)) (outer inner : MutexKind) : Prop :=
  ∃ path ∈ taken, ∃ front lock back, path = front ++ .acquire lock :: back
    ∧ lock.kind = inner
    ∧ ∃ other ∈ heldAfter LockStep.effect [] front, other.kind = outer

/-- The lock order of some paths: none takes a mutex that it holds, and the kinds are not locked in a
circle.
-/
structure Ordered (taken : Set (List LeafStep)) : Prop where
  once : ∀ path ∈ taken, ∀ front step back lock, path = front ++ step :: back
    → step.effect = .acquire lock
    → lock ∉ heldAfter LockStep.effect [] front
  acyclic : ∀ kind, ¬Relation.TransGen (Blocks taken) kind kind

/-- Some path takes a branch. -/
def Shows (taken : Set (List LeafStep)) (branch : LeafBranch) : Prop :=
  ∃ path ∈ taken, .branch branch ∈ path

/-- The paths of the threads of a leaf. -/
def leafPaths : Set (List LeafStep) := { path | ∃ code ∈ entryPoints, path ∈ code.paths }

-- What may be locked under what

/-- The kinds that are locked under a kind, where the given branches are taken. -/
def Edge (shows : LeafBranch → Prop) : MutexKind → MutexKind → Prop
  | .leaf, .backend => True
  | .leaf, .ingress => shows .stopsStreams
  | .leaf, .pending => shows .stopsPending
  | .pending, .leaf => shows .timedOut
  | .ingress, .leaf => shows (.createFailed false)
  | _, _ => False

/-- A mutex is taken once, and blocking only along the edges. -/
def rule (shows : LeafBranch → Prop) (held : List LeafMutex) : LeafStep → Prop
  | .acquire lock => lock ∉ held ∧ ∀ other ∈ held, Edge shows other.kind lock.kind
  | .tryAcquire lock => lock ∉ held
  | .release _ => True
  | .branch _ => True

-- The functions of a leaf unfold to the locks that they take.
attribute [simp] handleSayHello handleJsonRpc handleRegister handleHeartbeat handleDeregister
  handleMetrics handleDirectoryQuery handleSetSticky handleSetBreaker handlePushWasm handleListWasm
  handleUnloadWasm onMessage onPeerEvent processBatch workerLoop streamWorkerLoop genericPump
  backendPump streamSweepLoop doHeartbeatWork doSyncWork doRedisSyncWork start stop invokeForHello
  helloAttempt sendRoutedRequest callBackend processInboundRequest processInboundGeneric handleMessage
  handleInboundResponse handleInboundRequest handleDirectory processStreamClose
  ingressBackendClosedRaw processStreamFrame processStreamOpen genericEvent genericOnAlarm
  genericOnFinish genericOnWrite genericOnRead genericOnNewCall primeGenericCall genericBeginStream
  beginRemote beginLocal pickFailed backendCreateFailed flushBuffered ingressForwardFrame
  ingressBackendClosed ingressBackendMessage ingressQueueWrite ingressTeardown ingressTryFinish
  tryFinishWhen findStream sendStreamCloseTo sendSnapshotToParent sendResponseToParent
  makeErrorResponse currentNodeId getStub getChannel sendToMesh run backendStreamFinished
  clientHalfClose clientMessage maybe leafOnly underLeaf

theorem follows_rule {shows : LeafBranch → Prop} (created : ¬shows (.createFailed true))
    : ∀ code ∈ entryPoints, code.Follows (rule shows) shows [] := by
  simp [entryPoints, Follows, rule, Edge, LeafMutex.kind, created]

/-- A path that takes a mutex of a kind and at once one of another. -/
def Nests (outer inner : MutexKind) (path : List LeafStep) : Prop :=
  ∃ first second rest, path = .acquire first :: .acquire second :: rest
    ∧ first.kind = outer
    ∧ second.kind = inner

/-- A path that comes back to the mutex of a call while it holds it. -/
def ComesBack (path : List LeafStep) : Prop :=
  ∃ call rest, path =
    .acquire (.ingress call) :: .acquire .leaf :: .release .leaf :: .acquire (.ingress call) :: rest

theorem nests_locked {outer inner : MutexKind} {lock : LeafMutex} {body : LeafCode}
    (holds : lock.kind = outer) (begins : Begins (fun other => other.kind = inner) body)
    : ∀ path ∈ (locked lock body : LeafCode).paths, Nests outer inner path := by
  intro path member
  obtain ⟨inside, through, rfl⟩ := mem_section.mp member
  obtain ⟨second, rest, rfl, other⟩ := begins inside through
  exact ⟨lock, second, rest ++ [.release lock], rfl, holds, other⟩

/-- The branches that lead to something, each with the code that it goes on with. -/
theorem leads_entryPoints {branch : LeafBranch} {kind : List LeafStep → Prop}
    (timedOut : branch = .timedOut
      → ∀ slot, ∀ path ∈ (locked (.pending slot) leafOnly : LeafCode).paths, kind path)
    (createFailed : ∀ registered, branch = .createFailed registered
      → ∀ call, ∀ path ∈ (locked (.ingress call) (tryFinishWhen registered call) : LeafCode).paths,
        kind path)
    (stopsStreams : branch = .stopsStreams
      → ∀ more, ∀ path ∈ (underLeaf ((any fun call => locked (.ingress call) skip).seq more)).paths,
        kind path)
    (stopsPending : branch = .stopsPending
      → ∀ more, ∀ path ∈ (underLeaf ((any fun slot => locked (.pending slot) skip).seq more)).paths,
        kind path)
    : ∀ code ∈ entryPoints, code.Leads branch kind := by
  simp only [leafOnly, tryFinishWhen, underLeaf] at timedOut createFailed stopsStreams stopsPending
  simp [entryPoints, Leads]
  exact ⟨fun slot same => timedOut same.symm slot,
    fun call => ⟨fun same => createFailed false same.symm call,
      fun same => createFailed true same.symm call⟩,
    fun same => stopsStreams same.symm _, fun same => stopsPending same.symm _⟩

theorem leads_timedOut : ∀ code ∈ entryPoints, code.Leads .timedOut (Nests .pending .leaf) :=
  leads_entryPoints (fun _ _ => nests_locked rfl (begins_locked rfl)) nofun nofun nofun

theorem leads_stopsStreams : ∀ code ∈ entryPoints, code.Leads .stopsStreams (Nests .leaf .ingress) :=
  leads_entryPoints nofun nofun
    (fun _ _ => nests_locked rfl (Begins.seq (begins_any fun _ => begins_locked rfl))) nofun

theorem leads_stopsPending : ∀ code ∈ entryPoints, code.Leads .stopsPending (Nests .leaf .pending) :=
  leads_entryPoints nofun nofun nofun
    (fun _ _ => nests_locked rfl (Begins.seq (begins_any fun _ => begins_locked rfl)))

theorem leads_createFailed
    : ∀ code ∈ entryPoints, code.Leads (.createFailed false) (Nests .ingress .leaf) := by
  refine leads_entryPoints nofun (fun registered same call => ?_) nofun nofun
  cases same
  exact nests_locked rfl (Begins.seq (begins_locked rfl))

theorem mem_locked_skip {lock : LeafMutex} {path : List LeafStep}
    : path ∈ (locked lock skip : LeafCode).paths ↔ path = [.acquire lock, .release lock] := by
  refine mem_section.trans ⟨?_, ?_⟩
  · rintro ⟨inside, through, rfl⟩
    obtain rfl := (Language.mem_one inside).mp through
    rfl
  · rintro rfl
    exact ⟨[], (Language.mem_one []).mpr rfl, rfl⟩

/-- The guard of the call is in scope while the call is to be finished. -/
theorem leads_createFailed_registered
    : ∀ code ∈ entryPoints, code.Leads (.createFailed true) ComesBack := by
  refine leads_entryPoints nofun (fun registered same call => ?_) nofun nofun
  cases same
  intro path member
  obtain ⟨inside, through, rfl⟩ := mem_section.mp member
  obtain ⟨front, finds, rest, again, rfl⟩ := Language.mem_mul.mp through
  rw [mem_locked_skip.mp finds, mem_locked_skip.mp again]
  exact ⟨call, _, rfl⟩

-- From paths to the order

variable {taken : Set (List LeafStep)} {branch : LeafBranch}

/-- A branch that leads to a nesting makes its paths block so. -/
theorem Shows.blocks {outer inner : MutexKind}
    (shown : Shows taken branch) (executed : taken ⊆ leafPaths)
    (leads : ∀ code ∈ entryPoints, code.Leads branch (Nests outer inner))
    : Blocks taken outer inner := by
  obtain ⟨path, member, takes⟩ := shown
  obtain ⟨code, entry, through⟩ := executed member
  obtain ⟨front, segment, back, rfl, first, second, rest, rfl, outside, inside⟩ :=
    (leads code entry).segment through takes
  refine ⟨_, member, front ++ [.acquire first], second, rest ++ back, by simp, inside, first, ?_, outside⟩
  rw [heldAfter_append]
  exact List.mem_cons_self

/-- A call to a backend that cannot be created for a call in `m_streams` has its path take the mutex of
the call twice.
-/
theorem Shows.not_ordered (shown : Shows taken (.createFailed true)) (executed : taken ⊆ leafPaths)
    : ¬Ordered taken := by
  rintro ⟨once, -⟩
  obtain ⟨path, member, takes⟩ := shown
  obtain ⟨code, entry, through⟩ := executed member
  obtain ⟨front, segment, back, rfl, call, rest, rfl⟩ :=
    (leads_createFailed_registered code entry).segment through takes
  refine once _ member (front ++ [.acquire (.ingress call), .acquire .leaf, .release .leaf])
    (.acquire (.ingress call)) (rest ++ back) (.ingress call) (by simp) rfl ?_
  rw [heldAfter_append]
  simp [LockStep.effect, LockEffect.apply]

open Classical in
/-- A rank by which mutexes are taken, unless the branches taken close a circle. -/
noncomputable def rank (shows : LeafBranch → Prop) : MutexKind → Nat
  | .leaf => 1
  | .backend => 2
  | .ingress => if shows (.createFailed false) then 0 else 2
  | .pending => if shows .timedOut then 0 else 2

theorem Edge.rank_lt {shows : LeafBranch → Prop} {outer inner : MutexKind}
    (edge : Edge shows outer inner) (calls : ¬(shows (.createFailed false) ∧ shows .stopsStreams))
    (slots : ¬(shows .timedOut ∧ shows .stopsPending))
    : rank shows outer < rank shows inner := by
  cases outer <;> cases inner <;> simp only [Edge] at edge
  · have created : ¬shows (.createFailed false) := fun failed => calls ⟨failed, edge⟩
    simp [rank, created]
  · simp [rank]
  · have answered : ¬shows .timedOut := fun late => slots ⟨late, edge⟩
    simp [rank, answered]
  · simp [rank, edge]
  · simp [rank, edge]

/-- A message of the mesh is handed to the stream of a backend under `m_mutex`. -/
def handsOver : List LeafStep :=
  [.acquire .leaf, .acquire (.backend 0), .release (.backend 0), .release .leaf]

/-- `stop` finds the call of a client and locks it under `m_mutex`. -/
def stopsCall : List LeafStep :=
  [.branch .stopsStreams, .acquire .leaf, .acquire (.ingress 0), .release (.ingress 0), .release .leaf,
    .acquire .leaf, .release .leaf, .acquire .leaf, .release .leaf]

theorem mem_leafOnly : [.acquire .leaf, .release .leaf] ∈ leafOnly.paths := mem_locked_skip.mpr rfl

theorem handsOver_mem : handsOver ∈ streamWorkerLoop.paths := by
  have inside : [.acquire (.backend 0), .release (.backend 0)] ∈ (any fun stream =>
      maybe (either (clientHalfClose stream) (clientMessage stream))).paths :=
    Set.mem_iUnion.mpr ⟨0, .inr (.inr (mem_locked_skip.mpr rfl))⟩
  have frame : handsOver ∈ processStreamFrame.paths := .inl (.inl (mem_section.mpr ⟨_, inside, rfl⟩))
  refine Language.mem_kstar.mpr ⟨[handsOver], rfl, fun path member => ?_⟩
  rw [List.mem_singleton.mp member]
  exact .inr (.inl frame)

theorem stopsCall_mem : stopsCall ∈ stop.paths := by
  have first : [.acquire (.ingress 0), .release (.ingress 0)] ∈ (any fun call =>
      locked (.ingress call) skip : LeafCode).paths :=
    Set.mem_iUnion.mpr ⟨0, mem_locked_skip.mpr rfl⟩
  have calls : [.acquire (.ingress 0), .release (.ingress 0)] ∈
      ((any fun call => locked (.ingress call) skip : LeafCode).seq
        (many (any fun call => locked (.ingress call) skip))).paths :=
    ⟨_, first, [], Language.nil_mem_kstar _, rfl⟩
  refine .inr ⟨_, .inr (mem_tagged.mpr ⟨_, mem_section.mpr ⟨_, calls, rfl⟩, rfl⟩), _,
    ⟨[], Language.nil_mem_kstar _, _, ⟨_, mem_leafOnly, _, .inl mem_leafOnly, rfl⟩, rfl⟩, rfl⟩

end Creek.Leaf.LeafCode
