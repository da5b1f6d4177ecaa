import Creek.Leaf.LeafLocks
import Creek.Mesh.NodeLocks
import Creek.Proofs.Tight.LockRule

/-! Callbacks and mutexes over whole runs. Every path of a transport fires its callbacks on a thread
that holds no mutex, except that `check_offline` announces a dead link under the mutex of the table.
-/

namespace Creek.Tight.Scene

open Library

variable {numerics : Numerics} {scene after : Scene}

-- Runs

/-- The lock discipline at an instant: no thread is about to run a callback while it holds the mutex
of the table, to take a mutex that it holds, or to take the runtime's mutex under that of the table.
-/
structure Disciplined (scene : Scene) : Prop where
  released : ∀ thread ∈ scene.threads, ∀ invocation rest,
    thread.code = .invoke invocation :: rest → .peers ∉ thread.held
  once : ∀ thread ∈ scene.threads, ∀ mutex rest,
    thread.code = .acquire mutex :: rest → mutex ∉ thread.held
  ordered : ∀ thread ∈ scene.threads, ∀ rest,
    thread.code = .acquire .runtime :: rest → .peers ∉ thread.held

theorem Safe.orderly (safe : scene.Safe) : scene.Disciplined := by
  have rule {thread : Thread} (member : thread ∈ scene.threads) {instr : Instr} {rest : List Instr}
      (code : thread.code = instr :: rest)
      : instr.rule thread.held := by
    have keeps := (safe thread member).keeps
    rw [code] at keeps
    exact keeps.1
  constructor
  · intro thread member invocation rest code
    have idle : thread.held = [] := rule member code
    rw [idle]
    exact List.not_mem_nil
  · intro thread member mutex rest code holds
    exact absurd (rule member code mutex holds) (Nat.lt_irrefl _)
  · intro thread member rest code holds
    exact absurd (rule member code .peers holds) (Nat.not_lt_zero _)

/-- The mutex a thread is about to take. -/
def wanted (thread : Thread) : Option Mutex :=
  match thread.code with
  | .acquire mutex :: _ => some mutex
  | _ => none

/-- As long as a thread has code ahead, some thread can go on: no threads wait for each other. -/
theorem Safe.progress (safe : scene.Safe) {thread : Thread} (member : thread ∈ scene.threads)
    (busy : thread.code ≠ [])
    : ∃ last ∈ scene.threads, last.code ≠ []
      ∧ ∀ mutex, wanted last = some mutex → scene.free mutex = true := by
  have rising : ∀ other ∈ scene.threads, ∀ mutex, wanted other = some mutex
      → ∀ held ∈ other.held, held.rank < mutex.rank := by
    intro other listed mutex want
    have keeps := (safe other listed).keeps
    rw [wanted] at want
    split at want
    · rename_i taken rest code
      obtain rfl := Option.some.inj want
      rw [code] at keeps
      exact keeps.1
    · cases want
  have bounded (mutex : Mutex) : mutex.rank ≤ 3 := by cases mutex <;> decide
  obtain ⟨last, listed, begun, free⟩ := exists_unblocked rising bounded member
  refine ⟨last, listed, ?_, fun mutex want => ?_⟩
  · rcases begun with rfl | holds
    · exact busy
    · intro done
      have returns := (safe last listed).returns
      rw [done, heldAfter_nil] at returns
      exact holds returns
  · simpa [Scene.free] using free mutex want

theorem initial_safe (identity : Identity) (threads : Nat) : (initial identity threads).Safe := by
  intro thread member
  obtain rfl := (List.mem_replicate.mp member).2
  exact ⟨trivial, rfl⟩

/-- The rule is kept over whole runs, by induction on their steps. -/
theorem run_safe {owner : Owner} {identity : Identity} {threads : Nat}
    {history : List (Stage Scene Move Unit)}
    (run : Run (step numerics)
      (fun _ before move => before.Allows owner move ∧ before.SparesLinks move)
      (initial identity threads) history scene)
    : scene.Safe :=
  run.invariant (fun _ state => state.Safe) (initial_safe identity threads)
    fun _ _ _ _ _ _ safe permitted taken => safe.step permitted.2 taken

/-- The discipline is kept, whatever arrives and whatever the owner does, as long as no link is found
dead while a peer callback is set.
-/
theorem disciplined_of_spared {owner : Owner} {identity : Identity} {threads : Nat}
    {history : List (Stage Scene Move Unit)}
    (run : Run (step numerics)
      (fun _ before move => before.Allows owner move ∧ before.SparesLinks move)
      (initial identity threads) history scene)
    : scene.Disciplined :=
  (run_safe run).orderly

/-- No thread of such a run waits for ever: as long as one has code ahead, some thread can go on. -/
theorem never_stuck {owner : Owner} {identity : Identity} {threads : Nat}
    {history : List (Stage Scene Move Unit)}
    (run : Run (step numerics)
      (fun _ before move => before.Allows owner move ∧ before.SparesLinks move)
      (initial identity threads) history scene)
    {thread : Thread} (member : thread ∈ scene.threads) (busy : thread.code ≠ [])
    : ∃ last ∈ scene.threads, last.code ≠ []
      ∧ ∀ mutex, wanted last = some mutex → scene.free mutex = true :=
  (run_safe run).progress member busy

-- Runs of one thread

/-- The instructions that neither step the transport nor run a callback. -/
def plain : Instr → Bool
  | .visit _ => false
  | .walk _ _ => false
  | .invoke _ => false
  | _ => true

/-- A thread that is alone goes on, up to a step of the transport or a callback. -/
def coast : Nat → Scene → Scene
  | 0, scene => scene
  | fuel + 1, scene =>
      match scene.threads with
      | [thread] =>
          match thread.code with
          | [] => scene
          | instr :: rest =>
              if plain instr then
                match scene.carryOut default 0 { thread with code := rest } [] instr with
                | .ok after => coast fuel after
                | .error _ => scene
              else
                scene
      | _ => scene

/-- A scene that some run with one thread reaches. -/
def Reached (identity : Identity) (allowed : Scene → Move → Prop) (scene : Scene) : Prop :=
  ∃ history, Run (step default) (fun _ before move => allowed before move) (initial identity 1)
    history scene

/-- What permits the plain instructions of a thread that is alone. -/
def PermitsPlain (allowed : Scene → Move → Prop) : Prop :=
  ∀ (scene : Scene) (thread : Thread) (instr : Instr) (rest : List Instr),
    scene.threads = [thread] → thread.code = instr :: rest → plain instr = true
      → allowed scene (.advance 0 [])

variable {identity : Identity} {allowed : Scene → Move → Prop} {owner : Owner} {thread : Thread}
  {instr : Instr} {rest : List Instr}

/-- A thread may go on unless it is about to run a callback. -/
theorem allows_advance (alone : scene.threads = [thread]) (code : thread.code = instr :: rest)
    (notInvoke : ∀ invocation, instr ≠ .invoke invocation)
    : scene.Allows owner (.advance 0 []) := by
  intro other invocation later here invoked
  rw [alone, List.getElem?_cons_zero] at here
  obtain rfl := Option.some.inj here
  rw [code] at invoked
  exact absurd (List.head_eq_of_cons_eq invoked) (notInvoke invocation)

theorem permitsPlain_allows (owner : Owner)
    : PermitsPlain fun before move => before.Allows owner move := by
  intro scene thread instr rest alone code plain_
  refine allows_advance alone code ?_
  rintro invocation rfl
  cases plain_

theorem permitsPlain_spares (owner : Owner)
    : PermitsPlain fun before move => before.Allows owner move ∧ before.SparesLinks move := by
  intro scene thread instr rest alone code plain_
  refine ⟨permitsPlain_allows owner scene thread instr rest alone code plain_, ?_⟩
  intro other moment key later peer here visited _ _
  rw [alone, List.getElem?_cons_zero] at here
  obtain rfl := Option.some.inj here
  rw [code] at visited
  obtain rfl := List.head_eq_of_cons_eq visited
  cases plain_

theorem Reached.advance (reached : Reached identity allowed scene) (path : List OwnerStep)
    (alone : scene.threads = [thread]) (code : thread.code = instr :: rest)
    (permitted : allowed scene (.advance 0 path))
    (ran : scene.carryOut default 0 { thread with code := rest } path instr = .ok after)
    : Reached identity allowed after := by
  obtain ⟨history, run⟩ := reached
  have stepped : step default scene (.advance 0 path) = .ok (after, []) := by
    simp only [step, alone, List.getElem?_cons_zero, code, ran]
  exact ⟨_, run.next permitted stepped⟩

theorem Reached.begin (reached : Reached identity allowed scene) {task : Task}
    (alone : scene.threads = [thread]) (code : thread.code = [])
    (permitted : allowed scene (.begin 0 task))
    : Reached identity allowed
        (scene.resume 0 { thread with code := task.code scene.running }) := by
  obtain ⟨history, run⟩ := reached
  have stepped : step default scene (.begin 0 task)
      = .ok (scene.resume 0 { thread with code := task.code scene.running }, []) := by
    simp only [step, alone, List.getElem?_cons_zero, code]
  exact ⟨_, run.next permitted stepped⟩

theorem Reached.coast (reached : Reached identity allowed scene) (permits : PermitsPlain allowed)
    (fuel : Nat)
    : Reached identity allowed (scene.coast fuel) := by
  induction fuel generalizing scene with
  | zero => exact reached
  | succ fuel ih =>
      rw [Scene.coast]
      split
      · rename_i thread alone
        split
        · exact reached
        · rename_i instr rest code
          split
          · rename_i plain_
            split
            · rename_i after ran
              exact ih (reached.advance [] alone code
                (permits scene thread instr rest alone code plain_) ran)
            · exact reached
          · exact reached
      · exact reached

/-- A node that writes nothing it is told. -/
def nodeOwner : Owner := Mesh.NodeRuntime.owner { message := fun _ => [], directory := fun _ => [] }

/-- The start of a node with one peer. -/
def nodeStart : List OwnerStep :=
  Mesh.NodeRuntime.startPath ⟨0, 1⟩ [([0x4E], { addr := 1, port := 1 })]

/-- A node connects under its own mutex: it takes the mutex of the table second. -/
theorem node_start_disciplined
    : ∃ history scene,
      Run (step default)
          (fun _ before move => before.Allows nodeOwner move ∧ before.SparesLinks move)
          (initial {} 1) history scene
      ∧ (∃ thread ∈ scene.threads, .runtime ∈ thread.held
          ∧ thread.code.head? = some (.acquire .peers))
      ∧ scene.Disciplined := by
  have begun : Reached {} (fun before move => before.Allows nodeOwner move ∧ before.SparesLinks move)
      (initial {} 1) :=
    ⟨[], .start⟩
  have permitted : (initial {} 1).Allows nodeOwner (.begin 0 (.own nodeStart)) := .inl ⟨_, _, rfl⟩
  have started := begun.begin rfl rfl ⟨permitted, trivial⟩
  obtain ⟨history, run⟩ := started.coast (permitsPlain_spares nodeOwner) 12
  exact ⟨history, _, run, ⟨_, List.mem_singleton_self _, List.mem_singleton_self _, rfl⟩,
    disciplined_of_spared run⟩

-- A leaf whose parent falls silent

/-- A leaf with its intervals, as it configures its transport. -/
def leafIdentity : Identity where
  config := {
    id := [0x4C]
    role := .leaf
    mtu := 1200
    maxMessageBytes := 1048576
    heartbeat := 100000000
    reportInterval := 100000000
    deadTimeout := 30000000000
    retransmitTimeout := 100000000
  }

def parentId : Bytes := [0x41]

/-- The leaf, with a second parent. -/
def leafOwner : Owner := Leaf.Parents.owner [parentId, [0x42]]

def parentAddr : AddrKey := { addr := 1, port := 1 }

/-- The acknowledgement of the leaf's handshake. -/
def parentAck : PacketHeader where
  magic := kMagic
  version := kVersion
  type := PacketType.handshakeAck.code

/-- The transport of the leaf once it has connected to its parent. -/
def connected : Transport :=
  match Transport.step default (Transport.initial leafIdentity) ⟨⟨0, 1⟩, .connect parentId parentAddr⟩ with
  | .ok (transport, _) => transport
  | .error _ => Transport.initial leafIdentity

/-- The moment of the acknowledgement. -/
def ackMoment : Moment := ⟨1000000, 2⟩

/-- What the leaf is told when its parent answers. -/
def parentOnline : PeerEvent where
  id := parentId
  role := .node
  state := .online
  clientId := 0

/-- Whether a step brings the parent online, and announces that alone. -/
def bringsOnline (result : Except Fault (Transport × List Effect)) : Bool :=
  match result with
  | .error _ => false
  | .ok (after, outputs) =>
      after.peers.keys = [parentId]
      && outputs.filterMap Effect.invocation? = [.peer parentOnline]
      && after.peers[parentId]?.any fun peer =>
        peer.state = .online && peer.lastRecv = ackMoment.now && peer.id = parentId

theorem connected_brings_online
    : bringsOnline (connected.visit parentId
        (Link.handlePacket default leafIdentity ackMoment
          { parentAck with checksum := PacketCodec.checksumOf parentAck [] } [])) = true := by
  decide +kernel

theorem connected_known : connected.known parentAddr = some parentId := by
  decide +kernel

theorem connect_quiet
    : ∃ outputs, Transport.step default (Transport.initial leafIdentity)
        ⟨⟨0, 1⟩, .connect parentId parentAddr⟩ = .ok (connected, outputs)
      ∧ outputs.filterMap Effect.invocation? = [] := by
  have stepped : (Transport.step default (Transport.initial leafIdentity)
      ⟨⟨0, 1⟩, .connect parentId parentAddr⟩).toBool = true := by decide +kernel
  rcases taken : Transport.step default (Transport.initial leafIdentity)
      ⟨⟨0, 1⟩, .connect parentId parentAddr⟩ with fault | ⟨after, outputs⟩
  · rw [taken] at stepped
    cases stepped
  · refine ⟨outputs, ?_, List.eq_nil_iff_forall_not_mem.mpr fun invocation member => ?_⟩
    · rw [connected, taken]
    · obtain ⟨key, peer, same, -⟩ :=
        Transport.step_invocations taken rfl (fun key same => by cases same) invocation member
      cases same

-- Up to the callback of the parent

/-- The leaf's transport, running with both callbacks set, and its one thread. -/
def solo (transport : Transport) (held : List Mutex) (code : List Instr) : Scene where
  transport := transport
  running := true
  installed := Function.update (Function.update (fun _ => false) .message true) .peer true
  threads := [{ held := held, code := code }]

variable {transport next : Transport} {held : List Mutex} {occurrence : Occurrence}
  {outputs : List Effect} {invocations : List Invocation}

/-- Steps whose callbacks are fired at once, and that leave nothing else to do. -/
def FiresAtOnce (occurrence : Occurrence) : Prop :=
  ∀ (scene : Scene) (outputs : List Effect) (thread : Thread),
    scene.aftermath occurrence outputs thread =
      {
        thread with
        code := scene.fireAll (outputs.filterMap Effect.invocation?) ++ thread.code
      }

/-- A scene that the leaf reaches. -/
def LeafReaches : Scene → Prop :=
  Reached leafIdentity fun before move => before.Allows leafOwner move

/-- A step of the transport, with the callbacks it leaves to be fired. -/
theorem LeafReaches.visit (reached : LeafReaches (solo transport held (.visit occurrence :: rest)))
    (prompt : FiresAtOnce occurrence)
    (taken : Transport.step default transport occurrence = .ok (next, outputs))
    (fired : outputs.filterMap Effect.invocation? = invocations)
    : LeafReaches (solo next held ((solo next held []).fireAll invocations ++ rest)) := by
  refine Reached.advance reached [] rfl rfl (allows_advance rfl rfl fun _ same => by cases same) ?_
  simp only [carryOut, solo, taken, prompt _ _ _, fired]
  rfl

/-- The leaf goes on up to a step of the transport or a callback. -/
theorem LeafReaches.coast (reached : LeafReaches scene) (fuel : Nat)
    : LeafReaches (scene.coast fuel) :=
  Reached.coast reached (permitsPlain_allows leafOwner) fuel

theorem reached_connected : LeafReaches (solo connected [] []) := by
  have begun : LeafReaches (initial leafIdentity 1) := ⟨[], .start⟩
  have permitted : (initial leafIdentity 1).Allows leafOwner
      (.begin 0 (.own (Leaf.Parents.startPath ⟨0, 1⟩ [(parentId, parentAddr)]))) :=
    .inl ⟨_, _, rfl⟩
  have started : LeafReaches _ := Reached.begin begun rfl rfl permitted
  have connecting : LeafReaches (solo (Transport.initial leafIdentity) [.peers]
      [.visit ⟨⟨0, 1⟩, .connect parentId parentAddr⟩, .release .peers]) :=
    started.coast 20
  obtain ⟨outputs, taken, quiet⟩ := connect_quiet
  have done : LeafReaches (solo connected [.peers] [.release .peers]) :=
    connecting.visit (fun _ _ _ => rfl) taken quiet
  exact done.coast 1

/-- The record of the parent since its answer. -/
structure Answered (peer : Peer) : Prop where
  id : peer.id = parentId
  state : peer.state = .online
  lastRecv : peer.lastRecv = ackMoment.now

/-- The transport of a leaf whose parent has answered. -/
structure Awaits (transport : Transport) : Prop where
  identity : transport.identity = leafIdentity
  keys : transport.peers.keys = [parentId]
  record : ∃ peer, transport.peers[parentId]? = some peer ∧ Answered peer

theorem connected_identity : connected.identity = leafIdentity := by
  obtain ⟨outputs, taken, -⟩ := connect_quiet
  have begun : (Transport.initial leafIdentity).Orderly leafIdentity := by
    refine ⟨rfl, fun key peer stored => ?_, fun entry member => absurd member List.not_mem_nil⟩
    simp [Transport.initial] at stored
  exact (Transport.step_accounts begun (by decide) taken).orderly.same

theorem connected_found
    : connected.findOrCreatePeerByAddr ackMoment parentAddr 0 = (connected, parentId) := by
  simp only [Transport.findOrCreatePeerByAddr, connected_known]

theorem bringsOnline_ok {result : Except Fault (Transport × List Effect)}
    (up : bringsOnline result = true)
    : ∃ next outputs, result = .ok (next, outputs)
      ∧ outputs.filterMap Effect.invocation? = [.peer parentOnline]
      ∧ next.peers.keys = [parentId]
      ∧ ∃ peer, next.peers[parentId]? = some peer ∧ Answered peer := by
  rcases result with fault | ⟨next, outputs⟩
  · cases up
  · simp only [bringsOnline, Bool.and_eq_true, decide_eq_true_eq] at up
    obtain ⟨peer, stored, holds⟩ := (Option.any_eq_true _ _).mp up.2
    simp only [Bool.and_eq_true, decide_eq_true_eq] at holds
    exact ⟨next, outputs, rfl, up.1.2, up.1.1, peer, stored, holds.2, holds.1.1, holds.1.2⟩

theorem step_ack
    : ∃ next outputs, Transport.step default connected
        ⟨ackMoment, .datagram parentAddr (PacketCodec.encode parentAck []) 0⟩ = .ok (next, outputs)
      ∧ outputs.filterMap Effect.invocation? = [.peer parentOnline]
      ∧ Awaits next := by
  have handled := @Transport.step_datagram default connected parentAck [] parentAddr 0 ackMoment
    rfl rfl (by decide) (by decide)
  rw [connected_found, connected_identity] at handled
  obtain ⟨next, outputs, taken, fired, keys, record⟩ := bringsOnline_ok connected_brings_online
  rw [taken] at handled
  have identity := (Transport.visit_identity taken).trans connected_identity
  exact ⟨next, outputs, handled, fired, identity, keys, record⟩

theorem reached_online
    : ∃ transport, Awaits transport
      ∧ LeafReaches (solo transport [] [.invoke (.peer parentOnline)]) := by
  have permitted : (solo connected [] []).Allows leafOwner
      (.begin 0 (.receive ackMoment parentAddr (PacketCodec.encode parentAck []) 0)) :=
    trivial
  have received := Reached.begin reached_connected rfl rfl permitted
  have decoded : PacketCodec.decode ((PacketCodec.encode parentAck []).take 2048)
      = some ({ parentAck with checksum := PacketCodec.checksumOf parentAck [] }, []) :=
    Transport.decode_take_encode rfl rfl (by decide) (by decide)
  have code : Task.code true (.receive ackMoment parentAddr (PacketCodec.encode parentAck []) 0)
      = Instr.locked .peers [.find ackMoment parentAddr 0]
        ++ [.visit ⟨ackMoment, .datagram parentAddr (PacketCodec.encode parentAck []) 0⟩] := by
    simp only [Task.code, decoded]
    rfl
  have opened : LeafReaches (solo connected []
      (Instr.locked .peers [.find ackMoment parentAddr 0]
      ++ [.visit ⟨ackMoment, .datagram parentAddr (PacketCodec.encode parentAck []) 0⟩])) := by
    rw [← code]
    exact received
  have found : LeafReaches (solo (connected.findOrCreatePeerByAddr ackMoment parentAddr 0).1 []
      [.visit ⟨ackMoment, .datagram parentAddr (PacketCodec.encode parentAck []) 0⟩]) :=
    opened.coast 3
  rw [connected_found] at found
  obtain ⟨next, outputs, taken, fired, awaits⟩ := step_ack
  have told := found.visit (fun _ _ _ => rfl) taken
    fired
  exact ⟨next, awaits, told.coast 2⟩

-- The passes of the reactor

theorem keys_insert_only {peers : Std.TreeMap Bytes Peer} {key : Bytes} (only : peers.keys = [key])
    (peer : Peer)
    : (peers.insert key peer).keys = [key] := by
  have members (other : Bytes) : other ∈ (peers.insert key peer).keys ↔ other ∈ [key] := by
    have before : other ∈ peers ↔ other = key := by
      rw [← Std.TreeMap.mem_keys, only, List.mem_singleton]
    rw [Std.TreeMap.mem_keys, Std.TreeMap.mem_insert, before, Std.compare_eq_iff_eq,
      List.mem_singleton, eq_comm, or_self]
  exact List.perm_singleton.mp
    ((List.perm_ext_iff_of_nodup Std.TreeMap.nodup_keys (List.nodup_singleton key)).mpr members)

theorem Awaits.visit {transport : Transport} (awaits : Awaits transport) {body : Link → Link}
    (quiet : ∀ link, (body link).invocations = link.invocations)
    (keeps : ∀ link : Link, Answered link.peer → Answered (body link).peer)
    : ∃ next outputs, transport.visit parentId (fun link => .ok (body link)) = .ok (next, outputs)
      ∧ outputs.filterMap Effect.invocation? = []
      ∧ Awaits next := by
  obtain ⟨identity, keys, peer, stored, answered⟩ := awaits
  have taken := Transport.visit_stored stored body
  refine ⟨_, _, taken, Transport.visit_quiet taken quiet, identity, keys_insert_only keys _, ?_⟩
  exact ⟨_, Std.TreeMap.getElem?_insert_self, keeps _ answered⟩

/-- A pass takes the mutex of the table and visits the parent. -/
theorem LeafReaches.walk (awaits : Awaits transport) {pass : Pass}
    {moment : Moment}
    (reached : LeafReaches (solo transport [] (Instr.locked .peers [.walk pass moment] ++ rest)))
    : LeafReaches (solo transport [.peers]
        (.visit ⟨moment, pass.event parentId⟩ :: .release .peers :: rest)) := by
  have entered : LeafReaches (solo transport [.peers]
      (.walk pass moment :: .release .peers :: rest)) :=
    reached.coast 1
  refine entered.advance [] rfl rfl ?_ ?_
  · exact allows_advance rfl rfl fun _ same => by cases same
  · simp only [carryOut, solo, awaits.keys]
    rfl

/-- A pass that neither finds the parent dead nor hears of it. -/
theorem LeafReaches.pass (awaits : Awaits transport) {pass : Pass}
    {moment : Moment} {body : Link → Link}
    (reached : LeafReaches (solo transport [] (Instr.locked .peers [.walk pass moment] ++ rest)))
    (steps : Transport.step default transport ⟨moment, pass.event parentId⟩
      = transport.visit parentId fun link => .ok (body link))
    (prompt : FiresAtOnce ⟨moment, pass.event parentId⟩)
    (quiet : ∀ link, (body link).invocations = link.invocations)
    (keeps : ∀ link : Link, Answered link.peer → Answered (body link).peer)
    : ∃ next, Awaits next ∧ LeafReaches (solo next [] rest) := by
  obtain ⟨next, outputs, taken, fired, later⟩ := awaits.visit quiet keeps
  rw [← steps] at taken
  have visited := (reached.walk awaits).visit prompt taken fired
  exact ⟨next, later, visited.coast 1⟩

theorem sendHandshakes_answered {identity : Identity} {moment : Moment} {link : Link}
    (answered : Answered link.peer)
    : Answered (link.sendHandshakes identity moment).peer := by
  rw [Link.sendHandshakes, if_pos (by rw [answered.state]; decide)]
  exact answered

theorem sendHeartbeats_answered {identity : Identity} {moment : Moment} {link : Link}
    (answered : Answered link.peer)
    : Answered (link.sendHeartbeats identity moment).peer := by
  unfold Link.sendHeartbeats
  split
  · exact answered
  · split
    · exact answered
    · simp only [Link.sendControl_peer]
      exact ⟨answered.id, answered.state, answered.lastRecv⟩

theorem sendReports_answered {numerics : Numerics} {identity : Identity} {moment : Moment}
    {link : Link} (answered : Answered link.peer)
    : Answered (link.sendReports numerics identity moment).peer := by
  unfold Link.sendReports
  split
  · exact answered
  · split
    · exact answered
    · simp only [Link.sendRaw_peer]
      exact ⟨answered.id, answered.state, answered.lastRecv⟩

-- The end of the parent

/-- An instant 31 seconds later. -/
def late : Moment := ⟨31000000000, 31000⟩

/-- The tick of the reactor at that instant. -/
def lateTick : Tick where
  handshakes := late
  heartbeats := late
  reports := late
  offline := late
  commands := late
  queue := late
  messages := []

theorem step_offline {transport : Transport} (awaits : Awaits transport)
    : ∃ next outputs event,
      Transport.step default transport ⟨late, .checkOffline parentId⟩ = .ok (next, outputs)
      ∧ outputs.filterMap Effect.invocation? = [.peer event]
      ∧ event.id = parentId ∧ event.state = .closed := by
  obtain ⟨identity, -, peer, stored, answered⟩ := awaits
  have dead : Link.Dead transport.identity late peer := by
    rw [identity]
    refine ⟨?_, ?_⟩
    · rw [Link.linked, answered.state]
      decide
    · rw [answered.lastRecv]
      decide
  obtain ⟨event, id, state, announced⟩ := @Link.checkOffline_dead transport.identity late
    { key := parentId, peer := peer, rttUs := transport.rttUs } dead
  refine ⟨_, _, event, Transport.visit_stored stored _, announced, id.trans answered.id, state⟩

theorem allows_online {transport : Transport} {held : List Mutex}
    : (solo transport held (.invoke (.peer parentOnline) :: rest)).Allows leafOwner (.advance 0
        (Leaf.Parents.onPeerEvent parentOnline (fun _ => false) []
          { ids := [parentId, [0x42]] }).2) := by
  intro thread invocation later here code
  obtain rfl := Option.some.inj here
  obtain rfl := Instr.invoke.inj (List.head_eq_of_cons_eq code)
  exact ⟨[], fun _ => false, [], rfl⟩

theorem reached_waiting
    : ∃ transport, Awaits transport
      ∧ LeafReaches (solo transport [] []) := by
  obtain ⟨transport, awaits, told⟩ := reached_online
  have noted : LeafReaches
      (solo transport [] ([.locked [], .locked [], .call (.send parentId []),
        .call (.send [0x42] [])].flatMap OwnerStep.code)) :=
    told.advance _ rfl rfl allows_online rfl
  exact ⟨transport, awaits, noted.coast 20⟩

/-- What the leaf does when its active parent is given up: it looks for the other one. -/
theorem allows_closed {transport : Transport} {held : List Mutex} {event : PeerEvent}
    (id : event.id = parentId) (state : event.state = .closed)
    : (solo transport held (.invoke (.peer event) :: rest)).Allows leafOwner
        (.advance 0 [.locked [.peers]]) := by
  intro thread invocation later here code
  obtain rfl := Option.some.inj here
  obtain rfl := Instr.invoke.inj (List.head_eq_of_cons_eq code)
  refine ⟨parentId, fun _ => false, [], ?_⟩
  simp only [Leaf.Parents.onPeerEvent, id, state]
  decide

/-- In the pass that gives up its parent the leaf waits for the mutex that its own thread holds. -/
theorem silent_parent_hangs_leaf
    : ∃ history scene,
      Run (step default) (fun _ before move => before.Allows leafOwner move)
        (initial leafIdentity 1) history scene
      ∧ (∃ thread ∈ scene.threads, .peers ∈ thread.held
          ∧ thread.code.head? = some (.acquire .peers))
      ∧ ¬scene.Disciplined := by
  obtain ⟨transport, awaits, waiting⟩ := reached_waiting
  have permitted : (solo transport [] []).Allows leafOwner (.begin 0 (.tick lateTick)) := trivial
  have ticking : LeafReaches (solo transport []
      (Instr.locked .peers [.walk .sendHandshakes late]
      ++ (Instr.locked .peers [.walk .sendHeartbeats late]
      ++ (Instr.locked .peers [.walk .sendReports late]
      ++ (Instr.locked .peers [.walk .checkOffline late]
      ++ (Instr.locked .peers [.walk .flushCommands late]
      ++ .deliver :: Instr.locked .send [])))))) :=
    Reached.begin waiting rfl rfl permitted
  obtain ⟨transport, awaits, handshakes⟩ := ticking.pass awaits rfl
    (fun _ _ _ => rfl) (fun link => Link.sendHandshakes_invocations)
    fun link => sendHandshakes_answered
  obtain ⟨transport, awaits, heartbeats⟩ := handshakes.pass awaits rfl
    (fun _ _ _ => rfl) (fun link => Link.sendHeartbeats_invocations)
    fun link => sendHeartbeats_answered
  obtain ⟨transport, awaits, reports⟩ := heartbeats.pass awaits rfl
    (fun _ _ _ => rfl) (fun link => Link.sendReports_invocations) fun link => sendReports_answered
  obtain ⟨next, outputs, event, taken, fired, id, state⟩ := step_offline awaits
  have closing := (reports.walk awaits).visit (fun _ _ _ => rfl) taken fired
  obtain ⟨rest, told⟩ : ∃ rest, LeafReaches (solo next [.peers] (.invoke (.peer event) :: rest)) :=
    ⟨_, closing.coast 2⟩
  have searching : LeafReaches _ :=
    told.advance [.locked [.peers]] rfl rfl (allows_closed id state) rfl
  obtain ⟨rest, history, run⟩ : ∃ rest, LeafReaches
      (solo next [.runtime, .peers] (.acquire .peers :: rest)) :=
    ⟨_, searching.coast 2⟩
  have holds : Mutex.peers ∈ [Mutex.runtime, Mutex.peers] := by decide
  refine ⟨history, _, run, ⟨_, List.mem_singleton_self _, holds, rfl⟩, fun disciplined => ?_⟩
  exact disciplined.once _ (List.mem_singleton_self _) .peers rest rfl holds

end Creek.Tight.Scene
