import Creek.Proofs.Tight.MtuBound
import Creek.Tight.Threads

/-! The rule the code of every thread keeps to: what each instruction finds of the mutexes. Steps of the
transport and callbacks leave it kept, except where a pass finds a link dead: the callback then runs
under the mutex of the table.
-/

namespace Creek.Tight

open Library

-- The steps that fire nothing

/-- Whether an event hands over a received datagram. -/
def Event.isDatagram : Event → Bool
  | .datagram .. => true
  | _ => false

namespace Link

/-- The callbacks a link has asked for so far. -/
def invocations (link : Link) : List Invocation := link.effects.filterMap Effect.invocation?

variable {numerics : Numerics} {identity : Identity} {moment : Moment} {header : PacketHeader}
  {payload : Bytes} {link : Link}

@[simp] theorem invocations_with_peer (peer : Peer)
    : { link with peer := peer }.invocations = link.invocations :=
  rfl

@[simp] theorem sendRaw_invocations (datagram : Bytes) (sealed : Option Seal)
    : (link.sendRaw datagram sealed).invocations = link.invocations := by
  unfold Link.sendRaw
  split
  · simp [invocations, fire, Effect.invocation?]
  · rfl

@[simp] theorem sendWire_invocations
    : (link.sendWire identity header payload).invocations = link.invocations :=
  sendRaw_invocations _ _

@[simp] theorem keepPending_invocations (now : TimePoint) (bytes : Nat)
    : (link.keepPending header payload now bytes).invocations = link.invocations :=
  rfl

@[simp] theorem sendControl_invocations (type : PacketType) (ackable : Bool)
    : (link.sendControl identity moment type payload ackable).invocations = link.invocations := by
  cases ackable
  · exact sendRaw_invocations _ _
  · simp [sendControl]

@[simp] theorem sendHandshake_invocations
    : (link.sendHandshake identity moment).invocations = link.invocations := by
  simp [sendHandshake]

theorem sendCommand_invocations
    : (link.sendCommand identity moment payload).invocations = link.invocations := by
  unfold Link.sendCommand
  split
  · rfl
  · exact sendWire_invocations

theorem sendDataPacket_invocations (call : FragmentCall)
    : (link.sendDataPacket identity moment call).invocations = link.invocations := by
  simp only [Link.sendDataPacket]
  split
  · split <;> simp
  · exact sendWire_invocations

theorem sendHandshakes_invocations
    : (link.sendHandshakes identity moment).invocations = link.invocations := by
  unfold Link.sendHandshakes
  split
  · rfl
  · dsimp only
    split <;> simp

theorem sendHeartbeats_invocations
    : (link.sendHeartbeats identity moment).invocations = link.invocations := by
  unfold Link.sendHeartbeats
  split
  · rfl
  · split <;> simp

theorem sendReports_invocations
    : (link.sendReports numerics identity moment).invocations = link.invocations := by
  unfold Link.sendReports
  split
  · rfl
  · split
    · rfl
    · simp

/-- A linked peer that has been silent for the dead timeout. -/
def Dead (identity : Identity) (moment : Moment) (peer : Peer) : Prop :=
  linked peer = true ∧ identity.config.deadTimeout ≤ moment.now - peer.lastRecv

theorem checkOffline_invocations
    : ∀ invocation ∈ (link.checkOffline identity moment).invocations,
      invocation ∈ link.invocations
      ∨ (invocation.callback = .peer ∧ Dead identity moment link.peer) := by
  have announced (closed : Link) (same : closed.effects = link.effects)
      (dead : Dead identity moment link.peer)
      : ∀ invocation ∈ (closed.firePeerEvent .closed).invocations,
        invocation ∈ link.invocations
        ∨ (invocation.callback = .peer ∧ Dead identity moment link.peer) := by
    intro invocation member
    rw [invocations, firePeerEvent, fire, List.filterMap_append, same] at member
    rcases List.mem_append.mp member with earlier | last
    · exact .inl earlier
    · obtain rfl := List.mem_singleton.mp last
      exact .inr ⟨rfl, dead⟩
  intro invocation
  unfold Link.checkOffline
  dsimp only
  split
  · exact .inl
  · rename_i up
    split
    · exact .inl
    · rename_i silent
      have dead : Dead identity moment link.peer :=
        ⟨Decidable.not_not.mp up, Int.not_lt.mp silent⟩
      split
      · exact announced _ rfl dead invocation
      · exact announced _ rfl dead invocation

theorem checkOffline_dead (dead : Dead identity moment link.peer)
    : ∃ event, event.id = link.peer.id ∧ event.state = .closed
      ∧ (link.checkOffline identity moment).invocations = link.invocations ++ [.peer event] := by
  have announced (closed : Link) (same : closed.effects = link.effects)
      (id : closed.peer.id = link.peer.id)
      : ∃ event, event.id = link.peer.id ∧ event.state = .closed
        ∧ (closed.firePeerEvent .closed).invocations = link.invocations ++ [.peer event] := by
    rw [invocations, firePeerEvent, fire, List.filterMap_append, same]
    exact ⟨_, id, rfl, rfl⟩
  unfold Link.checkOffline
  dsimp only
  split
  · rename_i down
    exact absurd dead.1 down
  · split
    · rename_i heard
      exact absurd dead.2 (Int.not_le.mpr heard)
    · split
      · exact announced _ rfl rfl
      · exact announced _ rfl rfl

end Link

namespace Transport

open Link

variable {numerics : Numerics} {transport after : Transport} {occurrence : Occurrence}
  {outputs : List Effect}

theorem visit_outputs {key : Bytes} {body : Link → Except Fault Link}
    (taken : transport.visit key body = .ok (after, outputs))
    : outputs = []
      ∨ ∃ peer next, transport.peers[key]? = some peer
          ∧ body { key := key, peer := peer, rttUs := transport.rttUs } = .ok next
          ∧ outputs = next.effects := by
  rcases visit_cases taken with ⟨-, -, silent⟩ | ⟨peer, next, found, ran, -, shown⟩
  · exact .inl silent
  · exact .inr ⟨peer, next, found, ran, shown⟩

theorem visit_stored {key : Bytes} {peer : Peer} (stored : transport.peers[key]? = some peer)
    (body : Link → Link)
    : let done := body { key := key, peer := peer, rttUs := transport.rttUs }
      transport.visit key (fun link => .ok (body link)) =
        .ok
          (
            {
              transport with
              peers := transport.peers.insert key done.peer
              rttUs := done.rttUs
            },
            done.effects
          ) := by
  simp only [Transport.visit, stored]

theorem visit_identity {key : Bytes} {body : Link → Except Fault Link}
    (taken : transport.visit key body = .ok (after, outputs))
    : after.identity = transport.identity := by
  rcases visit_cases taken with ⟨-, rfl, -⟩ | ⟨peer, next, -, -, rfl, -⟩
  · rfl
  · rfl

theorem visit_quiet {key : Bytes} {body : Link → Link}
    (taken : transport.visit key (fun link => .ok (body link)) = .ok (after, outputs))
    (quiet : ∀ link, (body link).invocations = link.invocations)
    : outputs.filterMap Effect.invocation? = [] := by
  rcases visit_outputs taken with rfl | ⟨peer, next, -, ran, rfl⟩
  · rfl
  · obtain rfl := Except.ok.inj ran
    exact quiet _

/-- A step other than a datagram and a flush fires nothing but the end of a dead link. -/
theorem step_invocations (taken : step numerics transport occurrence = .ok (after, outputs))
    (other : occurrence.event.isDatagram = false)
    (prompt : ∀ key, occurrence.event ≠ .flushCommands key)
    : ∀ invocation ∈ outputs.filterMap Effect.invocation?,
      ∃ key peer, occurrence.event = .checkOffline key ∧ transport.peers[key]? = some peer
        ∧ invocation.callback = .peer ∧ Dead transport.identity occurrence.moment peer := by
  have none_ (empty : outputs.filterMap Effect.invocation? = [])
      : ∀ invocation ∈ outputs.filterMap Effect.invocation?,
        ∃ key peer, occurrence.event = .checkOffline key ∧ transport.peers[key]? = some peer
          ∧ invocation.callback = .peer ∧ Dead transport.identity occurrence.moment peer := by
    intro invocation member
    rw [empty] at member
    exact absurd member List.not_mem_nil
  obtain ⟨moment, event⟩ := occurrence
  cases event with
  | connect remoteId addr =>
      exact none_ (visit_quiet taken fun link => sendHandshake_invocations)
  | datagram source bytes draw => cases other
  | sendCommand peerId payload =>
      simp only [step] at taken
      split at taken
      · cases taken
        exact none_ rfl
      · split at taken
        · cases taken
          exact none_ rfl
        · exact none_ (visit_quiet taken fun link => sendCommand_invocations)
  | processSend peerId payload =>
      cases taken
      exact none_ rfl
  | encode =>
      cases taken
      exact none_ rfl
  | fragment =>
      simp only [step] at taken
      split at taken
      · cases taken
        exact none_ rfl
      · exact none_ (visit_quiet taken fun link => sendDataPacket_invocations _)
  | sendHandshakes key => exact none_ (visit_quiet taken fun link => sendHandshakes_invocations)
  | sendHeartbeats key => exact none_ (visit_quiet taken fun link => sendHeartbeats_invocations)
  | sendReports key => exact none_ (visit_quiet taken fun link => sendReports_invocations)
  | checkOffline key =>
      intro invocation member
      simp only [step] at taken
      rcases visit_outputs taken with rfl | ⟨peer, next, found, ran, rfl⟩
      · exact absurd member List.not_mem_nil
      · obtain rfl := Except.ok.inj ran
        rcases checkOffline_invocations invocation member with earlier | dead
        · exact absurd earlier List.not_mem_nil
        · exact ⟨key, peer, rfl, found, dead⟩
  | flushCommands key => exact absurd rfl (prompt key)

end Transport

-- The rule of the locks

/-- The place of a mutex in the order in which mutexes are taken. -/
def Mutex.rank : Mutex → Nat
  | .runtime => 0
  | .workers => 1
  | .peers => 2
  | .send => 3
  | .callbacks => 3

/-- All held mutexes rank below another one. -/
def Below (held : List Mutex) (mutex : Mutex) : Prop := ∀ other ∈ held, other.rank < mutex.rank

theorem below_nil (mutex : Mutex) : Below [] mutex := fun _ member => absurd member List.not_mem_nil

theorem Below.mono {held : List Mutex} {mutex higher : Mutex} (below : Below held mutex)
    (rank : mutex.rank ≤ higher.rank)
    : Below held higher :=
  fun other member => Nat.lt_of_lt_of_le (below other member) rank

theorem Below.cons {held : List Mutex} {mutex other : Mutex} (below : Below held mutex)
    (rank : other.rank < mutex.rank)
    : Below (other :: held) mutex :=
  List.forall_mem_cons.mpr ⟨rank, below⟩

/-- What an instruction may expect of the mutexes its thread holds. Mutexes are taken by rising rank,
and that of the table is held throughout a pass. Callbacks run on a thread that holds nothing, calls
of the transport under the runtime's mutex at most.
-/
def Instr.rule (held : List Mutex) : Instr → Prop
  | .acquire mutex => Below held mutex
  | .visit occurrence =>
      (if occurrence.event.isDatagram then held = [] else Below held .send)
      ∧ ∀ key, occurrence.event = .checkOffline key → .peers ∈ held
  | .walk _ _ => Below held .send ∧ .peers ∈ held
  | .deliver => held = []
  | .invoke _ => held = []
  | .call _ => Below held .workers
  | _ => True

/-- The code ahead of a thread keeps to the rule. -/
abbrev Keeps (held : List Mutex) (code : List Instr) : Prop :=
  Obeys Instr.lockEffect Instr.rule held code

abbrev Returns (code : List Instr) : Prop := Balanced Instr.lockEffect code

theorem returns_locked {mutex : Mutex} {body : List Instr} (inside : Returns body)
    : Returns (Instr.locked mutex body) :=
  inside.section_ rfl rfl

theorem keeps_locked {mutex : Mutex} {body : List Instr} {held : List Mutex}
    (below : Below held mutex) (returns : Returns body) (inside : Keeps (mutex :: held) body)
    : Keeps held (Instr.locked mutex body) :=
  inside.section_ returns rfl below trivial

theorem keeps_single {instr : Instr} {held : List Mutex} (rule : instr.rule held)
    : Keeps held [instr] :=
  ⟨rule, trivial⟩

-- The code of calls and tasks

theorem returns_calls (calls : List Api) : Returns (calls.map Instr.call) := by
  induction calls with
  | nil => exact balanced_nil
  | cons call calls ih =>
      have single : Returns [Instr.call call] := balanced_keep rfl
      exact single.append ih

theorem keeps_calls {held : List Mutex} (calls : List Api) (below : Below held .workers)
    : Keeps held (calls.map Instr.call) := by
  induction calls with
  | nil => exact trivial
  | cons call calls ih => exact ⟨below, ih⟩

theorem OwnerStep.returns (step : OwnerStep) : Returns step.code := by
  cases step with
  | call api => exact balanced_keep rfl
  | locked calls => exact returns_locked (returns_calls calls)

theorem OwnerStep.keeps (step : OwnerStep) : Keeps [] step.code := by
  cases step with
  | call api => exact keeps_single (below_nil _)
  | locked calls =>
      refine keeps_locked (below_nil _) (returns_calls calls) ?_
      exact keeps_calls calls ((below_nil _).cons (by decide))

/-- Whatever an owner does keeps to the rule on a thread that holds nothing. -/
theorem keeps_path (path : List OwnerStep) : Keeps [] (path.flatMap OwnerStep.code) :=
  Obeys.flatMap (fun step _ => step.keeps) fun step _ => step.returns

theorem returns_path (path : List OwnerStep) : Returns (path.flatMap OwnerStep.code) :=
  Balanced.flatMap fun step _ => step.returns

theorem keeps_walk (pass : Pass) (moment : Moment)
    : Keeps [] (Instr.locked .peers [.walk pass moment]) := by
  refine keeps_locked (below_nil _) (balanced_keep rfl) ?_
  exact keeps_single ⟨(below_nil _).cons (by decide), List.mem_cons_self⟩

theorem returns_walk (pass : Pass) (moment : Moment)
    : Returns (Instr.locked .peers [.walk pass moment]) :=
  returns_locked (balanced_keep rfl)

theorem Tick.keeps (tick : Tick) : Keeps [] tick.code ∧ Returns tick.code := by
  have passes (front : List Instr) (kept : Keeps [] front ∧ Returns front) (pass : Pass)
      (moment : Moment)
      : Keeps [] (front ++ Instr.locked .peers [.walk pass moment])
        ∧ Returns (front ++ Instr.locked .peers [.walk pass moment]) :=
    ⟨kept.1.append kept.2 (keeps_walk pass moment), kept.2.append (returns_walk pass moment)⟩
  have handshakes := passes [] ⟨trivial, balanced_nil⟩ .sendHandshakes tick.handshakes
  have heartbeats := passes _ handshakes .sendHeartbeats tick.heartbeats
  have reports := passes _ heartbeats .sendReports tick.reports
  have offline := passes _ reports .checkOffline tick.offline
  have commands := passes _ offline .flushCommands tick.commands
  have fires : Keeps [] [.deliver] := keeps_single rfl
  have delivered : Returns [Instr.deliver] := balanced_keep rfl
  have swapped : Keeps [] (Instr.locked .send []) :=
    keeps_locked (below_nil _) balanced_nil trivial
  have emptied : Returns (Instr.locked .send []) := returns_locked balanced_nil
  have queued (message : Bytes × Bytes)
      : Keeps [] (Instr.locked .peers [.visit ⟨tick.queue, .processSend message.1 message.2⟩])
        ∧ Returns (Instr.locked .peers
            [.visit ⟨tick.queue, .processSend message.1 message.2⟩]) := by
    refine ⟨?_, returns_locked (balanced_keep rfl)⟩
    refine keeps_locked (below_nil _) (balanced_keep rfl) ?_
    exact keeps_single ⟨(below_nil _).cons (by decide), fun key same => by cases same⟩
  have returned := (commands.2.append delivered).append emptied
  unfold Tick.code
  constructor
  · refine Obeys.append ?_ returned (Obeys.flatMap ?_ ?_)
    · exact (commands.1.append commands.2 fires).append (commands.2.append delivered) swapped
    · exact fun message _ => (queued message).1
    · exact fun message _ => (queued message).2
  · exact returned.append (Balanced.flatMap fun message _ => (queued message).2)

/-- An idle thread begins with code that keeps to the rule and returns what it takes. -/
theorem Task.keeps (running : Bool) (task : Task)
    : Keeps [] (task.code running) ∧ Returns (task.code running) := by
  cases task with
  | tick turn =>
      rw [Task.code]
      split
      · exact turn.keeps
      · exact ⟨trivial, balanced_nil⟩
  | receive moment source bytes draw =>
      rw [Task.code]
      split
      · have found : Returns (Instr.locked .peers [.find moment source draw]) :=
          returns_locked (balanced_keep rfl)
        have handled : Keeps [] [.visit ⟨moment, .datagram source bytes draw⟩] :=
          keeps_single ⟨rfl, fun key same => by cases same⟩
        refine ⟨Obeys.append ?_ found handled, found.append (balanced_keep rfl)⟩
        refine keeps_locked (below_nil _) (balanced_keep rfl) ?_
        exact keeps_single trivial
      · exact ⟨trivial, balanced_nil⟩
  | encode moment =>
      have rule : (Instr.visit ⟨moment, .encode⟩).rule [] :=
        ⟨below_nil _, fun key same => by cases same⟩
      exact ⟨keeps_single rule, balanced_keep rfl⟩
  | fragment moment =>
      have rule : (Instr.visit ⟨moment, .fragment⟩).rule [] :=
        ⟨below_nil _, fun key same => by cases same⟩
      exact ⟨keeps_single rule, balanced_keep rfl⟩
  | own path => exact ⟨keeps_path path, returns_path path⟩

namespace Scene

variable {scene : Scene} {held : List Mutex}

theorem keeps_apiCode (api : Api) (below : Below held .workers)
    : Keeps held (scene.apiCode api) ∧ Returns (scene.apiCode api) := by
  have section_ {mutex : Mutex} {body : List Instr} (own : Mutex.workers.rank ≤ mutex.rank)
      (returns : Returns body) (inside : Keeps (mutex :: held) body)
      : Keeps held (Instr.locked mutex body) ∧ Returns (Instr.locked mutex body) :=
    ⟨keeps_locked (below.mono own) returns inside, returns_locked returns⟩
  have visit (occurrence : Occurrence) (other : occurrence.event.isDatagram = false)
      : Keeps held (Instr.locked .peers [.visit occurrence])
        ∧ Returns (Instr.locked .peers [.visit occurrence]) := by
    refine section_ (by decide) (balanced_keep rfl) (keeps_single ⟨?_, ?_⟩)
    · rw [if_neg (by rw [other]; decide)]
      exact (below.mono (by decide)).cons (by decide)
    · exact fun _ _ => List.mem_cons_self
  have nothing : Keeps held [] ∧ Returns [] := ⟨trivial, balanced_nil⟩
  cases api with
  | setCallback callback present =>
      exact section_ (by decide) (balanced_keep rfl) (keeps_single trivial)
  | start => exact ⟨keeps_single trivial, balanced_keep rfl⟩
  | stop =>
      have closed : Keeps held (Instr.locked .peers [.sendByes])
          ∧ Returns (Instr.locked .peers [.sendByes]) :=
        section_ (by decide) (balanced_keep rfl) (keeps_single trivial)
      exact ⟨closed.1.append closed.2 (keeps_single trivial), closed.2.append (balanced_keep rfl)⟩
  | connect moment remoteId addr =>
      rw [apiCode]
      split
      · exact visit _ rfl
      · exact nothing
  | send peerId payload =>
      rw [apiCode]
      split
      · exact section_ (by decide) balanced_nil trivial
      · exact nothing
  | sendCommand moment peerId payload =>
      rw [apiCode]
      split
      · exact visit _ rfl
      · exact nothing
  | setLiteMode =>
      refine section_ (by decide) (returns_locked balanced_nil) ?_
      exact keeps_locked ((below.mono (by decide)).cons (by decide)) balanced_nil trivial
  | peers => exact section_ (by decide) balanced_nil trivial

/-- A callback is copied where its mutex may be taken, and run on a thread that holds nothing. -/
theorem keeps_fire (invocation : Invocation) (below : Below held .callbacks)
    (idle : scene.installed invocation.callback = true → held = [])
    : Keeps held (scene.fire invocation) ∧ Returns (scene.fire invocation) := by
  have copied : Keeps held (Instr.locked .callbacks []) :=
    keeps_locked below balanced_nil trivial
  have returns : Returns (Instr.locked .callbacks []) := returns_locked balanced_nil
  rw [fire]
  split
  · rename_i present
    refine ⟨copied.append returns (keeps_single (idle present)), returns.append (balanced_keep rfl)⟩
  · rw [List.append_nil]
    exact ⟨copied, returns⟩

theorem keeps_fireAll {invocations : List Invocation} (below : Below held .callbacks)
    (idle : ∀ invocation ∈ invocations, scene.installed invocation.callback = true → held = [])
    : Keeps held (scene.fireAll invocations) ∧ Returns (scene.fireAll invocations) := by
  have each (invocation : Invocation) (member : invocation ∈ invocations) :=
    keeps_fire invocation below (idle invocation member)
  exact ⟨Obeys.flatMap (fun invocation member => (each invocation member).1)
      fun invocation member => (each invocation member).2,
    Balanced.flatMap fun invocation member => (each invocation member).2⟩

-- Steps

/-- The code ahead of a thread keeps to the rule and ends with nothing held. -/
structure Sound (thread : Thread) : Prop where
  keeps : Keeps thread.held thread.code
  returns : heldAfter Instr.lockEffect thread.held thread.code = []

/-- Every thread is sound. -/
def Safe (scene : Scene) : Prop := ∀ thread ∈ scene.threads, Sound thread

/-- `check_offline` does not find a link dead while a peer callback is set. -/
def SparesLinks (scene : Scene) : Move → Prop
  | .begin _ _ => True
  | .advance id _ =>
      ∀ thread moment key rest peer, scene.threads[id]? = some thread
        → thread.code = .visit ⟨moment, .checkOffline key⟩ :: rest
        → scene.transport.peers[key]? = some peer
        → scene.installed .peer = true
        → ¬Link.Dead scene.transport.identity moment peer

variable {numerics : Numerics} {after : Scene} {thread : Thread} {id : Nat} {path : List OwnerStep}

theorem Sound.splice (sound : Sound thread) {body : List Instr}
    (spliced : Keeps thread.held body ∧ Returns body)
    : Sound { thread with code := body ++ thread.code } := by
  refine ⟨spliced.1.append spliced.2 sound.keeps, ?_⟩
  rw [heldAfter_append, spliced.2]
  exact sound.returns

theorem Safe.resume (safe : scene.Safe) (sound : Sound thread)
    : (scene.resume id thread).Safe := by
  intro other member
  rcases List.mem_or_eq_of_mem_set member with earlier | rfl
  · exact safe other earlier
  · exact sound

theorem keeps_visits (pass : Pass) (moment : Moment) (keys : List Bytes) (below : Below held .send)
    (inside : .peers ∈ held)
    : Keeps held (keys.map fun key => Instr.visit ⟨moment, pass.event key⟩)
      ∧ Returns (keys.map fun key => Instr.visit ⟨moment, pass.event key⟩) := by
  have other (key : Bytes) : (pass.event key).isDatagram = false := by cases pass <;> rfl
  induction keys with
  | nil => exact ⟨trivial, balanced_nil⟩
  | cons key keys ih =>
      have rule : (Instr.visit ⟨moment, pass.event key⟩).rule held := by
        simp only [Instr.rule, other]
        exact ⟨below, fun _ _ => inside⟩
      have single : Returns [Instr.visit ⟨moment, pass.event key⟩] := balanced_keep rfl
      exact ⟨⟨rule, ih.1⟩, single.append ih.2⟩

/-- What a step of the transport leaves to do is sound, unless it is the end of a dead link. -/
theorem Sound.aftermath (sound : Sound thread) {occurrence : Occurrence} {transport : Transport}
    {effects : List Effect} (rule : (Instr.visit occurrence).rule thread.held)
    (spares : ∀ key peer, occurrence.event = .checkOffline key
      → scene.transport.peers[key]? = some peer
      → scene.installed .peer = true
      → ¬Link.Dead scene.transport.identity occurrence.moment peer)
    (taken : scene.transport.step numerics occurrence = .ok (transport, effects))
    : Sound (scene.aftermath occurrence effects thread) := by
  have fires (below : Below thread.held .callbacks)
      (idle : ∀ invocation ∈ effects.filterMap Effect.invocation?,
        scene.installed invocation.callback = true → thread.held = [])
      : Sound
          {
            thread with
            code := scene.fireAll (effects.filterMap Effect.invocation?) ++ thread.code
          } :=
    sound.splice (keeps_fireAll below idle)
  have below (other : occurrence.event.isDatagram = false) : Below thread.held .send := by
    simpa [other] using rule.1
  have quiet (other : occurrence.event.isDatagram = false)
      (prompt : ∀ key, occurrence.event ≠ .flushCommands key)
      : ∀ invocation ∈ effects.filterMap Effect.invocation?,
        scene.installed invocation.callback = true → thread.held = [] := by
    intro invocation member present
    obtain ⟨key, peer, offline, found, callback, dead⟩ :=
      Transport.step_invocations taken other prompt invocation member
    rw [callback] at present
    exact absurd dead (spares key peer offline found present)
  obtain ⟨moment, event⟩ := occurrence
  cases event with
  | datagram source bytes draw =>
      have idle : thread.held = [] := rule.1
      refine fires ?_ fun _ _ _ => idle
      rw [idle]
      exact below_nil _
  | flushCommands key => exact ⟨sound.keeps, sound.returns⟩
  | processSend peerId payload =>
      simp only [Scene.aftermath]
      split
      · refine sound.splice ⟨?_, returns_locked balanced_nil⟩
        exact keeps_locked (below rfl) balanced_nil trivial
      · exact sound
  | _ => exact fires (below rfl) (quiet rfl fun key same => by cases same)

theorem Safe.carryOut (safe : scene.Safe) {instr : Instr} (rule : instr.rule thread.held)
    (sound : Sound { thread with held := instr.lockEffect.apply thread.held })
    (spares : ∀ moment key peer, instr = .visit ⟨moment, .checkOffline key⟩
      → scene.transport.peers[key]? = some peer
      → scene.installed .peer = true
      → ¬Link.Dead scene.transport.identity moment peer)
    (taken : scene.carryOut numerics id thread path instr = .ok after)
    : after.Safe := by
  cases instr with
  | acquire mutex =>
      rw [Scene.carryOut] at taken
      split at taken
      · cases taken
        exact safe.resume sound
      · cases taken
        exact safe
  | release mutex =>
      cases taken
      exact safe.resume sound
  | walk pass moment =>
      cases taken
      exact safe.resume (Sound.splice sound (keeps_visits pass moment _ rule.1 rule.2))
  | visit occurrence =>
      rw [Scene.carryOut] at taken
      split at taken
      · cases taken
      · rename_i transport effects stepped
        cases taken
        refine Safe.resume safe (Sound.aftermath sound rule (fun key peer same => ?_) stepped)
        exact spares occurrence.moment key peer (by rw [← same])
  | find moment source draw =>
      cases taken
      exact Safe.resume safe sound
  | deliver =>
      cases taken
      have idle : thread.held = [] := rule
      have below : Below thread.held .callbacks := by
        rw [idle]
        exact below_nil _
      have fired : Keeps thread.held (scene.fireAll thread.collected)
          ∧ Returns (scene.fireAll thread.collected) :=
        keeps_fireAll below fun _ _ _ => idle
      obtain ⟨keeps, returns⟩ := Sound.splice sound fired
      exact safe.resume ⟨keeps, returns⟩
  | invoke invocation =>
      cases taken
      have idle : thread.held = [] := rule
      refine safe.resume (Sound.splice sound ⟨?_, returns_path path⟩)
      have ran : Keeps thread.held (path.flatMap OwnerStep.code) := by
        rw [idle]
        exact keeps_path path
      exact ran
  | call api =>
      cases taken
      exact safe.resume (Sound.splice sound (keeps_apiCode api rule))
  | install callback present =>
      cases taken
      exact Safe.resume safe sound
  | sendByes =>
      cases taken
      exact Safe.resume safe sound
  | run running =>
      cases taken
      exact Safe.resume safe sound

theorem Safe.step (safe : scene.Safe) {move : Move} {outputs : List Unit}
    (spares : scene.SparesLinks move) (taken : scene.step numerics move = .ok (after, outputs))
    : after.Safe := by
  cases move with
  | begin id task =>
      simp only [Scene.step] at taken
      split at taken
      · cases taken
        exact safe
      · rename_i thread found
        split at taken
        · rename_i code
          cases taken
          have sound := safe thread (List.mem_of_getElem? found)
          have idle : thread.held = [] := by
            rw [← sound.returns, code, heldAfter_nil]
          refine safe.resume ⟨?_, ?_⟩
          · simp only [idle]
            exact (task.keeps scene.running).1
          · simp only [idle]
            exact (task.keeps scene.running).2 []
        · cases taken
          exact safe
  | advance id path =>
      simp only [Scene.step] at taken
      split at taken
      · cases taken
        exact safe
      · rename_i thread found
        split at taken
        · cases taken
          exact safe
        · rename_i instr rest code
          split at taken
          · cases taken
          · rename_i next carried
            cases taken
            obtain ⟨keeps, returns⟩ := safe thread (List.mem_of_getElem? found)
            rw [code] at keeps returns
            refine safe.carryOut ?_ ?_ (fun moment key peer same => ?_) carried
            · exact keeps.1
            · exact ⟨keeps.2, returns⟩
            · exact spares thread moment key rest peer found (by rw [code, same])

/-- A step that finds a dead link commits its thread to a callback under the mutex of the table. -/
theorem not_safe_of_dead (safe : scene.Safe) {move : Move} {outputs : List Unit}
    (found : ¬scene.SparesLinks move) (taken : scene.step numerics move = .ok (after, outputs))
    : ¬after.Safe := by
  cases move with
  | begin id task => exact absurd trivial found
  | advance id path =>
      simp only [SparesLinks, not_forall, not_not] at found
      obtain ⟨thread, moment, key, rest, peer, here, code, stored, present, dead⟩ := found
      obtain ⟨keeps, -⟩ := safe thread (List.mem_of_getElem? here)
      rw [code] at keeps
      have inside : .peers ∈ thread.held := keeps.1.2 key rfl
      obtain ⟨event, announced⟩
          : ∃ event, (Link.checkOffline scene.transport.identity moment
              { key := key, peer := peer, rttUs := scene.transport.rttUs }).effects.filterMap
                Effect.invocation? = [.peer event] := by
        obtain ⟨event, -, -, announced⟩ :=
          @Link.checkOffline_dead scene.transport.identity moment
            { key := key, peer := peer, rttUs := scene.transport.rttUs } dead
        exact ⟨event, announced⟩
      simp only [Scene.step, here, code, Scene.carryOut, Transport.step, Transport.visit, stored,
        Scene.aftermath, announced] at taken
      cases taken
      intro safe
      have listed : id < scene.threads.length := by
        obtain ⟨bound, -⟩ := List.getElem?_eq_some_iff.mp here
        exact bound
      have kept := (safe _ (List.mem_set listed _)).keeps
      simp only [fireAll, List.flatMap_cons, List.flatMap_nil, fire, Invocation.callback, present,
        if_true, Instr.locked, List.cons_append, List.nil_append] at kept
      -- past the copy of the callback the thread still holds the table
      have idle : (Mutex.callbacks :: thread.held).erase .callbacks = [] := kept.2.2.1
      rw [List.erase_cons_head] at idle
      rw [idle] at inside
      exact absurd inside List.not_mem_nil

end Scene

end Creek.Tight
