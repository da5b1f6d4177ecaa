import Creek.Library.Locks
import Creek.Tight.Transport

/-! The threads around a transport and the mutexes they take.
The reactor, the receiver, the encoder and the threads of the owner each carry out the code of one
call at a time, one instruction at a step, in any interleaving. A callback runs on the thread that
fires it. The mutexes under which nothing else is taken and nothing is fired (of a record, of the
estimator, of the queues between the threads) are left out, and so is the sender, which takes none.
-/

namespace Creek.Tight

/-- The mutexes of a transport, and the `m_mutex` of the runtime that owns it. -/
inductive Mutex where
  | peers
  | send
  | callbacks
  | workers
  | runtime
  deriving DecidableEq, Repr

/-- The three callbacks an owner can set. -/
inductive Callback where
  | message
  | peer
  | command
  deriving DecidableEq, Repr

/-- A callback with its arguments. -/
inductive Invocation where
  | message (peerId payload : Bytes)
  | peer (event : PeerEvent)
  | command (peerId payload : Bytes)
  deriving DecidableEq, Repr

def Invocation.callback : Invocation → Callback
  | .message .. => .message
  | .peer _ => .peer
  | .command .. => .command

/-- The callback that an effect asks for. -/
def Effect.invocation? : Effect → Option Invocation
  | .send .. => none
  | .message _ id payload => some (.message id payload)
  | .command _ id payload => some (.command id payload)
  | .peerEvent _ event => some (.peer event)

/-- The calls of `TightTransport`. `local_port` and `lite_mode` take no mutex and are left out. -/
inductive Api where
  | setCallback (callback : Callback) (present : Bool)
  | start
  | stop
  | connect (moment : Moment) (remoteId : Bytes) (addr : AddrKey)
  | send (peerId payload : Bytes)
  | sendCommand (moment : Moment) (peerId payload : Bytes)
  | setLiteMode
  | peers
  deriving DecidableEq, Repr

/-- What an owner does in a callback or on its own threads: calls outside its mutex, and sections
under it.
-/
inductive OwnerStep where
  | call (api : Api)
  | locked (calls : List Api)
  deriving DecidableEq, Repr

/-- A pass of the reactor over the table. -/
inductive Pass where
  | sendHandshakes
  | sendHeartbeats
  | sendReports
  | checkOffline
  | flushCommands
  deriving DecidableEq, Repr

/-- What a pass does with one record. -/
def Pass.event (key : Bytes) : Pass → Event
  | .sendHandshakes => .sendHandshakes key
  | .sendHeartbeats => .sendHeartbeats key
  | .sendReports => .sendReports key
  | .checkOffline => .checkOffline key
  | .flushCommands => .flushCommands key

/-- An instruction of a thread. `find` is `find_or_create_peer_by_addr`; `deliver` fires what a pass
of `flush_commands` has collected.
-/
inductive Instr where
  | acquire (mutex : Mutex)
  | release (mutex : Mutex)
  | walk (pass : Pass) (moment : Moment)
  | visit (occurrence : Occurrence)
  | find (moment : Moment) (source : AddrKey) (draw : Nat)
  | deliver
  | invoke (invocation : Invocation)
  | call (api : Api)
  | install (callback : Callback) (present : Bool)
  | sendByes
  | run (running : Bool)
  deriving DecidableEq, Repr

namespace Instr

/-- A section under a mutex. -/
def locked (mutex : Mutex) (body : List Instr) : List Instr :=
  .acquire mutex :: body ++ [.release mutex]

def lockEffect : Instr → Library.LockEffect Mutex
  | .acquire mutex => .acquire mutex
  | .release mutex => .release mutex
  | _ => .keep

end Instr

def OwnerStep.code : OwnerStep → List Instr
  | .call api => [.call api]
  | .locked calls => Instr.locked .runtime (calls.map Instr.call)

/-- A tick of the reactor: the clock at each of its parts, and the messages it takes from the send
queue.
-/
structure Tick where
  handshakes : Moment
  heartbeats : Moment
  reports : Moment
  offline : Moment
  commands : Moment
  queue : Moment
  messages : List (Bytes × Bytes)
  deriving DecidableEq, Repr

/-- The body of `reactor_loop`. Each message of `process_send_queue` is handled under the mutex of
the table.
-/
def Tick.code (tick : Tick) : List Instr :=
  Instr.locked .peers [.walk .sendHandshakes tick.handshakes]
  ++ Instr.locked .peers [.walk .sendHeartbeats tick.heartbeats]
  ++ Instr.locked .peers [.walk .sendReports tick.reports]
  ++ Instr.locked .peers [.walk .checkOffline tick.offline]
  ++ Instr.locked .peers [.walk .flushCommands tick.commands]
  ++ [.deliver]
  ++ Instr.locked .send []
  ++ tick.messages.flatMap fun message =>
      Instr.locked .peers [.visit ⟨tick.queue, .processSend message.1 message.2⟩]

/-- What an idle thread sets out to do. In lite mode the reactor also receives and encodes, between
its ticks.
-/
inductive Task where
  | tick (turn : Tick)
  | receive (moment : Moment) (source : AddrKey) (bytes : Bytes) (draw : Nat)
  | encode (moment : Moment)
  | fragment (moment : Moment)
  | own (path : List OwnerStep)
  deriving DecidableEq, Repr

/-- The code of a task. The reactor and the receiver stop with the transport. A datagram that does
not decode is dropped before its record is found.
-/
def Task.code (running : Bool) : Task → List Instr
  | .tick turn => if running then turn.code else []
  | .receive moment source bytes draw =>
      if running && (PacketCodec.decode (bytes.take 2048)).isSome then
        Instr.locked .peers [.find moment source draw]
        ++ [.visit ⟨moment, .datagram source bytes draw⟩]
      else
        []
  | .encode moment => [.visit ⟨moment, .encode⟩]
  | .fragment moment => [.visit ⟨moment, .fragment⟩]
  | .own path => path.flatMap OwnerStep.code

/-- A thread: the mutexes it holds, the code ahead of it and the commands it has collected. -/
structure Thread where
  held : List Mutex := []
  code : List Instr := []
  collected : List Invocation := []
  deriving DecidableEq, Repr

/-- A transport with its threads. -/
structure Scene where
  transport : Transport
  running : Bool := false
  installed : Callback → Bool := fun _ => false
  threads : List Thread

/-- An idle thread begins a task, or a thread goes on. `path` is what the owner does in the callback,
if one is invoked.
-/
inductive Move where
  | begin (thread : Nat) (task : Task)
  | advance (thread : Nat) (path : List OwnerStep)

/-- What an owner may do in a callback and on its own threads. -/
structure Owner where
  callback : Invocation → List OwnerStep → Prop
  thread : List OwnerStep → Prop

-- The code of a call

/-- Closes every link on `stop`. -/
def Transport.sendByes (transport : Transport) : Transport :=
  {
    transport with
    peers := transport.peers.map fun _ peer =>
      if peer.state ≠ .closed ∧ peer.addrSet then { peer with state := .closed } else peer
  }

/-- Whether a message for a peer goes back to the send queue. -/
def Transport.requeues (transport : Transport) (peerId : Bytes) : Bool :=
  match transport.findPeer peerId with
  | none => false
  | some key =>
      let state := (transport.peers.getD key {}).state
      state ≠ .online && state ≠ .closed

namespace Scene

/-- The code of a call. Calls on a transport that does not run, and payloads that are too long,
return before a mutex is taken.
-/
def apiCode (scene : Scene) : Api → List Instr
  | .setCallback callback present => Instr.locked .callbacks [.install callback present]
  | .start => [.run true]
  | .stop => Instr.locked .peers [.sendByes] ++ [.run false]
  | .connect moment remoteId addr =>
      if scene.running then Instr.locked .peers [.visit ⟨moment, .connect remoteId addr⟩] else []
  | .send _ payload =>
      if scene.running && payload.length ≤ scene.transport.identity.maxMessageBytes then
        Instr.locked .send []
      else
        []
  | .sendCommand moment peerId payload =>
      if scene.running && payload.length ≤ scene.transport.maxCommandBytes then
        Instr.locked .peers [.visit ⟨moment, .sendCommand peerId payload⟩]
      else
        []
  | .setLiteMode => Instr.locked .workers (Instr.locked .peers [])
  | .peers => Instr.locked .peers []

/-- `fire_peer_event` and its siblings: the callback is copied under its mutex and run without. -/
def fire (scene : Scene) (invocation : Invocation) : List Instr :=
  Instr.locked .callbacks []
  ++ if scene.installed invocation.callback then [.invoke invocation] else []

def fireAll (scene : Scene) (invocations : List Invocation) : List Instr :=
  invocations.flatMap scene.fire

-- Steps

/-- No thread holds a mutex. -/
def free (scene : Scene) (mutex : Mutex) : Bool :=
  scene.threads.all fun thread => !thread.held.contains mutex

/-- A thread goes on as given. -/
def resume (id : Nat) (thread : Thread) (scene : Scene) : Scene :=
  { scene with threads := scene.threads.set id thread }

/-- What a step of the transport leaves a thread to do: to fire its callbacks, and to put a message
back.
-/
def aftermath (scene : Scene) (occurrence : Occurrence) (effects : List Effect) (thread : Thread)
    : Thread :=
  let invocations := effects.filterMap Effect.invocation?
  match occurrence.event with
  | .flushCommands _ => { thread with collected := thread.collected ++ invocations }
  | .processSend peerId _ =>
      if scene.transport.requeues peerId then
        { thread with code := Instr.locked .send [] ++ thread.code }
      else
        thread
  | _ => { thread with code := scene.fireAll invocations ++ thread.code }

/-- A thread carries out an instruction; `thread` has it removed. A mutex that is not free is waited
for.
-/
def carryOut (numerics : Numerics) (scene : Scene) (id : Nat) (thread : Thread)
    (path : List OwnerStep)
    : Instr → Except Library.Fault Scene
  | .acquire mutex =>
      if scene.free mutex then
        .ok (scene.resume id { thread with held := mutex :: thread.held })
      else
        .ok scene
  | .release mutex => .ok (scene.resume id { thread with held := thread.held.erase mutex })
  | .walk pass moment =>
      let visits := scene.transport.peers.keys.map fun key => Instr.visit ⟨moment, pass.event key⟩
      .ok (scene.resume id { thread with code := visits ++ thread.code })
  | .visit occurrence =>
      match scene.transport.step numerics occurrence with
      | .error fault => .error fault
      | .ok (transport, effects) =>
          let thread := scene.aftermath occurrence effects thread
          .ok ({ scene with transport := transport }.resume id thread)
  | .find moment source draw =>
      let transport := (scene.transport.findOrCreatePeerByAddr moment source draw).1
      .ok ({ scene with transport := transport }.resume id thread)
  | .deliver =>
      let code := scene.fireAll thread.collected ++ thread.code
      .ok (scene.resume id { thread with code := code, collected := [] })
  | .invoke _ =>
      .ok (scene.resume id { thread with code := path.flatMap OwnerStep.code ++ thread.code })
  | .call api => .ok (scene.resume id { thread with code := scene.apiCode api ++ thread.code })
  | .install callback present =>
      let installed := Function.update scene.installed callback present
      .ok ({ scene with installed := installed }.resume id thread)
  | .sendByes =>
      let transport := if scene.running then scene.transport.sendByes else scene.transport
      .ok ({ scene with transport := transport }.resume id thread)
  | .run running => .ok ({ scene with running := running }.resume id thread)

/-- One step of a thread. -/
def step (numerics : Numerics) (scene : Scene) (move : Move)
    : Except Library.Fault (Scene × List Unit) :=
  match move with
  | .begin id task =>
      match scene.threads[id]? with
      | none => .ok (scene, [])
      | some thread =>
          match thread.code with
          | [] => .ok (scene.resume id { thread with code := task.code scene.running }, [])
          | _ :: _ => .ok (scene, [])
  | .advance id path =>
      match scene.threads[id]? with
      | none => .ok (scene, [])
      | some thread =>
          match thread.code with
          | [] => .ok (scene, [])
          | instr :: rest =>
              match scene.carryOut numerics id { thread with code := rest } path instr with
              | .error fault => .error fault
              | .ok after => .ok (after, [])

/-- A transport as it is constructed, with idle threads. -/
def initial (identity : Identity) (threads : Nat) : Scene where
  transport := Transport.initial identity
  threads := List.replicate threads {}

/-- An owner does what it may. -/
def Allows (owner : Owner) (scene : Scene) : Move → Prop
  | .begin _ (.own path) => owner.thread path
  | .begin _ _ => True
  | .advance id path =>
      ∀ thread invocation rest, scene.threads[id]? = some thread
        → thread.code = .invoke invocation :: rest
        → owner.callback invocation path

end Scene

end Creek.Tight
