import Creek.Library.LockPrograms

/-! What the leaf runtime does with its own mutexes, function by function: `m_mutex`, and those of the
calls of clients, of the streams to backends and of the slots for routed responses. Which call, stream
or slot it is, and which branch is taken, is left open; the branches that lead from one mutex to
another show in the paths.
-/

namespace Creek.Leaf

open Library

/-- A mutex of a leaf; those of calls, streams and slots are told apart by an index. -/
inductive LeafMutex where
  | leaf
  | ingress (index : Nat)
  | backend (index : Nat)
  | pending (index : Nat)
  deriving DecidableEq, Repr

inductive MutexKind where
  | leaf
  | ingress
  | backend
  | pending
  deriving DecidableEq, Repr

def LeafMutex.kind : LeafMutex → MutexKind
  | .leaf => .leaf
  | .ingress _ => .ingress
  | .backend _ => .backend
  | .pending _ => .pending

/-- The branches that show: a call to a backend cannot be created, for a call of a client that is still
in `m_streams` or not; a routed request times out; `stop` finds calls of clients, or slots.
-/
inductive LeafBranch where
  | createFailed (registered : Bool)
  | timedOut
  | stopsStreams
  | stopsPending
  deriving DecidableEq, Repr

abbrev LeafCode := LockCode LeafMutex LeafBranch

namespace LeafCode

open LockCode

/-- A section under `m_mutex`. -/
def underLeaf (body : LeafCode) : LeafCode := locked .leaf body

/-- A section under `m_mutex` that takes no other mutex. -/
def leafOnly : LeafCode := underLeaf skip

/-- Something that may be left out. -/
def maybe (body : LeafCode) : LeafCode := either skip body

-- Streams to backends

def clientMessage (stream : Nat) : LeafCode := locked (.backend stream) skip

def clientHalfClose (stream : Nat) : LeafCode := locked (.backend stream) skip

def backendStreamFinished (onClose : LeafCode) : LeafCode := leafOnly.seq (maybe onClose)

/-- `BackendStream::run`: completions, of which the start and the writes lock the stream and the reads
hand a message over, and then the end.
-/
def run (stream : Nat) (onMessage onClose : LeafCode) : LeafCode :=
  (many (either (locked (.backend stream) skip) (maybe onMessage))).seq
    ((locked (.backend stream) skip).seq (backendStreamFinished onClose))

-- Sending

def sendToMesh : LeafCode := leafOnly.seq (maybe leafOnly)

def getChannel : LeafCode := leafOnly

def getStub : LeafCode := getChannel

def currentNodeId : LeafCode := leafOnly

def makeErrorResponse : LeafCode := leafOnly

def sendResponseToParent : LeafCode := leafOnly

def sendSnapshotToParent : LeafCode := leafOnly

def sendStreamCloseTo : LeafCode := currentNodeId.seq sendToMesh

-- Calls of clients

def findStream : LeafCode := leafOnly

/-- `ingress_try_finish`, for a call that is in `m_streams` or not. -/
def tryFinishWhen (registered : Bool) (call : Nat) : LeafCode :=
  findStream.seq (if registered then locked (.ingress call) skip else skip)

def ingressTryFinish (call : Nat) : LeafCode :=
  either (tryFinishWhen false call) (tryFinishWhen true call)

def ingressTeardown (call : Nat) : LeafCode :=
  leafOnly.seq
    ((locked (.ingress call) skip).seq
      (maybe ((maybe sendStreamCloseTo).seq (ingressTryFinish call))))

def ingressQueueWrite (call : Nat) : LeafCode :=
  findStream.seq (maybe ((locked (.ingress call) skip).seq (maybe (ingressTeardown call))))

def ingressBackendMessage (call : Nat) : LeafCode :=
  (locked (.ingress call) skip).seq (ingressQueueWrite call)

def ingressBackendClosed (call : Nat) : LeafCode :=
  findStream.seq (maybe ((locked (.ingress call) skip).seq (maybe (ingressTryFinish call))))

/-- `ingress_forward_frame`: the backend is kept alive by `m_mutex`, which is held across the call. -/
def ingressForwardFrame (call : Nat) : LeafCode :=
  findStream.seq
    (maybe
      ((locked (.ingress call) skip).seq
        (maybe
          (either (currentNodeId.seq sendToMesh)
            (underLeaf
              (maybe (any fun stream => either (clientHalfClose stream) (clientMessage stream))))))))

/-- What was buffered before the mode was decided is passed on. -/
def flushBuffered (call : Nat) : LeafCode :=
  (locked (.ingress call) skip).seq (many (ingressForwardFrame call))

/-- When the call to the backend cannot be created, the guard of the call is still in scope. -/
def backendCreateFailed (call : Nat) : LeafCode :=
  either
    (tagged (.createFailed false) (locked (.ingress call) (tryFinishWhen false call)))
    (tagged (.createFailed true) (locked (.ingress call) (tryFinishWhen true call)))

/-- A pick that has failed. -/
def pickFailed (call : Nat) : LeafCode :=
  (locked (.ingress call) skip).seq (maybe (ingressTryFinish call))

def beginLocal (call : Nat) : LeafCode :=
  getChannel.seq
    (either (backendCreateFailed call)
      (leafOnly.seq ((locked (.ingress call) skip).seq (flushBuffered call))))

def beginRemote (call : Nat) : LeafCode :=
  (locked (.ingress call) skip).seq (currentNodeId.seq (sendToMesh.seq (flushBuffered call)))

def genericBeginStream (call : Nat) : LeafCode :=
  leafOnly.seq
    (either (pickFailed call)
      (leafOnly.seq
        (either (pickFailed call)
          (either (beginLocal call) (beginRemote call)))))

def primeGenericCall : LeafCode := maybe leafOnly

def genericOnNewCall (call : Nat) : LeafCode := leafOnly.seq (locked (.ingress call) skip)

/-- `generic_on_read`: the guard is unlocked before anything else is called. -/
def genericOnRead (call : Nat) : LeafCode :=
  findStream.seq
    (maybe
      ((locked (.ingress call) skip).seq
        (maybe
          (either (ingressTryFinish call)
            (either ((genericBeginStream call).seq (maybe (ingressForwardFrame call)))
              (ingressForwardFrame call))))))

def genericOnWrite (call : Nat) : LeafCode :=
  findStream.seq
    (maybe
      ((locked (.ingress call) skip).seq
        (maybe (either (ingressTeardown call) (ingressTryFinish call)))))

def genericOnFinish (call : Nat) : LeafCode :=
  findStream.seq (maybe (locked (.ingress call) skip))

def genericOnAlarm (call : Nat) : LeafCode :=
  findStream.seq (maybe ((locked (.ingress call) skip).seq (maybe (genericBeginStream call))))

/-- One completion of the generic pump. -/
def genericEvent (call : Nat) : LeafCode :=
  either (leafOnly.seq (maybe (primeGenericCall.seq (genericOnNewCall call))))
    (either (genericOnRead call)
      (either (genericOnWrite call) (either (genericOnFinish call) (genericOnAlarm call))))

def genericPump : LeafCode :=
  primeGenericCall.seq (primeGenericCall.seq (many (any genericEvent)))

-- Messages of the mesh

def processStreamOpen : LeafCode :=
  either sendStreamCloseTo
    (leafOnly.seq
      (either sendStreamCloseTo (getChannel.seq (either sendStreamCloseTo leafOnly))))

def processStreamFrame : LeafCode :=
  either
    (either
      (underLeaf (any fun stream => maybe (either (clientHalfClose stream) (clientMessage stream))))
      (leafOnly.seq (leafOnly.seq (maybe sendStreamCloseTo))))
    (findStream.seq (either sendStreamCloseTo (maybe (any ingressBackendMessage))))

def ingressBackendClosedRaw : LeafCode := findStream.seq (maybe (any ingressBackendClosed))

def processStreamClose : LeafCode := either leafOnly ingressBackendClosedRaw

def streamWorkerLoop : LeafCode :=
  many (either processStreamOpen (either processStreamFrame processStreamClose))

def handleDirectory : LeafCode := leafOnly

def handleInboundRequest : LeafCode := maybe (makeErrorResponse.seq sendResponseToParent)

/-- `handle_inbound_response`: the slot is filled after the table is unlocked. -/
def handleInboundResponse : LeafCode := leafOnly.seq (maybe (any fun slot => locked (.pending slot) skip))

/-- A parsed message, as `on_message` and `process_batch` hand it on. -/
def handleMessage : LeafCode :=
  either handleDirectory
    (either handleInboundRequest (either handleInboundResponse (maybe sendStreamCloseTo)))

def onMessage : LeafCode := leafOnly.seq (maybe handleMessage)

def onPeerEvent : LeafCode := leafOnly.seq (maybe sendSnapshotToParent)

def processBatch : LeafCode := many (maybe (either handleMessage onPeerEvent))

def processInboundGeneric : LeafCode :=
  leafOnly.seq
    (either (makeErrorResponse.seq sendResponseToParent)
      (getChannel.seq (currentNodeId.seq sendResponseToParent)))

def processInboundRequest : LeafCode :=
  either (makeErrorResponse.seq sendResponseToParent)
    (either processInboundGeneric
      (leafOnly.seq
        (either (makeErrorResponse.seq sendResponseToParent)
          (getStub.seq (leafOnly.seq sendResponseToParent)))))

def workerLoop : LeafCode := many processInboundRequest

-- Requests of clients and backends

def callBackend : LeafCode := getStub

/-- `send_routed_request`: the wait returns the mutex of the slot and takes it again; after a timeout the
table is locked under it.
-/
def sendRoutedRequest : LeafCode :=
  any fun slot =>
    leafOnly.seq
      (leafOnly.seq
        (sendToMesh.seq
          ((many (locked (.pending slot) skip)).seq
            (either (locked (.pending slot) skip)
              (tagged .timedOut (locked (.pending slot) leafOnly))))))

/-- One attempt of `invoke_for_hello`, with the next one. -/
def helloAttempt (next : LeafCode) : LeafCode :=
  leafOnly.seq
    (maybe
      (either next ((either callBackend sendRoutedRequest).seq (maybe (leafOnly.seq next)))))

def invokeForHello : LeafCode := leafOnly.seq (maybe (helloAttempt (helloAttempt skip)))

def handleSayHello : LeafCode := invokeForHello

def handleJsonRpc : LeafCode := maybe invokeForHello

def handleRegister : LeafCode := maybe (leafOnly.seq (leafOnly.seq sendSnapshotToParent))

def handleHeartbeat : LeafCode := leafOnly.seq (maybe sendSnapshotToParent)

def handleDeregister : LeafCode := leafOnly.seq (maybe sendSnapshotToParent)

def handleMetrics : LeafCode := skip

def handleDirectoryQuery : LeafCode := currentNodeId.seq leafOnly

def handleSetSticky : LeafCode := leafOnly

def handleSetBreaker : LeafCode := leafOnly

def handlePushWasm : LeafCode := maybe leafOnly

def handleListWasm : LeafCode := leafOnly

def handleUnloadWasm : LeafCode := leafOnly

-- Tasks, the sweeper and the end

def doHeartbeatWork : LeafCode := leafOnly.seq (maybe sendSnapshotToParent)

def doSyncWork : LeafCode := leafOnly.seq sendSnapshotToParent

def doRedisSyncWork : LeafCode := many leafOnly

/-- `stream_sweep_loop` only tries the mutexes of the calls; what it has found it ends afterwards. -/
def streamSweepLoop : LeafCode :=
  many
    ((underLeaf (many (any fun call => tried (.ingress call) skip))).seq
      (many (any ingressTeardown)))

/-- `start` takes none of them. -/
def start : LeafCode := skip

/-- `stop` locks each call of a client under `m_mutex`, and at the end each slot. -/
def stop : LeafCode :=
  let calls := any fun call => locked (.ingress call) skip
  let slots := any fun slot => locked (.pending slot) skip
  maybe
    ((either leafOnly (tagged .stopsStreams (underLeaf (calls.seq (many calls))))).seq
      ((many leafOnly).seq
        (leafOnly.seq
          (either leafOnly (tagged .stopsPending (underLeaf (slots.seq (many slots))))))))

/-- The pump of a stream that belongs to a call of a client here, or to one at another leaf. -/
def backendPump : LeafCode :=
  any fun stream =>
    either
      (any fun call =>
        run stream (maybe (ingressBackendMessage call)) (maybe (ingressBackendClosed call)))
      (run stream (currentNodeId.seq sendToMesh) sendStreamCloseTo)

/-- Where the threads of a leaf begin. -/
def entryPoints : List LeafCode :=
  [
    handleSayHello,
    handleJsonRpc,
    handleRegister,
    handleHeartbeat,
    handleDeregister,
    handleMetrics,
    handleDirectoryQuery,
    handleSetSticky,
    handleSetBreaker,
    handlePushWasm,
    handleListWasm,
    handleUnloadWasm,
    onMessage,
    onPeerEvent,
    processBatch,
    workerLoop,
    streamWorkerLoop,
    genericPump,
    backendPump,
    streamSweepLoop,
    doHeartbeatWork,
    doSyncWork,
    doRedisSyncWork,
    start,
    stop
  ]

end LeafCode

end Creek.Leaf
