import Creek.Proofs.Mesh.RoutingTermination

/-! What becomes of the error reply to a refused call.
The reply starts with one hop less than the call had left, and is itself routed by functions that
drop what has no hop for another node. So it comes back to an origin at the refusing node always,
and over other nodes as long as the call had a hop left for each of them and one more.
-/

namespace Creek.Mesh

open Tight (Bytes)

namespace WireMessage

def originLeaf : WireMessage → Bytes
  | .request message => message.originLeaf
  | .response message => message.originLeaf
  | .streamOpen message => message.originLeaf
  | .streamFrame message => message.originLeaf
  | .streamClose message => message.originLeaf

def originNode : WireMessage → Bytes
  | .request message => message.originNode
  | .response message => message.originNode
  | .streamOpen message => message.originNode
  | .streamFrame message => message.originNode
  | .streamClose message => message.originNode

def destinationLeaf : WireMessage → Bytes
  | .request message => message.destinationLeaf
  | .response message => message.destinationLeaf
  | .streamOpen message => message.destinationLeaf
  | .streamFrame message => message.destinationLeaf
  | .streamClose message => message.destinationLeaf

def destinationNode : WireMessage → Bytes
  | .request message => message.destinationNode
  | .response message => message.destinationNode
  | .streamOpen message => message.destinationNode
  | .streamFrame message => message.destinationNode
  | .streamClose message => message.destinationNode

def hopLimit : WireMessage → UInt32
  | .request message => message.hopLimit
  | .response message => message.hopLimit
  | .streamOpen message => message.hopLimit
  | .streamFrame message => message.hopLimit
  | .streamClose message => message.hopLimit

theorem hops_eq (message : WireMessage) : message.hops = message.hopLimit.toNat := by
  cases message <;> rfl

/-- Whether a message tells the caller of a request or of an opening of a stream that the call
was refused, and why.
-/
def tellsRefusal (call : WireMessage) (error : RouteError) (reply : WireMessage) : Prop :=
  match call, reply with
  | .request call, .response reply =>
      reply.requestId = call.requestId ∧ reply.status = -1 ∧ reply.error = error.text
  | .streamOpen call, .streamClose reply =>
      reply.requestId = call.requestId ∧ reply.status = -1 ∧ reply.error = error.text
  | _, _ => False

end WireMessage

namespace NodeRuntime

/-- Whether a node id means this node; an empty one does. -/
def isHere (node : NodeRuntime) (nodeId : Bytes) : Bool :=
  nodeId.isEmpty || nodeId = node.config.id

/-- Why a node refuses a call, if it does. -/
def refusal? (node : NodeRuntime) (call : WireMessage) : Option RouteError :=
  if call.isCall then
    match node.route call.destinationNode call.destinationLeaf call.hopLimit call call with
    | .ok _ => none
    | .error error => some error
  else none

/-- Whether a node can answer a caller: the leaf is attached to it, or it knows the node that the
leaf is attached to.
-/
def reachesOrigin (node : NodeRuntime) (call : WireMessage) : Bool :=
  if node.isHere call.originNode then node.leaves.contains call.originLeaf
  else node.knownNodePeers.contains call.originNode

/-- Sending a message back to a caller. -/
def back (node : NodeRuntime) (call message : WireMessage) : RouteAction :=
  if node.isHere call.originNode then .toLeaf call.originLeaf message
  else .toNode call.originNode message

/-- What the last of some nodes sends to a leaf, when the first is handed a message and each sends
it to the next.
-/
def carried : NodeRuntime → List NodeRuntime → WireMessage → Option (Bytes × WireMessage)
  | node, [], message =>
      match node.onMessage message with
      | [.toLeaf leafId delivered] => some (leafId, delivered)
      | _ => none
  | node, next :: further, message =>
      match node.onMessage message with
      | [.toNode _ forwarded] => next.carried further forwarded
      | _ => none

/-- The nodes on a way to a leaf: each knows the node of the leaf, and the last is that node. -/
inductive Way (nodeId leafId : Bytes) : NodeRuntime → List NodeRuntime → Prop
  | arrived {node : NodeRuntime} (here : node.isHere nodeId = true)
    (attached : node.leaves.contains leafId = true) : Way nodeId leafId node []
  | onward {node next : NodeRuntime} {further : List NodeRuntime}
    (elsewhere : node.isHere nodeId = false)
    (known : node.knownNodePeers.contains nodeId = true) (rest : Way nodeId leafId next further)
    : Way nodeId leafId node (next :: further)

/-- A refused call is answered: a reply that tells so is made and sent back, and whatever way there is
to the leaf brings it there.
-/
def Answers (node : NodeRuntime) (error : RouteError) (call : WireMessage)
    (further : List NodeRuntime)
    : Prop :=
  ∃ reply, call.tellsRefusal error reply
    ∧ .replied reply ∈ node.onMessage call
    ∧ (∃ sent, call.tellsRefusal error sent ∧ node.back call sent ∈ node.onMessage call)
    ∧ (Way call.originNode call.originLeaf node further
      → ∃ arrived, call.tellsRefusal error arrived
        ∧ node.carried further reply = some (call.originLeaf, arrived))

end NodeRuntime

-- One node

namespace NodeRuntime

variable {node : NodeRuntime} {call message : WireMessage} {error : RouteError}

/-- The ways of messages of one destination and hop limit are alike. -/
theorem route_error {destinationNode destinationLeaf : Bytes} {hopLimit : UInt32}
    {delivered forwarded : WireMessage} (other onward : WireMessage)
    (refused : node.route destinationNode destinationLeaf hopLimit delivered forwarded =
      .error error)
    : node.route destinationNode destinationLeaf hopLimit other onward = .error error := by
  rw [route] at refused ⊢
  split at refused
  · rename_i here
    rw [if_pos here]
    split at refused
    · cases refused
    · rename_i detached
      rw [if_neg detached]
      exact refused
  · rename_i elsewhere
    rw [if_neg elsewhere]
    split at refused
    · rename_i used
      rw [if_pos used]
      exact refused
    · rename_i hops
      rw [if_neg hops]
      split at refused
      · rename_i unknown
        rw [if_pos unknown]
        exact refused
      · cases refused

theorem replyHops (limit : UInt32)
    : (if limit > 0 then limit - 1 else 0).toNat = limit.toNat - 1 := by
  split
  · rename_i positive
    have some : limit ≠ 0 := fun zero => by simp [zero] at positive
    rw [← hops_sub_one some, Nat.add_sub_cancel]
  · rename_i none
    have zero : limit.toNat = 0 := by
      have least : ¬ 0 < limit.toNat := fun positive => none (UInt32.lt_iff_toNat_lt.mpr positive)
      exact Nat.eq_zero_of_not_pos least
    rw [zero]
    rfl

/-- A refused call is answered with a reply to its origin, with one hop less, which the node routes
at once.
-/
theorem onMessage_refused (refused : node.refusal? call = some error)
    : ∃ reply, call.tellsRefusal error reply
      ∧ reply.isCall = false
      ∧ reply.destinationNode = call.originNode
      ∧ reply.destinationLeaf = call.originLeaf
      ∧ reply.hops = call.hops - 1
      ∧ node.onMessage call = .replied reply :: node.onMessage reply := by
  unfold refusal? at refused
  split at refused
  · rename_i isCall
    split at refused
    · cases refused
    · rename_i reason unrouted
      cases refused
      cases call with
      | response _ => cases isCall
      | streamFrame _ => cases isCall
      | streamClose _ => cases isCall
      | request request =>
          simp only [WireMessage.destinationNode, WireMessage.destinationLeaf,
            WireMessage.hopLimit] at unrouted
          have answers : node.onMessage (.request request) =
              node.sendErrorResponse request error.text := by
            rw [onMessage, routeRequest, route_error _ _ unrouted]
          refine ⟨_, ?_, ?_, ?_, ?_, ?_, answers⟩
          · exact ⟨rfl, rfl, rfl⟩
          · rfl
          · rfl
          · rfl
          · exact replyHops request.hopLimit
      | streamOpen opening =>
          simp only [WireMessage.destinationNode, WireMessage.destinationLeaf,
            WireMessage.hopLimit] at unrouted
          have answers : node.onMessage (.streamOpen opening) =
              node.sendStreamClose opening error.text := by
            rw [onMessage, handleStreamOpen, route_error _ _ unrouted]
          refine ⟨_, ?_, ?_, ?_, ?_, ?_, answers⟩
          · exact ⟨rfl, rfl, rfl⟩
          · rfl
          · rfl
          · rfl
          · exact replyHops opening.hopLimit
  · cases refused

/-- What is no call is routed to its destination as it is, but for the name of this node or one hop
less, or dropped.
-/
theorem onMessage_routed (reply : message.isCall = false)
    : ∃ delivered forwarded, node.onMessage message =
        sendOrDrop (node.route message.destinationNode message.destinationLeaf message.hopLimit
          delivered forwarded)
      ∧ (∀ call error, WireMessage.tellsRefusal call error message
        → call.tellsRefusal error delivered ∧ call.tellsRefusal error forwarded)
      ∧ forwarded.isCall = false
      ∧ forwarded.destinationNode = message.destinationNode
      ∧ forwarded.destinationLeaf = message.destinationLeaf
      ∧ forwarded.hopLimit = message.hopLimit - 1 := by
  cases message with
  | request _ => cases reply
  | streamOpen _ => cases reply
  | response response =>
      refine ⟨_, _, rfl, ?_, rfl, rfl, rfl, rfl⟩
      intro call error tells
      cases call <;> exact ⟨tells, tells⟩
  | streamFrame frame =>
      refine ⟨_, _, rfl, ?_, rfl, rfl, rfl, rfl⟩
      intro call error tells
      cases call <;> exact ⟨tells, tells⟩
  | streamClose close =>
      refine ⟨_, _, rfl, ?_, rfl, rfl, rfl, rfl⟩
      intro call error tells
      cases call <;> exact ⟨tells, tells⟩

theorem onMessage_here (reply : message.isCall = false)
    (here : node.isHere message.destinationNode = true)
    (attached : node.leaves.contains message.destinationLeaf = true)
    : ∃ delivered, node.onMessage message = [.toLeaf message.destinationLeaf delivered]
      ∧ ∀ call error, WireMessage.tellsRefusal call error message
        → call.tellsRefusal error delivered := by
  obtain ⟨delivered, forwarded, acts, tells, -⟩ := node.onMessage_routed reply
  refine ⟨delivered, ?_, fun call error told => (tells call error told).1⟩
  unfold isHere at here
  rw [acts, route, if_pos here, if_pos attached]
  rfl

/-- What is for a known node is sent there with a hop less, when it has one left. -/
theorem onMessage_elsewhere (reply : message.isCall = false)
    (elsewhere : node.isHere message.destinationNode = false) (left : 0 < message.hops)
    (known : node.knownNodePeers.contains message.destinationNode = true)
    : ∃ forwarded, node.onMessage message = [.toNode message.destinationNode forwarded]
      ∧ forwarded.isCall = false
      ∧ forwarded.destinationNode = message.destinationNode
      ∧ forwarded.destinationLeaf = message.destinationLeaf
      ∧ forwarded.hops = message.hops - 1
      ∧ ∀ call error, WireMessage.tellsRefusal call error message
        → call.tellsRefusal error forwarded := by
  obtain ⟨delivered, forwarded, acts, tells, isReply, toNode, toLeaf, less⟩ :=
    node.onMessage_routed reply
  rw [message.hops_eq] at left
  have some : message.hopLimit ≠ 0 := fun zero => by simp [zero] at left
  refine ⟨forwarded, ?_, isReply, toNode, toLeaf, ?_, fun call error told => (tells call error told).2⟩
  · unfold isHere at elsewhere
    rw [acts, route, elsewhere, if_neg Bool.false_ne_true, if_neg some, known]
    rfl
  · rw [forwarded.hops_eq, message.hops_eq, less, ← hops_sub_one some, Nat.add_sub_cancel]

/-- What is for another node and has no hop left is dropped. -/
theorem onMessage_spent (reply : message.isCall = false)
    (elsewhere : node.isHere message.destinationNode = false) (spent : message.hops = 0)
    : node.onMessage message = [] := by
  obtain ⟨delivered, forwarded, acts, -⟩ := node.onMessage_routed reply
  rw [message.hops_eq] at spent
  have none : message.hopLimit = 0 := UInt32.toNat_inj.mp spent
  unfold isHere at elsewhere
  rw [acts, route, elsewhere, if_neg Bool.false_ne_true, if_pos none]
  rfl

-- The way back

/-- A reply is carried along a way exactly when it has a hop for each further node. -/
theorem carried_way {call reply : WireMessage} {nodeId leafId : Bytes}
    {further : List NodeRuntime} (isReply : reply.isCall = false)
    (toNode : reply.destinationNode = nodeId) (toLeaf : reply.destinationLeaf = leafId)
    (tells : call.tellsRefusal error reply) (way : Way nodeId leafId node further)
    : (∃ arrived, call.tellsRefusal error arrived
        ∧ node.carried further reply = some (leafId, arrived))
      ↔ further.length ≤ reply.hops := by
  induction way generalizing reply with
  | @arrived node here attached =>
      subst toNode toLeaf
      obtain ⟨delivered, acts, told⟩ := onMessage_here isReply here attached
      refine iff_of_true ⟨delivered, told call error tells, ?_⟩ (Nat.zero_le _)
      rw [carried, acts]
  | @onward node next further elsewhere known rest ih =>
      subst toNode toLeaf
      rcases Nat.eq_zero_or_pos reply.hops with spent | left
      · refine iff_of_false ?_ ?_
        · rintro ⟨arrived, -, carries⟩
          rw [carried, onMessage_spent isReply elsewhere spent] at carries
          cases carries
        · rw [spent]
          exact Nat.not_succ_le_zero _
      · obtain ⟨forwarded, acts, isForwarded, sameNode, sameLeaf, hops, told⟩ :=
          onMessage_elsewhere isReply elsewhere left known
        have onwards := ih isForwarded sameNode sameLeaf (told call error tells)
        rw [carried, acts]
        rw [hops] at onwards
        refine onwards.trans ?_
        rw [List.length_cons]
        omega

/-- A reply is sent back exactly when its origin is here or it has a hop left. -/
theorem sentBack_iff {call reply : WireMessage} (isReply : reply.isCall = false)
    (toNode : reply.destinationNode = call.originNode)
    (toLeaf : reply.destinationLeaf = call.originLeaf) (tells : call.tellsRefusal error reply)
    (reaches : node.reachesOrigin call = true)
    : (∃ sent, call.tellsRefusal error sent
        ∧ node.back call sent ∈ .replied reply :: node.onMessage reply)
      ↔ node.isHere call.originNode = true ∨ 0 < reply.hops := by
  unfold reachesOrigin at reaches
  unfold back
  rcases here : node.isHere call.originNode with _ | _
  · rw [here, if_neg Bool.false_ne_true] at reaches
    rw [← toNode] at here reaches
    simp only [Bool.false_eq_true, if_false, false_or]
    constructor
    · rintro ⟨sent, -, member⟩
      refine Nat.pos_of_ne_zero fun spent => ?_
      rw [onMessage_spent isReply here spent] at member
      cases List.mem_singleton.mp member
    · intro left
      obtain ⟨forwarded, acts, -, -, -, -, told⟩ := onMessage_elsewhere isReply here left reaches
      refine ⟨forwarded, told call error tells, ?_⟩
      rw [acts, toNode]
      exact List.mem_cons_of_mem _ List.mem_cons_self
  · rw [here, if_pos rfl, ← toLeaf] at reaches
    rw [← toNode] at here
    obtain ⟨delivered, acts, told⟩ := onMessage_here isReply here reaches
    refine iff_of_true ⟨delivered, told call error tells, ?_⟩ (.inl rfl)
    rw [acts, toLeaf, if_pos rfl]
    exact List.mem_cons_of_mem _ List.mem_cons_self

/-- A refused call whose origin the node reaches is answered exactly when the origin is at this node,
or the call had two hops left and one more than there are further nodes on the way.
-/
theorem refusal_answered_iff {further : List NodeRuntime}
    (refused : node.refusal? call = some error) (reaches : node.reachesOrigin call = true)
    : node.Answers error call further
      ↔ node.isHere call.originNode = true
        ∨ 2 ≤ call.hops
          ∧ (Way call.originNode call.originLeaf node further → further.length < call.hops) := by
  obtain ⟨made, tells, isReply, toNode, toLeaf, hops, acts⟩ := onMessage_refused refused
  have sentBack := sentBack_iff isReply toNode toLeaf tells reaches
  have arrives := fun way => @carried_way node error call made _ _ further isReply toNode toLeaf
    tells way
  have sole : ∀ reply, .replied reply ∈ node.onMessage call → reply = made := by
    intro reply member
    rw [acts] at member
    rcases List.mem_cons.mp member with same | later
    · exact RouteAction.replied.inj same
    · rcases onMessage_reply isReply with none | ⟨leafId, delivered, -, leaf⟩
        | ⟨nodeId, forwarded, -, -, next⟩
      · rw [none] at later
        exact absurd later List.not_mem_nil
      · rw [leaf] at later
        cases List.mem_singleton.mp later
      · rw [next] at later
        cases List.mem_singleton.mp later
  constructor
  · rintro ⟨reply, -, replied, sent, carries⟩
    obtain rfl := sole reply replied
    rw [acts] at sent
    refine (sentBack.mp sent).imp_right fun left => ⟨by omega, fun way => ?_⟩
    have enough := (arrives way).mp (carries way)
    omega
  · intro enough
    refine ⟨made, tells, ?_, ?_, fun way => (arrives way).mpr ?_⟩
    · rw [acts]
      exact List.mem_cons_self
    · rw [acts]
      exact sentBack.mpr (enough.imp_right fun left => by omega)
    · rcases enough with here | ⟨-, left⟩
      · cases way with
        | arrived _ _ => exact Nat.zero_le _
        | onward elsewhere _ _ => exact absurd (here.symm.trans elsewhere) Bool.noConfusion
      · have := left way
        omega

/-- A node that knows the node of a leaf refuses a request of it. -/
def refusing : NodeRuntime where
  config := { id := [1] }
  knownNodePeers := (∅ : Std.TreeSet Bytes).insert [2]
  versionCounter := 0

/-- The node of the leaf. -/
def originating : NodeRuntime where
  config := { id := [2] }
  leaves := (∅ : Std.TreeSet Bytes).insert [7]
  versionCounter := 0

/-- A request for a leaf that is not there. -/
def unplaced (hopLimit : UInt32) : WireMessage :=
  .request { originLeaf := [7], originNode := [2], destinationLeaf := [8], hopLimit }

theorem refusal_answered_two
    : refusing.Answers .leafNotFound (unplaced 2) [originating]
      ↔ refusing.isHere [2] = true
        ∨ 2 ≤ 2 ∧ (Way [2] [7] refusing [originating] → 1 < 2) :=
  @refusal_answered_iff refusing (unplaced 2) .leafNotFound [originating] (by decide +kernel)
    (by decide +kernel)

/-- With one hop left at the refusing node, the reply starts with none and is dropped there. -/
theorem refusal_unanswered
    : ¬ ∀ (node : NodeRuntime) (error : RouteError) (call : WireMessage)
        (further : List NodeRuntime), node.refusal? call = some error
        → node.reachesOrigin call = true
        → node.Answers error call further := by
  intro always
  have refused : refusing.refusal? (unplaced 1) = some .leafNotFound := by decide +kernel
  have reaches : refusing.reachesOrigin (unplaced 1) = true := by decide +kernel
  have silent : ∀ action ∈ refusing.onMessage (unplaced 1), action.replies = true := by
    decide +kernel
  have elsewhere : ¬ refusing.isHere (unplaced 1).originNode = true := by decide +kernel
  obtain ⟨-, -, -, ⟨sent, -, member⟩, -⟩ := always refusing _ _ [originating] refused reaches
  rw [back, if_neg elsewhere] at member
  cases silent _ member

end NodeRuntime

end Creek.Mesh
