import Creek.Library.Runs
import Creek.Mesh.Routing

/-! Routing comes to an end, whatever the tables of the nodes say.
Every forwarding uses up a hop, of the call or of the reply to it, and a node that makes a reply
keeps nothing of the call. So a call is on its way once, or its reply is, or neither.
-/

namespace Creek.Mesh

open Tight (Bytes)
open Library

/-- Whether a message asks for a reply when it cannot be passed on. -/
def WireMessage.isCall : WireMessage → Bool
  | .request _ => true
  | .streamOpen _ => true
  | .response _ => false
  | .streamFrame _ => false
  | .streamClose _ => false

/-- The hops a message has left. -/
def WireMessage.hops : WireMessage → Nat
  | .request call => call.hopLimit.toNat
  | .response reply => reply.hopLimit.toNat
  | .streamOpen opening => opening.hopLimit.toNat
  | .streamFrame frame => frame.hopLimit.toNat
  | .streamClose close => close.hopLimit.toNat

namespace RouteAction

def forwardsCall : RouteAction → Bool
  | .toNode _ message => message.isCall
  | _ => false

def deliversCall : RouteAction → Bool
  | .toLeaf _ message => message.isCall
  | _ => false

def replies : RouteAction → Bool
  | .replied _ => true
  | _ => false

def forwardsReply : RouteAction → Bool
  | .toNode _ message => !message.isCall
  | _ => false

def deliversReply : RouteAction → Bool
  | .toLeaf _ message => !message.isCall
  | _ => false

end RouteAction

-- One node

theorem hops_sub_one {limit : UInt32} (some : limit ≠ 0) : (limit - 1).toNat + 1 = limit.toNat := by
  have positive : (1 : UInt32) ≤ limit := by
    refine UInt32.le_iff_toNat_le.mpr (Nat.pos_of_ne_zero fun zero => some ?_)
    exact UInt32.toNat_inj.mp zero
  have least : 1 ≤ limit.toNat := UInt32.le_iff_toNat_le.mp positive
  rw [UInt32.toNat_sub_of_le _ _ positive]
  exact Nat.sub_add_cancel least

namespace NodeRuntime

variable {node : NodeRuntime}

theorem route_ok {destinationNode destinationLeaf : Bytes} {hopLimit : UInt32}
    {delivered forwarded : WireMessage} {action : RouteAction}
    (routed : node.route destinationNode destinationLeaf hopLimit delivered forwarded = .ok action)
    : action = .toLeaf destinationLeaf delivered
      ∨ action = .toNode destinationNode forwarded ∧ hopLimit ≠ 0 := by
  rw [route] at routed
  split at routed
  · split at routed
    · exact .inl (Except.ok.inj routed).symm
    · cases routed
  · split at routed
    · cases routed
    · rename_i hops
      split at routed
      · cases routed
      · exact .inr ⟨(Except.ok.inj routed).symm, hops⟩

/-- What is sent or dropped is dropped, sent to a leaf, or sent to a node with one hop less. -/
theorem sendOrDrop_route {destinationNode destinationLeaf : Bytes} {hopLimit : UInt32}
    {delivered forwarded : WireMessage} (toLeaf : delivered.isCall = false)
    (toNode : forwarded.isCall = false) (less : forwarded.hops = (hopLimit - 1).toNat)
    : let actions := sendOrDrop
        (node.route destinationNode destinationLeaf hopLimit delivered forwarded)
      actions = []
      ∨ (∃ leafId delivered, delivered.isCall = false ∧ actions = [.toLeaf leafId delivered])
      ∨ ∃ nodeId forwarded, forwarded.isCall = false
        ∧ forwarded.hops + 1 = hopLimit.toNat
        ∧ actions = [.toNode nodeId forwarded] := by
  rcases routed : node.route destinationNode destinationLeaf hopLimit delivered forwarded with
    error | action
  · exact .inl rfl
  · rcases route_ok routed with rfl | ⟨rfl, hops⟩
    · exact .inr (.inl ⟨destinationLeaf, delivered, toLeaf, rfl⟩)
    · refine .inr (.inr ⟨destinationNode, forwarded, toNode, ?_, rfl⟩)
      rw [less, hops_sub_one hops]

/-- A message that is no call is dropped, sent to a leaf, or sent on with one hop less. -/
theorem onMessage_reply {message : WireMessage} (reply : message.isCall = false)
    : node.onMessage message = []
      ∨ (∃ leafId delivered, delivered.isCall = false
        ∧ node.onMessage message = [.toLeaf leafId delivered])
      ∨ ∃ nodeId forwarded, forwarded.isCall = false
        ∧ forwarded.hops + 1 = message.hops
        ∧ node.onMessage message = [.toNode nodeId forwarded] := by
  cases message with
  | request _ => cases reply
  | streamOpen _ => cases reply
  | response response => exact sendOrDrop_route rfl rfl rfl
  | streamFrame frame => exact sendOrDrop_route rfl rfl rfl
  | streamClose close => exact sendOrDrop_route rfl rfl rfl

/-- The hops of an error reply do not exceed those of the call. -/
theorem replyHops_le (limit : UInt32)
    : (if limit > 0 then limit - 1 else 0).toNat ≤ limit.toNat := by
  split
  · rename_i some
    have positive : limit ≠ 0 := fun zero => by simp [zero] at some
    have less := hops_sub_one positive
    exact Nat.le_of_succ_le (Nat.le_of_eq less)
  · exact Nat.zero_le _

/-- A call is sent to a leaf, sent on with one hop less, or answered with a reply that has no more
hops and is routed at once.
-/
theorem onMessage_call {message : WireMessage} (call : message.isCall = true)
    : (∃ leafId delivered, delivered.isCall = true
        ∧ node.onMessage message = [.toLeaf leafId delivered])
      ∨ (∃ nodeId forwarded, forwarded.isCall = true
        ∧ forwarded.hops + 1 = message.hops
        ∧ node.onMessage message = [.toNode nodeId forwarded])
      ∨ ∃ reply, reply.isCall = false
        ∧ reply.hops ≤ message.hops
        ∧ node.onMessage message = .replied reply :: node.onMessage reply := by
  cases message with
  | response _ => cases call
  | streamFrame _ => cases call
  | streamClose _ => cases call
  | request request =>
      rw [onMessage, routeRequest]
      split
      · rename_i action routed
        rcases route_ok routed with rfl | ⟨rfl, hops⟩
        · exact .inl ⟨_, _, rfl, rfl⟩
        · refine .inr (.inl ⟨_, .request { request with hopLimit := request.hopLimit - 1 }, rfl, ?_, rfl⟩)
          exact hops_sub_one hops
      · rename_i error _
        refine .inr (.inr ⟨.response _, rfl, ?_, rfl⟩)
        exact replyHops_le request.hopLimit
  | streamOpen opening =>
      rw [onMessage, handleStreamOpen]
      split
      · rename_i action routed
        rcases route_ok routed with rfl | ⟨rfl, hops⟩
        · exact .inl ⟨_, _, rfl, rfl⟩
        · refine .inr (.inl ⟨_, .streamOpen { opening with hopLimit := opening.hopLimit - 1 }, rfl,
            ?_, rfl⟩)
          exact hops_sub_one hops
      · rename_i error _
        refine .inr (.inr ⟨.streamClose _, rfl, ?_, rfl⟩)
        exact replyHops_le opening.hopLimit

end NodeRuntime

-- One injected message

/-- How many of the actions taken for a tag are of a kind. -/
def tally (tag : Nat) (kind : RouteAction → Bool) (trace : List (Nat × RouteAction)) : Nat :=
  trace.countP fun entry => entry.1 = tag && kind entry.2

@[simp] theorem tally_append (tag : Nat) (kind : RouteAction → Bool)
    (front back : List (Nat × RouteAction))
    : tally tag kind (front ++ back) = tally tag kind front + tally tag kind back :=
  List.countP_append

@[simp] theorem tally_own (tag : Nat) (kind : RouteAction → Bool) (actions : List RouteAction)
    : tally tag kind (actions.map fun action => (tag, action)) = actions.countP kind := by
  rw [tally, List.countP_map]
  refine List.countP_congr fun action _ => ?_
  simp

theorem tally_other {tag : Nat} {kind : RouteAction → Bool} {trace : List (Nat × RouteAction)}
    (others : ∀ entry ∈ trace, entry.1 ≠ tag)
    : tally tag kind trace = 0 :=
  List.countP_eq_zero.mpr fun entry member => by simp [others entry member]

theorem tally_append_own (tag : Nat) (kind : RouteAction → Bool) (trace : List (Nat × RouteAction))
    (actions : List RouteAction)
    : tally tag kind (trace ++ actions.map fun action => (tag, action)) =
      tally tag kind trace + actions.countP kind := by
  rw [tally_append, tally_own]

open RouteAction

/-- What has become of an injected call: it is on its way, its reply is, or neither. The hops
used up and those left stay within the limit.
-/
inductive Fate (tag limit : Nat) (trace : List (Nat × RouteAction)) (packets : List Packet) : Prop
  | calling (packet : Packet) (only : packets = [packet]) (call : packet.message.isCall = true)
    (forwards : tally tag forwardsCall trace + packet.message.hops ≤ limit)
    (undelivered : tally tag deliversCall trace = 0) (unanswered : tally tag replies trace = 0)
    (unforwarded : tally tag forwardsReply trace = 0)
    (unreceived : tally tag deliversReply trace = 0)
  | replying (packet : Packet) (only : packets = [packet]) (reply : packet.message.isCall = false)
    (forwards : tally tag forwardsCall trace ≤ limit)
    (undelivered : tally tag deliversCall trace = 0) (answered : tally tag replies trace = 1)
    (replyForwards : tally tag forwardsReply trace + packet.message.hops ≤ limit)
    (unreceived : tally tag deliversReply trace = 0)
  | settled (none : packets = []) (forwards : tally tag forwardsCall trace ≤ limit)
    (outcome : tally tag deliversCall trace + tally tag replies trace ≤ 1)
    (replyForwards : tally tag forwardsReply trace ≤ limit)
    (received : tally tag deliversReply trace ≤ 1)

namespace Fate

variable {tag limit : Nat} {trace : List (Nat × RouteAction)} {packets : List Packet}

/-- Whatever has become of a call, it was forwarded within its limit and had one outcome. -/
theorem bounds (fate : Fate tag limit trace packets)
    : tally tag forwardsCall trace ≤ limit
      ∧ tally tag deliversCall trace + tally tag replies trace ≤ 1
      ∧ tally tag forwardsReply trace ≤ limit
      ∧ tally tag deliversReply trace ≤ 1 := by
  cases fate with
  | calling packet only call forwards undelivered unanswered unforwarded unreceived =>
      refine ⟨?_, ?_, ?_, ?_⟩ <;> omega
  | replying packet only reply forwards undelivered answered replyForwards unreceived =>
      refine ⟨?_, ?_, ?_, ?_⟩ <;> omega
  | settled none forwards outcome replyForwards received =>
      exact ⟨forwards, outcome, replyForwards, received⟩

theorem congr {other : List (Nat × RouteAction)} (fate : Fate tag limit trace packets)
    (same : ∀ kind, tally tag kind trace = tally tag kind other)
    : Fate tag limit other packets := by
  cases fate with
  | calling packet only call forwards undelivered unanswered unforwarded unreceived =>
      simp only [same] at forwards undelivered unanswered unforwarded unreceived
      exact .calling packet only call forwards undelivered unanswered unforwarded unreceived
  | replying packet only reply forwards undelivered answered replyForwards unreceived =>
      simp only [same] at forwards undelivered answered replyForwards unreceived
      exact .replying packet only reply forwards undelivered answered replyForwards unreceived
  | settled none forwards outcome replyForwards received =>
      simp only [same] at forwards outcome replyForwards received
      exact .settled none forwards outcome replyForwards received

/-- Handing over the message of a call, at any node, leads to the next fate. Witness: the reply
that a node makes starts with no more hops than the call had left.
-/
theorem handOver {packet : Packet} (fate : Fate tag limit trace [packet]) (node : NodeRuntime)
    : Fate tag limit
        (trace ++ (node.onMessage packet.message).map fun action => (tag, action))
        ((node.onMessage packet.message).filterMap (RouteAction.packet? tag)) := by
  cases fate with
  | calling carried only call forwards undelivered unanswered unforwarded unreceived =>
      obtain rfl := List.singleton_inj.mp only
      rcases node.onMessage_call call with ⟨leafId, delivered, isCall, acts⟩
        | ⟨nodeId, forwarded, isCall, hops, acts⟩ | ⟨reply, isReply, hops, acts⟩
      · rw [acts]
        refine .settled rfl ?_ ?_ ?_ ?_
        all_goals
          simp only [tally_append_own, List.countP_singleton, forwardsCall, deliversCall, replies,
            forwardsReply, deliversReply, isCall]
          grind
      · rw [acts]
        refine .calling { tag, message := forwarded } rfl isCall ?_ ?_ ?_ ?_ ?_
        all_goals
          simp only [tally_append_own, List.countP_singleton, forwardsCall, deliversCall, replies,
            forwardsReply, deliversReply, isCall]
          grind
      · rw [acts]
        rcases node.onMessage_reply isReply with none | ⟨leafId, delivered, isReply', leaf⟩
          | ⟨nodeId, forwarded, isReply', less, next⟩
        · rw [none]
          refine .settled rfl ?_ ?_ ?_ ?_
          all_goals
            simp only [tally_append_own, List.countP_singleton, forwardsCall, deliversCall, replies,
              forwardsReply, deliversReply]
            grind
        · rw [leaf]
          refine .settled rfl ?_ ?_ ?_ ?_
          all_goals
            simp only [tally_append_own, List.countP_cons, List.countP_nil, forwardsCall,
              deliversCall, replies, forwardsReply, deliversReply, isReply']
            grind
        · rw [next]
          refine .replying { tag, message := forwarded } rfl isReply' ?_ ?_ ?_ ?_ ?_
          all_goals
            simp only [tally_append_own, List.countP_cons, List.countP_nil, forwardsCall,
              deliversCall, replies, forwardsReply, deliversReply, isReply']
            grind
  | replying carried only reply forwards undelivered answered replyForwards unreceived =>
      obtain rfl := List.singleton_inj.mp only
      rcases node.onMessage_reply reply with none | ⟨leafId, delivered, isReply, leaf⟩
        | ⟨nodeId, forwarded, isReply, less, next⟩
      · rw [none]
        refine .settled rfl ?_ ?_ ?_ ?_
        all_goals
          simp only [tally_append_own, List.countP_nil]
          grind
      · rw [leaf]
        refine .settled rfl ?_ ?_ ?_ ?_
        all_goals
          simp only [tally_append_own, List.countP_singleton, forwardsCall, deliversCall, replies,
            forwardsReply, deliversReply, isReply]
          grind
      · rw [next]
        refine .replying { tag, message := forwarded } rfl isReply ?_ ?_ ?_ ?_ ?_
        all_goals
          simp only [tally_append_own, List.countP_singleton, forwardsCall, deliversCall, replies,
            forwardsReply, deliversReply, isReply]
          grind
  | settled none forwards outcome replyForwards received => cases none

end Fate

-- Networks

abbrev NetworkHistory := List (Stage MeshNetwork NetworkEvent (Nat × RouteAction))

namespace MeshNetwork

/-- The packets of an injected message. -/
def packetsOf (network : MeshNetwork) (tag : Nat) : List Packet :=
  network.inFlight.filter fun packet => packet.tag = tag

/-- Tags in use have been given out. -/
structure Tagged (history : NetworkHistory) (network : MeshNetwork) : Prop where
  packets : ∀ packet ∈ network.inFlight, packet.tag < network.injected
  trace : ∀ entry ∈ emitted history, entry.1 < network.injected

/-- What one step does: it adds a packet under a new tag, or takes one packet off and puts what
a node makes of it in its place, or leaves the packets alone.
-/
theorem step_cases {network after : MeshNetwork} {event : NetworkEvent}
    {outputs : List (Nat × RouteAction)} (taken : network.step event = .ok (after, outputs))
    : (∃ message, event = .inject message ∧ outputs = []
        ∧ after.inFlight = network.inFlight ++ [{ tag := network.injected, message }]
        ∧ after.injected = network.injected + 1)
      ∨ (∃ before packet behind node, network.inFlight = before ++ packet :: behind
        ∧ (∀ message, event ≠ .inject message)
        ∧ after.inFlight = before ++ behind
          ++ (NodeRuntime.onMessage node packet.message).filterMap
            (RouteAction.packet? packet.tag)
        ∧ after.injected = network.injected
        ∧ outputs = (node.onMessage packet.message).map fun action => (packet.tag, action))
      ∨ (∀ message, event ≠ .inject message)
        ∧ outputs = []
        ∧ after.inFlight = network.inFlight
        ∧ after.injected = network.injected := by
  cases event with
  | inject message =>
      cases taken
      exact .inl ⟨message, rfl, rfl, rfl, rfl⟩
  | handOver position recipient =>
      rw [step] at taken
      split at taken
      · rename_i packet node found resolved
        cases taken
        obtain ⟨bound, rfl⟩ := List.getElem?_eq_some_iff.mp found
        refine .inr (.inl ⟨network.inFlight.take position, network.inFlight[position],
          network.inFlight.drop (position + 1), node, ?_, fun _ => nofun, ?_, rfl, rfl⟩)
        · rw [List.getElem_cons_drop, List.take_append_drop]
        · rw [List.eraseIdx_eq_take_drop_succ]
      · cases taken
  | react index event =>
      rw [step] at taken
      split at taken
      · cases taken
        exact .inr (.inr ⟨fun _ => nofun, rfl, rfl, rfl⟩)
      · cases taken

theorem tag_of_packet? {tag : Nat} {actions : List RouteAction} {packet : Packet}
    (member : packet ∈ actions.filterMap (RouteAction.packet? tag))
    : packet.tag = tag := by
  obtain ⟨action, -, made⟩ := List.mem_filterMap.mp member
  cases action with
  | toLeaf _ _ => cases made
  | replied _ => cases made
  | toNode _ _ =>
      cases made
      rfl

variable {network after : MeshNetwork} {history : NetworkHistory} {event : NetworkEvent}
  {outputs : List (Nat × RouteAction)}

theorem Tagged.step (tagged : network.Tagged history)
    (taken : network.step event = .ok (after, outputs))
    : after.Tagged (history ++ [{ before := network, event, outputs }]) := by
  rcases step_cases taken with ⟨message, rfl, rfl, flight, next⟩
    | ⟨before, packet, behind, node, flight, -, flight', next, rfl⟩ | ⟨-, rfl, flight, next⟩
  · constructor
    · intro packet member
      rw [flight] at member
      rw [next]
      rcases List.mem_append.mp member with earlier | last
      · exact Nat.lt_succ_of_lt (tagged.packets packet earlier)
      · obtain rfl := List.mem_singleton.mp last
        exact Nat.lt_succ_self _
    · intro entry member
      rw [next]
      exact Nat.lt_succ_of_lt (tagged.trace entry (by simpa using member))
  · have own : packet.tag < network.injected := tagged.packets packet (by simp [flight])
    constructor
    · intro other member
      rw [flight'] at member
      rw [next]
      rcases List.mem_append.mp member with earlier | made
      · refine tagged.packets other ?_
        rw [flight]
        simp only [List.mem_append, List.mem_cons] at earlier ⊢
        exact earlier.imp_right .inr
      · rw [tag_of_packet? made]
        exact own
    · intro entry member
      rw [next]
      rw [emitted_append, emitted_singleton] at member
      rcases List.mem_append.mp member with earlier | now
      · exact tagged.trace entry earlier
      · obtain ⟨action, -, rfl⟩ := List.mem_map.mp now
        exact own
  · constructor
    · rw [flight, next]
      exact tagged.packets
    · intro entry member
      rw [next]
      exact tagged.trace entry (by simpa using member)

theorem fate_step {tag limit : Nat} (known : tag < network.injected)
    (fate : Fate tag limit (emitted history) (network.packetsOf tag))
    (taken : network.step event = .ok (after, outputs))
    : Fate tag limit (emitted (history ++ [{ before := network, event, outputs }]))
        (after.packetsOf tag) := by
  rw [emitted_append, emitted_singleton]
  rcases step_cases taken with ⟨message, rfl, rfl, flight, next⟩
    | ⟨before, packet, behind, node, flight, -, flight', next, rfl⟩ | ⟨-, rfl, flight, next⟩
  · have same : after.packetsOf tag = network.packetsOf tag := by
      simp [packetsOf, flight, Nat.ne_of_gt known]
    rw [same, List.append_nil]
    exact fate
  · by_cases own : packet.tag = tag
    · subst own
      have kept : ∀ made : List Packet, (∀ other ∈ made, other.tag = packet.tag)
          → made.filter (fun other => other.tag = packet.tag) = made :=
        fun made same => List.filter_eq_self.mpr fun other member => decide_eq_true (same other member)
      have held : network.packetsOf packet.tag =
          before.filter (fun other => other.tag = packet.tag) ++ packet ::
            behind.filter fun other => other.tag = packet.tag := by
        simp [packetsOf, flight]
      have alone : before.filter (fun other => other.tag = packet.tag) = []
          ∧ behind.filter (fun other => other.tag = packet.tag) = [] := by
        have single : (network.packetsOf packet.tag).length ≤ 1 := by
          cases fate with
          | calling carried only => simp [only]
          | replying carried only => simp [only]
          | settled none => simp [none]
        rw [held] at single
        simp only [List.length_append, List.length_cons] at single
        exact ⟨List.eq_nil_of_length_eq_zero (by omega), List.eq_nil_of_length_eq_zero (by omega)⟩
      rw [held, alone.1, alone.2, List.nil_append] at fate
      have left : after.packetsOf packet.tag =
          (node.onMessage packet.message).filterMap (RouteAction.packet? packet.tag) := by
        rw [packetsOf, flight', List.filter_append, List.filter_append, alone.1, alone.2]
        exact kept _ fun other member => tag_of_packet? member
      rw [left]
      exact fate.handOver node
    · have same : after.packetsOf tag = network.packetsOf tag := by
        have none : ((node.onMessage packet.message).filterMap
            (RouteAction.packet? packet.tag)).filter (fun other => other.tag = tag) = [] :=
          List.filter_eq_nil_iff.mpr fun other member same =>
            own ((tag_of_packet? member).symm.trans (of_decide_eq_true same))
        simp [packetsOf, flight, flight', none, own]
      have uncounted : ∀ kind, tally tag kind
          (emitted history ++ (node.onMessage packet.message).map fun action =>
            (packet.tag, action)) =
          tally tag kind (emitted history) := by
        intro kind
        have others : tally tag kind ((node.onMessage packet.message).map fun action =>
            (packet.tag, action)) = 0 := by
          refine tally_other fun entry member => ?_
          obtain ⟨action, -, rfl⟩ := List.mem_map.mp member
          exact own
        rw [tally_append, others, Nat.add_zero]
      rw [same]
      exact fate.congr fun kind => (uncounted kind).symm
  · have same : after.packetsOf tag = network.packetsOf tag := by simp [packetsOf, flight]
    rw [same, List.append_nil]
    exact fate

theorem run_tagged {allowed : NetworkHistory → MeshNetwork → NetworkEvent → Prop}
    {nodes : List NodeRuntime} (run : Run MeshNetwork.step allowed { nodes := nodes } history network)
    : network.Tagged history := by
  refine run.invariant (fun history network => network.Tagged history) ?_ ?_
  · exact ⟨fun packet member => absurd member List.not_mem_nil,
      fun entry member => absurd member List.not_mem_nil⟩
  · intro history network event after outputs _ tagged _ taken
    exact tagged.step taken

/-- In every run every injected call has a fate. Witness: its tag is new when it is injected, and
every later step carries its fate on.
-/
theorem run_fate {allowed : NetworkHistory → MeshNetwork → NetworkEvent → Prop}
    {nodes : List NodeRuntime} (run : Run MeshNetwork.step allowed { nodes := nodes } history network)
    {front back : NetworkHistory} {stage : Stage MeshNetwork NetworkEvent (Nat × RouteAction)}
    {message : WireMessage} (split : history = front ++ stage :: back)
    (injects : stage.event = .inject message) (call : message.isCall = true)
    : stage.before.injected < network.injected
      ∧ Fate stage.before.injected message.hops (emitted history)
        (network.packetsOf stage.before.injected) := by
  induction run generalizing back with
  | start => simp at split
  | @next earlier before after event outputs run permitted taken ih =>
      have tagged := run_tagged run
      rcases List.eq_nil_or_concat back with rfl | ⟨rest, last, rfl⟩
      · obtain ⟨rfl, same⟩ := List.append_inj' split rfl
        obtain rfl := List.head_eq_of_cons_eq same
        dsimp only at injects ⊢
        subst injects
        rw [MeshNetwork.step] at taken
        cases taken
        have absent : before.inFlight.filter (fun packet => packet.tag = before.injected) = [] :=
          List.filter_eq_nil_iff.mpr fun packet member same =>
            Nat.ne_of_lt (tagged.packets packet member) (of_decide_eq_true same)
        have uncounted : ∀ kind, tally before.injected kind (emitted earlier) = 0 := fun kind =>
          tally_other fun entry member => Nat.ne_of_lt (tagged.trace entry member)
        refine ⟨Nat.lt_succ_self _, .calling { tag := before.injected, message } ?_ call ?_ ?_ ?_
          ?_ ?_⟩
        · simp [packetsOf, absent]
        all_goals simp [uncounted]
      · rw [List.concat_eq_append, ← List.cons_append, ← List.append_assoc] at split
        obtain ⟨known, fate⟩ := ih (List.append_inj' split rfl).1
        refine ⟨?_, fate_step known fate taken⟩
        rcases step_cases taken with ⟨_, _, _, _, next⟩ | ⟨_, _, _, _, _, _, _, next, _⟩ | ⟨_, _, _, next⟩
        all_goals rw [next]
        · exact Nat.lt_succ_of_lt known
        · exact known
        · exact known

/-- Every injected request or opening of a stream, in every run of every network, is forwarded
between nodes within its hop limit and has at most one outcome: it is sent to one leaf, or one
reply is made for it. The reply is forwarded within the same limit and sent to at most one leaf.
-/
theorem routing_settles {nodes : List NodeRuntime}
    (run : Run MeshNetwork.step (fun _ _ _ => True) { nodes := nodes } history network)
    {front back : NetworkHistory} {stage : Stage MeshNetwork NetworkEvent (Nat × RouteAction)}
    {message : WireMessage} (split : history = front ++ stage :: back)
    (injects : stage.event = .inject message) (call : message.isCall = true)
    : let tag := stage.before.injected
      let trace := emitted history
      tally tag forwardsCall trace ≤ message.hops
      ∧ tally tag deliversCall trace + tally tag replies trace ≤ 1
      ∧ tally tag forwardsReply trace ≤ message.hops
      ∧ tally tag deliversReply trace ≤ 1 :=
  (run_fate run split injects call).2.bounds

/-- The node of a leaf, and a node without leaves. -/
def originAndFar : List NodeRuntime :=
  [
    {
      config := { id := [8] }
      leaves := (∅ : Std.TreeSet Bytes).insert [1]
      knownNodePeers := (∅ : Std.TreeSet Bytes).insert [9]
      versionCounter := 0
    },
    {
      config := { id := [9] }
      knownNodePeers := (∅ : Std.TreeSet Bytes).insert [8]
      versionCounter := 0
    }
  ]

/-- A request of the leaf for one that the other node does not have. -/
def requestToFar : WireMessage :=
  .request {
    originLeaf := [1]
    originNode := [8]
    destinationLeaf := [2]
    destinationNode := [9]
    hopLimit := 3
  }

/-- The request is forwarded to the other node and refused there; the reply is forwarded to the first node
and sent to the leaf.
-/
theorem routing_settles_refusedAfar
    : ∃ (history : NetworkHistory) (network : MeshNetwork),
      Run step (fun _ _ _ => True) { nodes := originAndFar } history network
      ∧ [forwardsCall, deliversCall, replies, forwardsReply, deliversReply].map
          (tally 0 · (emitted history)) = [1, 0, 1, 1, 1]
      ∧ tally 0 forwardsCall (emitted history) ≤ 3
      ∧ tally 0 deliversCall (emitted history) + tally 0 replies (emitted history) ≤ 1
      ∧ tally 0 forwardsReply (emitted history) ≤ 3
      ∧ tally 0 deliversReply (emitted history) ≤ 1 := by
  let arrivals : List NetworkEvent := [.handOver 0 0, .handOver 0 1, .handOver 0 0]
  let injected : MeshNetwork :=
    { nodes := originAndFar, inFlight := [{ tag := 0, message := requestToFar }], injected := 1 }
  rcases executed : execute step injected arrivals with fault | ⟨later, network⟩
  · have runs : (execute step injected arrivals).isOk = true := by decide +kernel
    rw [executed] at runs
    cases runs
  · let injecting : Stage MeshNetwork NetworkEvent (Nat × RouteAction) :=
      { before := { nodes := originAndFar }, event := .inject requestToFar, outputs := [] }
    have first : Run step (fun _ _ _ => True) { nodes := originAndFar } ([] ++ [injecting]) injected :=
      .next .start trivial rfl
    have run := first.extend executed
    have split : [] ++ [injecting] ++ later = [] ++ injecting :: later := rfl
    have settles := routing_settles run split (rfl : injecting.event = .inject requestToFar) rfl
    refine ⟨_, network, run, ?_, settles⟩
    have shown : shows step injected arrivals (fun history =>
        [forwardsCall, deliversCall, replies, forwardsReply, deliversReply].map
          (tally 0 · (emitted history)) = [1, 0, 1, 1, 1]) = true := by decide +kernel
    rw [shows, executed] at shown
    exact of_decide_eq_true shown

end MeshNetwork

end Creek.Mesh
