import Creek.Library.Runs
import Creek.Tight.Report

/-! The loss table of a peer over time: the receiver thread tracks the packets that arrive, the
reactor thread builds reports, in any order and at any times.
-/

namespace Creek.Tight

/-- What happens to the loss table: a packet arrives, a report is built, or another handler sets what
reports read: whether both ends retransmit, and the RTT of the sender.
-/
inductive LossEvent where
  | data (header : PacketHeader) (payload : Bytes) (context : Reassembler.Context)
  | report (reportInterval : Int) (now : TimePoint)
  | tune (retransmit peerRetransmit : Bool) (senderRttUs : Nat)

namespace LossTable

/-- The lost sequences a report lists. -/
def listed (peer : Peer) (reportInterval : Int) (now : TimePoint) : List Nat :=
  let lost := (Report.scan peer reportInterval now).2
  lost.take (Report.lostCount lost)

/-- One event; a report puts out what it lists. -/
def step (numerics : Numerics) (peer : Peer)
    : LossEvent → Except Library.Fault (Peer × List Nat)
  | .data header payload context =>
      match Reassembler.handleData numerics peer header payload context with
      | .error fault => .error fault
      | .ok (next, _) => .ok (next, [])
  | .report reportInterval now =>
      .ok
        (
          (Report.buildPayload numerics peer reportInterval now).1,
          listed peer reportInterval now
        )
  | .tune retransmit peerRetransmit senderRttUs =>
      .ok
        (
          {
            peer with
            retransmit := retransmit
            peerRetransmit := peerRetransmit
            senderRttUs := senderRttUs
          },
          []
        )

end LossTable

abbrev LossStage := Library.Stage Peer LossEvent Nat

/-- The number of an arriving packet. An unnumbered packet has none. -/
def LossEvent.number : LossEvent → Option Nat
  | .data header _ _ => if header.sequence.toNat = 0 then none else some header.sequence.toNat
  | _ => none

/-- The numbers of all packets that have arrived in a run. -/
def receivedIn (history : List LossStage) : List Nat :=
  history.filterMap fun stage => stage.event.number

end Creek.Tight
