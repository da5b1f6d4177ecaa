import Creek.Tight.LossTable
import Creek.Tight.PendingTable

/-! One direction of a link whose ends both retransmit: a record that numbers and keeps what it sends,
and a record that tracks what arrives and reports on it.
The network may lose, delay, reorder and repeat the packets and the reports.
-/

namespace Creek.Tight

/-- The two records, and all packets and reports that have been sent, oldest first. -/
structure Repair where
  sender : Peer := {}
  receiver : Peer := {}
  packets : List (PacketHeader × Bytes) := []
  reports : List Bytes := []

/-- What happens on the link. The acknowledgement of a control packet and a heartbeat are what they
change in the records; packets and reports arrive by their places among those sent.
-/
inductive RepairEvent where
  | send (call : FragmentCall) (moment : Moment)
  | control (type : PacketType) (payload : Bytes) (moment : Moment)
  | acknowledged (seq : Nat)
  | arrive (index : Nat) (context : Reassembler.Context)
  | heartbeat (senderRttUs : Nat)
  | report (reportInterval : Int) (now : TimePoint)
  | reported (index : Nat) (now : TimePoint)

/-- What a report makes the sender do: it sends a kept packet again, or removes one. -/
inductive RepairEffect where
  | resent (seq : Nat)
  | removed (seq : Nat) (entry : PendingSend)
  deriving DecidableEq

namespace Repair

/-- A packet as it is handed to the wire. Parity packets have no number. -/
def packet (identity : Identity) (moment : Moment) (call : FragmentCall) (sender : Peer)
    : PacketHeader × Bytes :=
  let seq := if PendingTable.ackable call then sender.sequenceOut else 0
  (PendingTable.dataHeader identity moment call seq, call.payload)

/-- A handler of the sender on its record. -/
def onSender (handler : Link → Link) (repair : Repair) : Repair :=
  { repair with sender := (handler { key := [], peer := repair.sender, rttUs := 0 }).peer }

/-- The kept packets that a report has removed. -/
def removed (before after : Peer) : List (Nat × PendingSend) :=
  before.pending.toList.filter fun entry => !after.pending.contains entry.1

/-- The packet at a place, if the reassembler handles its type. -/
def dataAt (repair : Repair) (index : Nat) : Option (PacketHeader × Bytes) :=
  repair.packets[index]?.filter fun packet =>
    packet.1.type = PacketType.data.code || packet.1.type = PacketType.parity.code

def step (numerics : Numerics) (identity : Identity) (repair : Repair)
    : RepairEvent → Except Library.Fault (Repair × List RepairEffect)
  | .send call moment =>
      let sent := packet identity moment call repair.sender
      let repair := repair.onSender (Link.sendDataPacket identity moment call)
      .ok ({ repair with packets := repair.packets ++ [sent] }, [])
  | .control type payload moment =>
      .ok (repair.onSender (Link.sendControl identity moment type payload true), [])
  | .acknowledged seq =>
      let sender := { repair.sender with pending := repair.sender.pending.erase seq }
      .ok ({ repair with sender }, [])
  | .arrive index context =>
      match repair.dataAt index with
      | none => .ok (repair, [])
      | some (header, payload) =>
          match Reassembler.handleData numerics repair.receiver header payload context with
          | .error fault => .error fault
          | .ok (receiver, _) => .ok ({ repair with receiver }, [])
  | .heartbeat senderRttUs =>
      .ok ({ repair with receiver := { repair.receiver with senderRttUs } }, [])
  | .report reportInterval now =>
      let (receiver, payload) := Report.buildPayload numerics repair.receiver reportInterval now
      .ok ({ repair with receiver, reports := repair.reports ++ [payload] }, [])
  | .reported index now =>
      match repair.reports[index]? with
      | none => .ok (repair, [])
      | some payload =>
          let (sender, resends) := Report.handle repair.sender payload now
          let packets := repair.packets ++ resends.map fun entry => (entry.header, entry.payload)
          .ok
            (
              { repair with sender, packets },
              (resends.map fun entry => .resent entry.header.sequence.toNat)
              ++ (removed repair.sender sender).map fun entry => .removed entry.1 entry.2
            )

end Repair

abbrev RepairStage := Library.Stage Repair RepairEvent RepairEffect

/-- The number of the packet that arrives, if any. -/
def RepairStage.number (stage : RepairStage) : Option Nat :=
  match stage.event with
  | .arrive index _ => (stage.before.dataAt index).map fun packet => packet.1.sequence.toNat
  | _ => none

/-- The numbers of all packets that have arrived in a run. -/
def arrivedIn (history : List RepairStage) : List Nat := history.filterMap RepairStage.number

/-- How often a packet has been sent again in a run. -/
def resendsIn (history : List RepairStage) (seq : Nat) : Nat :=
  (history.flatMap fun stage => stage.outputs).count (.resent seq)

end Creek.Tight
