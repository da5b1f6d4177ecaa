import Creek.Library.Runs
import Creek.Tight.Link

/-! The pending table of one peer between its threads.
Each mutex-protected section is one step: the two sections of `send_data_packet`, `handle_ack`, the
prune and the retry updates of `Report::handle`, and the clear of `check_offline`. The sections of
different threads follow each other in any order.
-/

namespace Creek.Tight

/-- The table, the senders that are between their two sections, each with its sequence and the
size of its datagram, and the sequences whose retry update a report still owes.
-/
structure PendingTable where
  sequenceOut : Nat := 1
  pending : Std.TreeMap Nat PendingSend := ∅
  sending : List (Nat × Nat) := []
  resending : List Nat := []

/-- One section. `keep` is whether both ends retransmit; `finish` and `retry` name the thread that
goes on by its position.
-/
inductive PendingEvent where
  | insert (call : FragmentCall) (moment : Moment) (keep : Bool) (wireSize : Nat)
  | finish (position : Nat)
  | ack (seq : Nat)
  | prune (report : Report.Contents)
  | retry (position : Nat) (now : TimePoint)
  | clear

namespace PendingTable

/-- The header a data fragment is sent with, under a sequence. -/
def dataHeader (identity : Identity) (moment : Moment) (call : FragmentCall) (seq : Nat)
    : PacketHeader :=
  {
    call.header with
    clientId := identity.clientId
    sessionId := identity.sessionId
    tick := moment.tick
    sequence := UInt32.ofNat seq
  }

/-- Whether a fragment is acknowledged: parity fragments are not. -/
def ackable (call : FragmentCall) : Bool := call.header.type = PacketType.data.code

/-- The first section of `send_data_packet`. The entry of a reused sequence keeps its retries. -/
def insert (identity : Identity) (call : FragmentCall) (moment : Moment) (keep : Bool)
    (wireSize : Nat) (table : PendingTable)
    : PendingTable :=
  if ackable call then
    let seq := table.sequenceOut
    let table := { table with sequenceOut := u32 (seq + 1) }
    if keep then
      let entry :=
        {
          header := dataHeader identity moment call seq
          payload := call.payload
          lastSend := moment.now
          bytes := 0
          retries := (table.pending.getD seq {}).retries
        }
      {
        table with
        pending := table.pending.insert seq entry
        sending := table.sending ++ [(seq, wireSize)]
      }
    else
      table
  else
    table

/-- The second section of `send_data_packet`: `operator[]` makes an entry where there is none. -/
def finish (position : Nat) (table : PendingTable) : PendingTable :=
  match table.sending[position]? with
  | none => table
  | some (seq, wireSize) =>
      let entry := { table.pending.getD seq {} with bytes := wireSize }
      {
        table with
        pending := table.pending.insert seq entry
        sending := table.sending.eraseIdx position
      }

/-- The section of `handle_ack`; an acknowledgement of zero is none. -/
def ack (seq : Nat) (table : PendingTable) : PendingTable :=
  if seq = 0 then table else { table with pending := table.pending.erase seq }

/-- The section of `Report::handle` that takes the snapshot to resend and prunes. -/
def prune (report : Report.Contents) (table : PendingTable) : PendingTable :=
  {
    table with
    pending := table.pending.filter fun seq entry => !Report.pruned report seq entry
    resending := table.resending ++ (Report.resent table.pending report).map Prod.fst
  }

/-- The section of `Report::handle` after a resend. -/
def retry (position : Nat) (now : TimePoint) (table : PendingTable) : PendingTable :=
  match table.resending[position]? with
  | none => table
  | some seq =>
      {
        table with
        pending := Report.countResend now table.pending seq
        resending := table.resending.eraseIdx position
      }

/-- The section of `check_offline` for a dead peer. -/
def clear (table : PendingTable) : PendingTable := { table with pending := ∅ }

def apply (identity : Identity) (table : PendingTable) : PendingEvent → PendingTable
  | .insert call moment keep wireSize => table.insert identity call moment keep wireSize
  | .finish position => table.finish position
  | .ack seq => table.ack seq
  | .prune report => table.prune report
  | .retry position now => table.retry position now
  | .clear => table.clear

/-- One section as a step without outputs. -/
def step (identity : Identity) (table : PendingTable) (event : PendingEvent)
    : Except Library.Fault (PendingTable × List Unit) :=
  .ok (table.apply identity event, [])

end PendingTable

abbrev PendingStage := Library.Stage PendingTable PendingEvent Unit

/-- What a history says of every sequence: which packet to keep was last sent under it, and whether
an acknowledgement has been processed since.
-/
structure PendingLedger where
  sent : Nat → Option (PacketHeader × Bytes) := fun _ => none
  acked : Nat → Bool := fun _ => false

/-- Notes one section. A report acknowledges every sequence up to its cursor that it does not list
as lost.
-/
def PendingLedger.record (identity : Identity) (ledger : PendingLedger) (stage : PendingStage)
    : PendingLedger :=
  match stage.event with
  | .insert call moment keep _ =>
      if PendingTable.ackable call && keep then
        let seq := stage.before.sequenceOut
        let packet := (PendingTable.dataHeader identity moment call seq, call.payload)
        {
          sent := fun other => if other = seq then some packet else ledger.sent other
          acked := fun other => if other = seq then false else ledger.acked other
        }
      else
        ledger
  | .ack seq =>
      { ledger with acked := fun other => ledger.acked other || (other = seq && seq ≠ 0) }
  | .prune report =>
      {
        ledger with
        acked := fun other =>
          ledger.acked other || (other ≤ report.ackSeq && !report.lost.contains other)
      }
  | _ => ledger

/-- The ledger of a whole history. -/
def PendingLedger.of (identity : Identity) (history : List PendingStage) : PendingLedger :=
  history.foldl (PendingLedger.record identity) {}

end Creek.Tight
