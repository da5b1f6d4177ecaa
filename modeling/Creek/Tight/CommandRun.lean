import Creek.Library.CheckedAccess
import Creek.Library.Runs
import Creek.Tight.Command

/-! The command channel of one peer over time: the receiver thread hands in the commands that arrive,
the reactor thread checks for gaps that have lasted too long.
-/

namespace Creek.Tight

/-- A call of the command channel. -/
inductive CommandCall where
  | handle (header : PacketHeader) (payload : Bytes) (rttUs : Nat) (now : TimePoint)
  | flushExpired (rttUs : Nat) (now : TimePoint)

namespace CommandChannel

/-- The payloads a call delivers with their sequence numbers. A call delivers consecutive commands, and
the last of them moves the expected number behind it.
-/
def numbered (result : CommandState × List Bytes) : List (Nat × Bytes) :=
  (List.range' (result.1.nextExpected - result.2.length) result.2.length).zip result.2

/-- One call; it puts out the numbered payloads it delivers. -/
def step (channel : CommandState) (call : CommandCall)
    : Except Library.Fault (CommandState × List (Nat × Bytes)) :=
  let result :=
    match call with
    | .handle header payload rttUs now => handle channel header payload rttUs now
    | .flushExpired rttUs now => flushExpired channel rttUs now
  .ok (result.1, numbered result)

end CommandChannel

abbrev CommandStage := Library.Stage CommandState CommandCall (Nat × Bytes)

/-- The numbered packet a call hands in. -/
def CommandCall.packet : CommandCall → Option (Nat × Bytes)
  | .handle header payload _ _ => some (header.sequence.toNat, payload)
  | .flushExpired _ _ => none

end Creek.Tight
