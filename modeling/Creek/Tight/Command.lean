import Creek.Tight.Peer

/-! The command channel: ordered delivery of single-datagram commands. -/

namespace Creek.Tight.CommandChannel

def kMaxWaitRtt : Nat := 3

/-- The reorder wait in nanoseconds; an unknown RTT counts as 10 ms. -/
def wait (rttUs : Nat) : Int := kMaxWaitRtt * (if rttUs > 0 then rttUs else 10000 : Nat) * 1000

/-- The `while` loop of `drain_locked`: every pass removes one held command. -/
def drainLoop : Nat → CommandState → List Bytes → CommandState × List Bytes
  | 0, channel, out => (channel, out)
  | fuel + 1, channel, out =>
      match channel.held[channel.nextExpected]? with
      | none => (channel, out)
      | some payload =>
          drainLoop fuel
            {
              channel with
              held := channel.held.erase channel.nextExpected
              nextExpected := u32 (channel.nextExpected + 1)
            }
            (out ++ [payload])

def drainLocked (channel : CommandState) (out : List Bytes) : CommandState × List Bytes :=
  drainLoop channel.held.size channel out

def expireLocked (channel : CommandState) (rttUs : Nat) (now : TimePoint) (out : List Bytes)
    : CommandState × List Bytes :=
  if channel.held.isEmpty then (channel, out)
  else if now - channel.gapSince < wait rttUs then (channel, out)
  else
    let drained := drainLocked { channel with nextExpected := channel.held.minKeyD 0 } out
    if drained.1.held.isEmpty then drained
    else ({ drained.1 with gapSince := now }, drained.2)

/-- An arriving command and the payloads it makes ready for delivery. -/
def handle (channel : CommandState) (header : PacketHeader) (payload : Bytes) (rttUs : Nat)
    (now : TimePoint)
    : CommandState × List Bytes :=
  let seq := header.sequence.toNat
  if seq = 0 then (channel, [])
  else
    let channel :=
      if channel.initialized then channel
      else { channel with nextExpected := seq, initialized := true }
    if seq < channel.nextExpected then (channel, [])
    else if seq = channel.nextExpected then
      drainLocked { channel with nextExpected := u32 (channel.nextExpected + 1) } [payload]
    else
      expireLocked
        {
          channel with
          gapSince := if channel.held.isEmpty then now else channel.gapSince
          held := channel.held.insertIfNew seq payload
        }
        rttUs now []

def flushExpired (channel : CommandState) (rttUs : Nat) (now : TimePoint)
    : CommandState × List Bytes :=
  expireLocked channel rttUs now []

/-- Both directions start over. -/
def reset (_channel : CommandState) : CommandState := {}

end Creek.Tight.CommandChannel
