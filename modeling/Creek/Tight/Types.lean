import Mathlib

/-! Packet, link and wire vocabulary shared by the tight transport units.
Fixed-width header fields keep the widths of the source; counters and sizes that the
source keeps in `std::size_t` or in a `Peer` record are natural numbers.
-/

namespace Creek.Tight

/-- A byte string: the source's `Bytes`, `PooledBytes` and fixed byte arrays. -/
abbrev Bytes := List UInt8

/-- A `steady_clock` time point, in nanoseconds. -/
abbrev TimePoint := Int

/-- The packet kinds of the wire protocol. -/
inductive PacketType where
  | handshake
  | handshakeAck
  | online
  | heartbeat
  | bye
  | data
  | parity
  | ack
  | report
  | probe
  | command
  deriving DecidableEq, Repr

/-- The wire value of a packet kind. -/
def PacketType.code : PacketType → UInt8
  | .handshake => 0
  | .handshakeAck => 1
  | .online => 2
  | .heartbeat => 3
  | .bye => 4
  | .data => 5
  | .parity => 6
  | .ack => 7
  | .report => 8
  | .probe => 9
  | .command => 10

/-- The packet kind a received type byte selects in the dispatch `switch`, if any. -/
def PacketType.ofCode? (code : UInt8) : Option PacketType :=
  if code = 0 then some .handshake
  else if code = 1 then some .handshakeAck
  else if code = 2 then some .online
  else if code = 3 then some .heartbeat
  else if code = 4 then some .bye
  else if code = 5 then some .data
  else if code = 6 then some .parity
  else if code = 7 then some .ack
  else if code = 8 then some .report
  else if code = 9 then some .probe
  else if code = 10 then some .command
  else none

@[simp] theorem PacketType.ofCode?_code (type : PacketType)
    : PacketType.ofCode? type.code = some type := by
  cases type <;> rfl

theorem PacketType.code_of_ofCode? {code : UInt8} {type : PacketType}
    (selected : PacketType.ofCode? code = some type)
    : code = type.code := by
  unfold PacketType.ofCode? at selected
  repeat' split at selected
  all_goals first
    | (obtain rfl := Option.some.inj selected; assumption)
    | cases selected

/-- The fixed 48-byte packet header. `type` is the raw byte: a decoded packet may carry a
value outside `PacketType`.
-/
structure PacketHeader where
  magic : UInt32 := 0
  version : UInt8 := 0
  type : UInt8 := 0
  flags : UInt16 := 0
  clientId : UInt32 := 0
  sessionId : UInt64 := 0
  sequence : UInt32 := 0
  acknowledgment : UInt32 := 0
  messageId : UInt32 := 0
  fragmentIndex : UInt16 := 0
  fragmentCount : UInt16 := 0
  payloadSize : UInt16 := 0
  reserved : UInt16 := 0
  tick : UInt32 := 0
  checksum : UInt32 := 0
  deriving DecidableEq, Repr

/-- The role an end announces in its handshake. -/
inductive LinkRole where
  | leaf
  | node
  deriving DecidableEq, Repr

/-- The wire value of a role. -/
def LinkRole.code : LinkRole → UInt8
  | .leaf => 0
  | .node => 1

/-- The life cycle of a link. -/
inductive LinkState where
  | closed
  | handshake
  | established
  | online
  deriving DecidableEq, Repr

/-- What the peer callback is told. -/
structure PeerEvent where
  id : Bytes
  role : LinkRole
  state : LinkState
  clientId : UInt32
  deriving DecidableEq, Repr

/-- An IPv4 source address, the key of the address index. -/
structure AddrKey where
  addr : UInt32
  port : UInt16
  deriving DecidableEq, Repr

def kMagic : UInt32 := 0x54474854
def kVersion : UInt8 := 1
def kHeaderSize : Nat := 48
def kFlagEncrypted : UInt16 := 0x8000
def kGcmNonceSize : Nat := 12
def kGcmTagSize : Nat := 16

/-- Wrap-around of a 16-bit, 32-bit or 64-bit unsigned value. -/
def u16 (value : Nat) : Nat := value % 2 ^ 16
@[inherit_doc u16] def u32 (value : Nat) : Nat := value % 2 ^ 32
@[inherit_doc u16] def u64 (value : Nat) : Nat := value % 2 ^ 64

end Creek.Tight
