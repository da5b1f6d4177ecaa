import Creek.Tight.Types

/-! The wire codec: byte order helpers, CRC-32, header serialization and decoding.
Multi-byte fields are converted by `toBe*` and then copied as a little-endian host stores
them, as the source does with `memcpy`.
-/

namespace Creek.Tight

-- Byte order conversion and host loads and stores

def toBe16 (v : UInt16) : UInt16 :=
  ((v &&& 0x00FF) <<< 8) ||| ((v &&& 0xFF00) >>> 8)

def toBe32 (v : UInt32) : UInt32 :=
  ((v &&& 0x000000FF) <<< 24) ||| ((v &&& 0x0000FF00) <<< 8)
  ||| ((v &&& 0x00FF0000) >>> 8) ||| ((v &&& 0xFF000000) >>> 24)

def toBe64 (v : UInt64) : UInt64 :=
  ((toBe32 (v >>> 32).toUInt32).toUInt64 <<< 32) ||| (toBe32 v.toUInt32).toUInt64

/-- `memcpy` of a value out of a little-endian host. -/
def store16 (v : UInt16) : Bytes := [v.toUInt8, (v >>> 8).toUInt8]

@[inherit_doc store16]
def store32 (v : UInt32) : Bytes :=
  [v.toUInt8, (v >>> 8).toUInt8, (v >>> 16).toUInt8, (v >>> 24).toUInt8]

@[inherit_doc store16]
def store64 (v : UInt64) : Bytes :=
  store32 v.toUInt32 ++ store32 (v >>> 32).toUInt32

/-- `memcpy` of two bytes into a value of a little-endian host. -/
def load16 (b0 b1 : UInt8) : UInt16 := b0.toUInt16 ||| b1.toUInt16 <<< 8

@[inherit_doc load16]
def load32 (b0 b1 b2 b3 : UInt8) : UInt32 :=
  b0.toUInt32 ||| b1.toUInt32 <<< 8 ||| b2.toUInt32 <<< 16 ||| b3.toUInt32 <<< 24

def put16 (v : UInt16) : Bytes := store16 (toBe16 v)
def put32 (v : UInt32) : Bytes := store32 (toBe32 v)
def put64 (v : UInt64) : Bytes := store64 (toBe64 v)

def get16 (p : Bytes) (off : Nat) : UInt16 :=
  toBe16 (load16 (p.getD off 0) (p.getD (off + 1) 0))

def get32 (p : Bytes) (off : Nat) : UInt32 :=
  toBe32
    (load32 (p.getD off 0) (p.getD (off + 1) 0) (p.getD (off + 2) 0) (p.getD (off + 3) 0))

/-- The decoder reads the low word of a 64-bit field first. -/
def get64 (p : Bytes) (off : Nat) : UInt64 :=
  ((get32 p (off + 4)).toUInt64 <<< 32) ||| (get32 p off).toUInt64

-- CRC-32

/-- One of the eight shifts that build a table entry. -/
def crcTableStep (c : UInt32) : UInt32 :=
  if c &&& 1 ≠ 0 then (0xEDB88320 : UInt32) ^^^ (c >>> 1) else c >>> 1

/-- The table entry of one byte value. -/
def crcTable (i : UInt32) : UInt32 := Nat.repeat crcTableStep 8 i

def crc32Update (crc : UInt32) (data : Bytes) : UInt32 :=
  data.foldl (fun crc byte => crcTable ((crc ^^^ byte.toUInt32) &&& 0xFF) ^^^ (crc >>> 8)) crc

def crc32Compute (data : Bytes) : UInt32 := crc32Update 0xFFFFFFFF data ^^^ 0xFFFFFFFF

/-- Streaming a checksum over two pieces is one pass over their concatenation. -/
theorem crc32Update_append (crc : UInt32) (left right : Bytes)
    : crc32Update crc (left ++ right) = crc32Update (crc32Update crc left) right := by
  simp only [crc32Update, List.foldl_append]

-- Header and datagram codec

namespace PacketCodec

/-- The 48 header bytes with the CRC field zeroed. The payload size is taken from the
header, not from a payload.
-/
def encodeHeaderTo (header : PacketHeader) : Bytes :=
  put32 header.magic
  ++ [header.version, header.type]
  ++ put16 header.flags
  ++ put32 header.clientId
  ++ put64 header.sessionId
  ++ put32 header.sequence
  ++ put32 header.acknowledgment
  ++ put32 header.messageId
  ++ put16 header.fragmentIndex
  ++ put16 header.fragmentCount
  ++ put16 header.payloadSize
  ++ put16 header.reserved
  ++ put32 header.tick
  ++ put32 0

/-- Computes the CRC of an assembled datagram with its CRC field zeroed and stores it. -/
def finalizeCrc (datagram : Bytes) : Bytes :=
  if datagram.length < kHeaderSize then
    datagram
  else
    let cleared := datagram.take 44 ++ [0, 0, 0, 0] ++ datagram.drop kHeaderSize
    let crc := crc32Update 0xFFFFFFFF cleared
    datagram.take 44 ++ put32 (crc ^^^ 0xFFFFFFFF) ++ datagram.drop kHeaderSize

def encodeTo (header : PacketHeader) (payload : Bytes) : Bytes :=
  finalizeCrc (encodeHeaderTo header ++ payload)

def encode (header : PacketHeader) (payload : Bytes) : Bytes := encodeTo header payload

/-- The header fields read from the first 48 bytes. -/
def readHeader (p : Bytes) : PacketHeader where
  magic := get32 p 0
  version := p.getD 4 0
  type := p.getD 5 0
  flags := get16 p 6
  clientId := get32 p 8
  sessionId := get64 p 12
  sequence := get32 p 20
  acknowledgment := get32 p 24
  messageId := get32 p 28
  fragmentIndex := get16 p 32
  fragmentCount := get16 p 34
  payloadSize := get16 p 36
  reserved := get16 p 38
  tick := get32 p 40
  checksum := get32 p 44

def decode (p : Bytes) : Option (PacketHeader × Bytes) :=
  if p.length < kHeaderSize then none
  else if get32 p 0 ≠ kMagic then none
  else if p.getD 4 0 ≠ kVersion then none
  else
    let header := readHeader p
    let payloadSize := header.payloadSize.toNat
    if p.length < kHeaderSize + payloadSize then none
    else
      let payload := (p.drop kHeaderSize).take payloadSize
      let crc := crc32Update 0xFFFFFFFF (p.take 44)
      let crc := crc32Update crc [0, 0, 0, 0]
      let crc := crc32Update crc payload
      if crc ^^^ 0xFFFFFFFF ≠ header.checksum then none
      else some (header, payload)

end PacketCodec

end Creek.Tight
