import Creek.Proofs.Tight.ByteOrder

/-! Encoding and decoding of datagrams are inverse to each other. -/

namespace Creek.Tight.PacketCodec

-- Layout of a datagram

/-- The header bytes that the checksum and the associated data cover. -/
def headFields (header : PacketHeader) : Bytes :=
  put32 header.magic
  ++ [header.version, header.type]
  ++ put16 header.flags
  ++ put32 header.clientId
  ++ put64 header.sessionId
  ++ put32 header.sequence
  ++ put32 header.acknowledgment
  ++ put32 header.messageId
  ++ put16 header.fragmentIndex
  ++ put16 header.fragmentCount
  ++ put16 header.payloadSize
  ++ put16 header.reserved
  ++ put32 header.tick

@[simp] theorem length_put16 (v : UInt16) : (put16 v).length = 2 := rfl

@[simp] theorem length_put32 (v : UInt32) : (put32 v).length = 4 := rfl

@[simp] theorem length_put64 (v : UInt64) : (put64 v).length = 8 := rfl

@[simp] theorem length_headFields (header : PacketHeader) : (headFields header).length = 44 := by
  simp [headFields]

/-- A serialized header is its covered bytes and a cleared checksum. -/
theorem encodeHeaderTo_eq (header : PacketHeader)
    : encodeHeaderTo header = headFields header ++ put32 0 := by
  rw [encodeHeaderTo, headFields]

/-- The first 44 bytes of a serialized header are the covered ones. -/
theorem take_encodeHeaderTo (header : PacketHeader) (rest : Bytes)
    : (encodeHeaderTo header ++ rest).take 44 = headFields header := by
  rw [encodeHeaderTo_eq, List.append_assoc, List.take_left' (length_headFields header)]

@[simp] theorem headFields_checksum (header : PacketHeader) (checksum : UInt32)
    : headFields { header with checksum := checksum } = headFields header :=
  rfl

/-- The checksum a datagram with this header and body carries. -/
def checksumOf (header : PacketHeader) (body : Bytes) : UInt32 :=
  crc32Compute (headFields header ++ [0, 0, 0, 0] ++ body)

theorem finalizeCrc_encodeHeaderTo (header : PacketHeader) (body : Bytes)
    : finalizeCrc (encodeHeaderTo header ++ body)
      = headFields header ++ put32 (checksumOf header body) ++ body := by
  have length : (encodeHeaderTo header).length = kHeaderSize := by
    simp [encodeHeaderTo_eq, kHeaderSize]
  have long : ¬(encodeHeaderTo header ++ body).length < kHeaderSize := by
    rw [List.length_append, length]
    omega
  rw [finalizeCrc, if_neg long]
  simp only [take_encodeHeaderTo, List.drop_left' length, checksumOf, crc32Compute]

-- Decoding an encoded datagram

theorem drop_put16 (v : UInt16) (rest : Bytes) (k : Nat)
    : (put16 v ++ rest).drop (k + 2) = rest.drop k := by
  rw [Nat.add_comm, ← List.drop_drop, List.drop_left' (length_put16 v)]

theorem drop_put32 (v : UInt32) (rest : Bytes) (k : Nat)
    : (put32 v ++ rest).drop (k + 4) = rest.drop k := by
  rw [Nat.add_comm, ← List.drop_drop, List.drop_left' (length_put32 v)]

theorem drop_put64 (v : UInt64) (rest : Bytes) (k : Nat)
    : (put64 v ++ rest).drop (k + 8) = rest.drop k := by
  rw [Nat.add_comm, ← List.drop_drop, List.drop_left' (length_put64 v)]

theorem get32_of_front {p : Bytes} {off : Nat} {v : UInt32}
    (written : put32 v <+: p.drop off)
    : get32 p off = v := by
  obtain ⟨rest, slice⟩ := written
  have byte (i : Nat) : p.getD (off + i) 0 = (put32 v ++ rest).getD i 0 := by
    rw [slice, List.getD_eq_getElem?_getD, List.getD_eq_getElem?_getD, List.getElem?_drop]
  rw [get32, ← Nat.add_zero off, Nat.add_assoc, Nat.add_assoc, Nat.add_assoc, byte, byte,
    byte, byte]
  exact get32_put32 v

@[inherit_doc get32_of_front]
theorem get16_of_front {p : Bytes} {off : Nat} {v : UInt16}
    (written : put16 v <+: p.drop off)
    : get16 p off = v := by
  obtain ⟨rest, slice⟩ := written
  have byte (i : Nat) : p.getD (off + i) 0 = (put16 v ++ rest).getD i 0 := by
    rw [slice, List.getD_eq_getElem?_getD, List.getD_eq_getElem?_getD, List.getElem?_drop]
  rw [get16, ← Nat.add_zero off, Nat.add_assoc, byte, byte]
  exact get16_put16 v

theorem getD_of_front {p : Bytes} {off : Nat} {v : UInt8} (written : [v] <+: p.drop off)
    : p.getD off 0 = v := by
  obtain ⟨rest, slice⟩ := written
  rw [List.getD_eq_getElem?_getD, ← Nat.add_zero off, ← List.getElem?_drop, ← slice]
  rfl

/-- Reading a serialized header returns it with the stored checksum.
Witness: each field is the prefix of what remains after the fields before it.
-/
theorem readHeader_headFields (header : PacketHeader) (checksum : UInt32) (body : Bytes)
    : readHeader (headFields header ++ put32 checksum ++ body)
      = { header with checksum := checksum } := by
  have session : get64 (headFields header ++ put32 checksum ++ body) 12 = header.sessionId := by
    have low : get32 (headFields header ++ put32 checksum ++ body) 12
        = header.sessionId.toUInt32 := by
      apply get32_of_front
      simp only [headFields, put64_eq, List.append_assoc, List.cons_append, List.nil_append,
        drop_put16, drop_put32, List.drop_succ_cons, List.drop_zero, List.prefix_append]
    have high : get32 (headFields header ++ put32 checksum ++ body) 16
        = (header.sessionId >>> 32).toUInt32 := by
      apply get32_of_front
      simp only [headFields, put64_eq, List.append_assoc, List.cons_append, List.nil_append,
        drop_put16, drop_put32, List.drop_succ_cons, List.drop_zero, List.prefix_append]
    rw [get64, low, high, join_toUInt32]
  rw [readHeader, PacketHeader.mk.injEq]
  refine ⟨get32_of_front ?_, getD_of_front ?_, getD_of_front ?_, get16_of_front ?_,
    get32_of_front ?_, session, get32_of_front ?_, get32_of_front ?_, get32_of_front ?_,
    get16_of_front ?_, get16_of_front ?_, get16_of_front ?_, get16_of_front ?_,
    get32_of_front ?_, get32_of_front ?_⟩
  all_goals
    simp only [headFields, List.append_assoc, List.cons_append, List.nil_append, drop_put16,
      drop_put32, drop_put64, List.drop_succ_cons, List.drop_zero, List.prefix_append,
      List.cons_prefix_cons, List.nil_prefix, and_self]

/-- A datagram with a stored checksum decodes when header constants, size and checksum are
right. What follows the body is not looked at.
-/
theorem decode_headFields_append {header : PacketHeader} {body rest : Bytes}
    (magic : header.magic = kMagic) (version : header.version = kVersion)
    (size : header.payloadSize.toNat = body.length)
    : decode (headFields header ++ put32 (checksumOf header body) ++ (body ++ rest))
      = some ({ header with checksum := checksumOf header body }, body) := by
  have read := readHeader_headFields header (checksumOf header body) (body ++ rest)
  generalize sent : headFields header ++ put32 (checksumOf header body) ++ (body ++ rest) = datagram
    at read ⊢
  have length : datagram.length = kHeaderSize + body.length + rest.length := by
    rw [← sent, kHeaderSize, List.length_append, List.length_append, List.length_append,
      length_headFields, length_put32]
    omega
  have front : datagram.take 44 = headFields header := by
    rw [← sent, List.append_assoc, List.take_left' (length_headFields header)]
  have back : datagram.drop kHeaderSize = body ++ rest := by
    rw [← sent, List.drop_left' (by simp [kHeaderSize])]
  have magicRead : get32 datagram 0 = kMagic :=
    (congrArg PacketHeader.magic read).trans magic
  have versionRead : datagram.getD 4 0 = kVersion :=
    (congrArg PacketHeader.version read).trans version
  have long : ¬datagram.length < kHeaderSize := by omega
  have room : ¬datagram.length < kHeaderSize + body.length := by omega
  have checksum
      : crc32Update (crc32Update (crc32Update 0xFFFFFFFF (headFields header)) [0, 0, 0, 0]) body
          ^^^ 0xFFFFFFFF
        = checksumOf header body := by
    rw [checksumOf, crc32Compute, crc32Update_append, crc32Update_append]
  rw [decode, if_neg long, if_neg (not_not_intro magicRead),
    if_neg (not_not_intro versionRead)]
  simp only [read, size, front, back, List.take_left, checksum, room, ne_eq, not_true_eq_false,
    if_false]

theorem decode_headFields {header : PacketHeader} {body : Bytes}
    (magic : header.magic = kMagic) (version : header.version = kVersion)
    (size : header.payloadSize.toNat = body.length)
    : decode (headFields header ++ put32 (checksumOf header body) ++ body)
      = some ({ header with checksum := checksumOf header body }, body) := by
  have decoded := @decode_headFields_append header body [] magic version size
  rwa [List.append_nil] at decoded

-- Encoding a decoded datagram

/-- The covered bytes of a read header are the bytes it was read from. -/
theorem headFields_readHeader {datagram : Bytes} (long : 48 ≤ datagram.length)
    : headFields (readHeader datagram) = datagram.take 44 := by
  have fields : headFields (readHeader datagram)
      = put32 (get32 datagram 0) ++ [datagram.getD 4 0] ++ [datagram.getD 5 0]
        ++ put16 (get16 datagram 6) ++ put32 (get32 datagram 8) ++ put64 (get64 datagram 12)
        ++ put32 (get32 datagram 20) ++ put32 (get32 datagram 24) ++ put32 (get32 datagram 28)
        ++ put16 (get16 datagram 32) ++ put16 (get16 datagram 34) ++ put16 (get16 datagram 36)
        ++ put16 (get16 datagram 38) ++ put32 (get32 datagram 40) :=
    rfl
  rw [fields, put32_get32 (by omega), getD_eq_take_drop (by omega),
    getD_eq_take_drop (by omega), put16_get16 (by omega), put32_get32 (by omega),
    put64_get64 (by omega), put32_get32 (by omega), put32_get32 (by omega),
    put32_get32 (by omega), put16_get16 (by omega), put16_get16 (by omega),
    put16_get16 (by omega), put16_get16 (by omega), put32_get32 (by omega), List.drop_zero]
  simp only [take_add_drop]

theorem decode_eq_some {datagram : Bytes} {header : PacketHeader} {payload : Bytes}
    (accepted : decode datagram = some (header, payload))
    : header = readHeader datagram
      ∧ kHeaderSize + header.payloadSize.toNat ≤ datagram.length
      ∧ payload = (datagram.drop kHeaderSize).take header.payloadSize.toNat
      ∧ checksumOf header payload = header.checksum
      ∧ header.magic = kMagic ∧ header.version = kVersion := by
  rw [decode] at accepted
  split at accepted
  · cases accepted
  rename_i long
  split at accepted
  · cases accepted
  rename_i magic
  split at accepted
  · cases accepted
  rename_i version
  simp only at accepted
  split at accepted
  · cases accepted
  rename_i room
  split at accepted
  · cases accepted
  rename_i checksum
  simp only [Option.some.injEq, Prod.mk.injEq] at accepted
  obtain ⟨rfl, rfl⟩ := accepted
  simp only [ne_eq, not_not, not_lt] at long magic version room checksum
  refine ⟨rfl, room, rfl, ?_, magic, version⟩
  rw [← checksum, checksumOf, headFields_readHeader long, crc32Compute, crc32Update_append,
    crc32Update_append]

/-- An accepted datagram without trailing bytes is the encoding of what was decoded. -/
theorem eq_encode_of_decode {datagram : Bytes} {header : PacketHeader} {payload : Bytes}
    (accepted : decode datagram = some (header, payload))
    (exact_ : datagram.length = kHeaderSize + payload.length)
    : datagram = encode header payload := by
  obtain ⟨read, room, body, checksum, -, -⟩ := decode_eq_some accepted
  have long : 48 ≤ datagram.length := by
    rw [exact_, kHeaderSize]
    omega
  have whole : payload = datagram.drop 48 := by
    rw [body, List.take_of_length_le]
    · rfl
    · rw [List.length_drop, exact_, body, List.length_take]
      omega
  have stored : put32 header.checksum = (datagram.drop 44).take 4 := by
    rw [read]
    exact put32_get32 (by omega)
  rw [encode, encodeTo, finalizeCrc_encodeHeaderTo, checksum, stored, read,
    headFields_readHeader long, take_add_drop, whole, List.take_append_drop]

end Creek.Tight.PacketCodec
