import Creek.Proofs.Tight.AesGcm
import Creek.Proofs.Tight.PacketCodec
import Creek.Tight.WirePacket

/-! What one end puts on the wire is what the other end hands to dispatch. -/

namespace Creek.Tight

open PacketCodec

-- The encryption mark

/-- Marking a header whose low flag bits are free sets the mark. -/
theorem or_kFlagEncrypted_and (flags : UInt16)
    : (flags ||| kFlagEncrypted) &&& kFlagEncrypted = kFlagEncrypted := by
  apply UInt16.toBitVec_inj.mp
  rw [UInt16.toBitVec_and, UInt16.toBitVec_or]
  ext i bound
  simp only [BitVec.getElem_and, BitVec.getElem_or]
  exact Bool.and_eq_right_iff_imp.mpr fun set => by rw [set, Bool.or_true]

private theorem getLsbD_of_lt {flags : UInt16} (low : flags < kFlagEncrypted) {i : Nat}
    (set : flags.toBitVec.getLsbD i = true)
    : kFlagEncrypted.toBitVec.getLsbD i = false := by
  have value : flags.toNat < 2 ^ 15 := UInt16.lt_iff_toNat_lt.mp low
  by_cases small : i < 15
  · have mark : ∀ j < 15, kFlagEncrypted.toBitVec.getLsbD j = false := by decide
    exact mark i small
  · have clear : flags.toNat.testBit i = false :=
      Nat.testBit_lt_two_pow
        (Nat.lt_of_lt_of_le value (Nat.pow_le_pow_right (by decide) (by omega)))
    rw [BitVec.getLsbD, UInt16.toNat_toBitVec, clear] at set
    cases set

theorem and_kFlagEncrypted_of_lt {flags : UInt16} (low : flags < kFlagEncrypted)
    : flags &&& kFlagEncrypted = 0 := by
  apply UInt16.toBitVec_inj.mp
  apply BitVec.eq_of_getLsbD_eq
  intro i bound
  rw [UInt16.toBitVec_and, BitVec.getLsbD_and]
  cases set : flags.toBitVec.getLsbD i with
  | false => simp
  | true => rw [getLsbD_of_lt low set, Bool.and_false]; simp

theorem or_kFlagEncrypted_clear {flags : UInt16} (low : flags < kFlagEncrypted)
    : (flags ||| kFlagEncrypted) &&& ~~~kFlagEncrypted = flags := by
  apply UInt16.toBitVec_inj.mp
  apply BitVec.eq_of_getLsbD_eq
  intro i bound
  rw [UInt16.toBitVec_and, UInt16.toBitVec_or, UInt16.toBitVec_not, BitVec.getLsbD_and,
    BitVec.getLsbD_or, BitVec.getLsbD_not]
  cases set : flags.toBitVec.getLsbD i with
  | false => cases kFlagEncrypted.toBitVec.getLsbD i <;> simp
  | true => rw [getLsbD_of_lt low set]; simp [bound]

-- Sealed payloads

/-- A sealed payload is sixteen bytes longer than its plaintext. -/
theorem Seal.length_output (input : Seal)
    : input.output.length = input.plaintext.length + kGcmTagSize := by
  simp [Seal.output, Crypto.aes256GcmEncrypt, kGcmTagSize]

/-- Neither nonce nor associated data depends on the checksum a decoded header carries. -/
theorem buildNonce_checksum (header : PacketHeader) (checksum : UInt32)
    : buildNonce { header with checksum := checksum } = buildNonce header :=
  rfl

theorem fillPayload_self (body : Bytes) : fillPayload body.length body = body := by
  simp [fillPayload]

theorem decryptPayload_append {receiver : Peer} {header : PacketHeader} {ct tag : Bytes}
    (ready : receiver.cryptoReady) (tagLength : tag.length = kGcmTagSize)
    : decryptPayload receiver header (ct ++ tag)
      = (Crypto.aes256GcmDecrypt receiver.cryptoKey (buildNonce header) (headFields header) ct
          tag).map
          fun plaintext =>
            (
              {
                header with
                payloadSize := UInt16.ofNat ct.length
                flags := header.flags &&& ~~~kFlagEncrypted
              },
              plaintext
            ) := by
  have aad : (encodeTo header []).take 44 = headFields header := by
    rw [encodeTo, finalizeCrc_encodeHeaderTo, List.append_assoc,
      List.take_left' (length_headFields _)]
  have length : (ct ++ tag).length = ct.length + kGcmTagSize := by
    rw [List.length_append, tagLength]
  have cut : (ct ++ tag).length - kGcmTagSize = ct.length := by omega
  rw [decryptPayload, if_neg (by simp [ready]), if_neg (by omega)]
  simp only [cut, aad, List.take_left', List.drop_left']

/-- Opening a sealed payload under its wire header, whatever the checksum, restores header
and payload.
-/
theorem decryptPayload_output {receiver : Peer} {header onWire : PacketHeader}
    {payload : Bytes} {checksum : UInt32}
    (ready : receiver.cryptoReady) (low : header.flags < kFlagEncrypted)
    (size : payload.length = header.payloadSize.toNat)
    (marked : onWire = wireHeader true header payload)
    : decryptPayload receiver { onWire with checksum := checksum }
        (Seal.output
          {
            key := receiver.cryptoKey
            nonce := buildNonce onWire
            aad := headFields onWire
            plaintext := payload
          })
      = some ({ header with checksum := checksum }, payload) := by
  have tagLength (key nonce aad plaintext : Bytes)
      : (Crypto.aes256GcmEncrypt key nonce aad plaintext).2.length = kGcmTagSize := by
    simp [Crypto.aes256GcmEncrypt, kGcmTagSize]
  have ctLength (key nonce aad plaintext : Bytes)
      : (Crypto.aes256GcmEncrypt key nonce aad plaintext).1.length = plaintext.length := by
    simp [Crypto.aes256GcmEncrypt]
  simp only [Seal.output, decryptPayload_append ready (tagLength _ _ _ _),
    buildNonce_checksum, headFields_checksum, Crypto.aes256GcmDecrypt_aes256GcmEncrypt,
    Option.map_some, ctLength, size, UInt16.ofNat_toNat]
  simp only [marked, wireHeader, if_true, or_kFlagEncrypted_clear low]

-- Round trips

/-- The outcome of decoding a datagram and opening its payload, as the receiver does. -/
def receive (receiver : Peer) (datagram : Bytes) : Option (PacketHeader × Bytes) :=
  (decode datagram).bind fun packet => openPayload receiver packet.1 packet.2

/-- The payload as it goes on the wire. -/
def wireBody (encryptionEnabled : Bool) (sender : Peer) (header : PacketHeader) (payload : Bytes)
    : Bytes :=
  match sealOf encryptionEnabled sender header payload with
  | some input => input.output
  | none => payload

section
variable {encryptionEnabled : Bool} {sender receiver : Peer} {header : PacketHeader} {payload : Bytes}

theorem length_wireBody (size : payload.length = header.payloadSize.toNat)
    (room : payload.length + kGcmTagSize ≤ 65535)
    : (wireHeader (encryptionEnabled && sender.cryptoReady) header payload).payloadSize.toNat
      = (wireBody encryptionEnabled sender header payload).length := by
  simp only [wireBody, sealOf, wireHeader]
  cases encryptionEnabled && sender.cryptoReady with
  | false => exact size.symm
  | true =>
      simp only [if_true, Seal.length_output]
      exact Nat.mod_eq_of_lt (by omega)

/-- A datagram is the encoding of a wire header and what follows it. -/
theorem buildWirePacket_eq_encode (size : payload.length = header.payloadSize.toNat)
    (room : payload.length + kGcmTagSize ≤ 65535)
    : buildWirePacket encryptionEnabled sender header payload
      = encode (wireHeader (encryptionEnabled && sender.cryptoReady) header payload)
          (wireBody encryptionEnabled sender header payload) := by
  have filled := fillPayload_self (wireBody encryptionEnabled sender header payload)
  rw [← length_wireBody size room] at filled
  rw [encode, encodeTo, ← filled]
  rfl

theorem wireHeader_marked (header : PacketHeader) (payload : Bytes)
    : (wireHeader true header payload).flags &&& kFlagEncrypted ≠ 0 := by
  rw [wireHeader, if_pos rfl, or_kFlagEncrypted_and]
  decide

/-- What goes on the wire opens at an end that holds the key it is sealed with, if it is. -/
theorem openPayload_wireBody
    (holds : (encryptionEnabled && sender.cryptoReady) = true
      → receiver.cryptoReady = true ∧ receiver.cryptoKey = sender.cryptoKey)
    (low : header.flags < kFlagEncrypted) (size : payload.length = header.payloadSize.toNat)
    (checksum : UInt32)
    : openPayload receiver
        { wireHeader (encryptionEnabled && sender.cryptoReady) header payload with checksum }
        (wireBody encryptionEnabled sender header payload)
      = some ({ header with checksum }, payload) := by
  cases mode : encryptionEnabled && sender.cryptoReady with
  | false =>
      simp only [openPayload, wireBody, sealOf, mode, wireHeader, Bool.false_eq_true, if_false,
        and_kFlagEncrypted_of_lt low, ne_eq, not_true_eq_false]
  | true =>
      obtain ⟨ready, sameKey⟩ := holds mode
      obtain ⟨onWire, marked⟩ : ∃ onWire, onWire = wireHeader true header payload := ⟨_, rfl⟩
      have mark : onWire.flags &&& kFlagEncrypted ≠ 0 := marked ▸ wireHeader_marked header payload
      have aad : (encodeHeaderTo onWire).take 44 = headFields onWire := by
        simpa only [List.append_nil] using take_encodeHeaderTo onWire []
      have sealed : wireBody encryptionEnabled sender header payload = Seal.output
          {
            key := receiver.cryptoKey
            nonce := buildNonce onWire
            aad := headFields onWire
            plaintext := payload
          } := by
        simp only [wireBody, sealOf, mode, if_true, ← marked, aad, sameKey]
      rw [← marked, openPayload, if_pos mark, sealed]
      exact decryptPayload_output ready low size marked

end

/-- Every packet survives the way through the wire, sealed or not, and a datagram accepted
without trailing bytes is the encoding of what it decodes to.
-/
theorem receive_buildWirePacket
    : (∀ (encryptionEnabled : Bool) (sender receiver : Peer) (header : PacketHeader)
          (payload : Bytes),
        header.magic = kMagic → header.version = kVersion
        → header.flags < kFlagEncrypted
        → payload.length = header.payloadSize.toNat → payload.length + kGcmTagSize ≤ 65535
        → (sender.cryptoReady → receiver.cryptoReady)
        → receiver.cryptoKey = sender.cryptoKey
        → ∃ checksum,
            receive receiver (buildWirePacket encryptionEnabled sender header payload)
            = some ({ header with checksum := checksum }, payload))
      ∧ ∀ (datagram : Bytes) (header : PacketHeader) (payload : Bytes),
          decode datagram = some (header, payload)
          → datagram.length = kHeaderSize + payload.length
          → datagram = encode header payload := by
  refine ⟨?_, fun _ _ _ => eq_encode_of_decode⟩
  intro encryptionEnabled sender receiver header payload magic version low size room ready
    sameKey
  have holds : (encryptionEnabled && sender.cryptoReady) = true
      → receiver.cryptoReady = true ∧ receiver.cryptoKey = sender.cryptoKey := by
    intro mode
    exact ⟨ready (Bool.and_eq_true_iff.mp mode).2, sameKey⟩
  refine ⟨checksumOf (wireHeader (encryptionEnabled && sender.cryptoReady) header payload)
    (wireBody encryptionEnabled sender header payload), ?_⟩
  rw [receive, buildWirePacket_eq_encode size room, encode, encodeTo, finalizeCrc_encodeHeaderTo,
    decode_headFields (by rw [← magic, wireHeader]; split <;> rfl)
      (by rw [← version, wireHeader]; split <;> rfl) (length_wireBody size room), Option.bind_some]
  exact openPayload_wireBody holds low size _

/-- A sealed three-byte data packet survives the wire. -/
theorem receive_buildWirePacket_threeBytes
    : ∃ checksum,
        receive { cryptoReady := true }
            (buildWirePacket true { cryptoReady := true }
              { magic := kMagic, version := kVersion, type := 5, flags := 1, payloadSize := 3 }
              [1, 2, 3])
        = some
            (
              {
                magic := kMagic, version := kVersion, type := 5, flags := 1, payloadSize := 3,
                checksum := checksum
              },
              [1, 2, 3]
            ) :=
  receive_buildWirePacket.1 true { cryptoReady := true } { cryptoReady := true }
    { magic := kMagic, version := kVersion, type := 5, flags := 1, payloadSize := 3 }
    [1, 2, 3] rfl rfl (by decide) rfl (by decide) id rfl

end Creek.Tight
