import Creek.Proofs.Tight.Handshake
import Creek.Proofs.Tight.WireRoundTrip

/-! What a datagram can tell its receiver about keys. However a handshake or its acknowledgement was
sent, plain or sealed, whole or cut where its size wraps, no other public key is read from it than the
one its sender announces.
-/

namespace Creek.Tight

open PacketCodec Crypto

-- Decoding what was finalized

/-- A receive buffer of any size shows the header, but for the checksum, and the front of the body. -/
theorem decode_take_finalizeCrc {header received : PacketHeader} {body payload : Bytes} {buffer : Nat}
    (decoded : decode ((finalizeCrc (encodeHeaderTo header ++ body)).take buffer)
      = some (received, payload))
    : ∃ checksum, received = { header with checksum := checksum }
      ∧ payload = body.take header.payloadSize.toNat
      ∧ header.payloadSize.toNat ≤ body.length := by
  obtain ⟨read, room, cut, -⟩ := decode_eq_some decoded
  have front : (headFields header ++ put32 (checksumOf header body)).length = kHeaderSize := by
    rw [List.length_append, length_headFields, length_put32, kHeaderSize]
  rw [finalizeCrc_encodeHeaderTo, List.take_append, front] at read room cut
  have whole : kHeaderSize ≤ buffer := by
    rw [List.length_append, List.length_take, List.length_take, front] at room
    omega
  rw [List.take_of_length_le (front.le.trans whole)] at read room cut
  rw [readHeader_headFields] at read
  have size : received.payloadSize = header.payloadSize := by rw [read]
  rw [size, List.length_append, front, List.length_take] at room
  have inside : header.payloadSize.toNat ≤ min (buffer - kHeaderSize) body.length := by omega
  refine ⟨_, read, ?_, inside.trans (min_le_right _ _)⟩
  rw [cut, size, List.drop_left' front, List.take_take,
    Nat.min_eq_left (inside.trans (min_le_left _ _))]

/-- Opening changes neither the type of a packet nor its sender. -/
theorem openPayload_header {receiver : Peer} {header : PacketHeader} {payload : Bytes}
    {opened : PacketHeader × Bytes} (ran : openPayload receiver header payload = some opened)
    : opened.1.type = header.type ∧ opened.1.clientId = header.clientId := by
  unfold openPayload at ran
  split at ran
  · unfold decryptPayload at ran
    split at ran
    · cases ran
    · split at ran
      · cases ran
      · obtain ⟨plaintext, -, rfl⟩ := Option.map_eq_some_iff.mp ran
        exact ⟨rfl, rfl⟩
  · obtain rfl := Option.some.inj ran
    exact ⟨rfl, rfl⟩

/-- Whatever part of a sealed payload opens under its key and nonce, opens to a part of the plaintext.
-/
theorem decryptPayload_prefix {receiver : Peer} {header : PacketHeader} {input : Seal} {size : Nat}
    {opened : PacketHeader × Bytes} (key : receiver.cryptoKey = input.key)
    (nonce : buildNonce header = input.nonce) (short : size ≤ input.output.length)
    (ran : decryptPayload receiver header (input.output.take size) = some opened)
    : opened.2 <+: input.plaintext := by
  unfold decryptPayload at ran
  split at ran
  · cases ran
  · split at ran
    · cases ran
    · rename_i long
      obtain ⟨plaintext, accepted, rfl⟩ := Option.map_eq_some_iff.mp ran
      have cut : (input.output.take size).length = size := by
        rw [List.length_take, Nat.min_eq_left short]
      rw [Seal.length_output] at short
      rw [cut] at long accepted
      have front : ((input.output.take size).take (size - kGcmTagSize))
          = (aes256GcmCrypt (expandKey input.key) (gcmJ0 input.nonce) input.plaintext).take
            (size - kGcmTagSize) := by
        rw [List.take_take, Nat.min_eq_left (Nat.sub_le _ _), Seal.output, aes256GcmEncrypt,
          List.take_append_of_le_length]
        rw [length_aes256GcmCrypt]
        omega
      rw [front, aes256GcmDecrypt, key, nonce, aes256GcmCrypt_take,
        aes256GcmCrypt_aes256GcmCrypt] at accepted
      split at accepted
      · cases accepted
      · obtain rfl := Option.some.inj accepted
        exact List.take_prefix _ _

-- What packets announce

namespace Link

/-- The payload that goes with a type that announces a public key. -/
def announcement (identity : Identity) (type : UInt8) : Option Bytes :=
  if type = PacketType.handshake.code then some (handshakePayload identity)
  else if type = PacketType.handshakeAck.code then some (announcedKey identity ++ capabilities identity)
  else none

/-- A packet from this end that announces what the end announces, or a part of it. -/
structure Announces (identity : Identity) (header : PacketHeader) (payload : Bytes) : Prop where
  clientId : header.clientId = identity.clientId
  shown : ∀ whole, announcement identity header.type = some whole → payload <+: whole

/-- Such a packet as it is kept or sent: in plain, and no longer than it says. -/
structure Outgoing (identity : Identity) (header : PacketHeader) (payload : Bytes) : Prop
    extends Announces identity header payload where
  claim : ∀ whole, announcement identity header.type = some whole
    → header.payloadSize.toNat ≤ payload.length
  plain : ∀ whole, announcement identity header.type = some whole → header.flags = 0

/-- A datagram that announces nothing else to whoever holds no key but this one. -/
def Truthful (identity : Identity) (key : Option Bytes) (datagram : Bytes) : Prop :=
  ∀ receiver header payload opened, decode (datagram.take 2048) = some (header, payload)
    → (receiver.cryptoReady = true → key = some receiver.cryptoKey)
    → openPayload receiver header payload = some opened
    → Announces identity opened.1 opened.2

variable {identity : Identity} {key : Option Bytes} {header : PacketHeader} {payload body : Bytes}

theorem truthful_of_none (clientId : header.clientId = identity.clientId)
    (silent : announcement identity header.type = none)
    : Truthful identity key (finalizeCrc (encodeHeaderTo header ++ body)) := by
  intro receiver received read opened decoded _ ran
  obtain ⟨checksum, rfl, -⟩ := decode_take_finalizeCrc decoded
  obtain ⟨type, sender⟩ := openPayload_header ran
  refine ⟨sender.trans clientId, ?_⟩
  intro whole announced
  rw [type] at announced
  cases silent.symm.trans announced

theorem Outgoing.truthful_plain (outgoing : Outgoing identity header payload)
    (front : ∀ whole, announcement identity header.type = some whole
      → body.take header.payloadSize.toNat <+: payload)
    : Truthful identity key (finalizeCrc (encodeHeaderTo header ++ body)) := by
  rcases announced : announcement identity header.type with _ | whole
  · exact truthful_of_none outgoing.clientId announced
  · intro receiver received read opened decoded _ ran
    obtain ⟨checksum, rfl, rfl, -⟩ := decode_take_finalizeCrc decoded
    have unmarked : ¬header.flags &&& kFlagEncrypted ≠ 0 := by
      rw [outgoing.plain whole announced]
      decide
    rw [openPayload, if_neg unmarked] at ran
    obtain rfl := Option.some.inj ran
    refine ⟨outgoing.clientId, ?_⟩
    intro whole announced
    exact (front whole announced).trans (outgoing.shown whole announced)

theorem Outgoing.truthful_encode (outgoing : Outgoing identity header payload)
    : Truthful identity key (PacketCodec.encode header payload) := by
  rw [PacketCodec.encode, encodeTo]
  exact outgoing.truthful_plain fun _ _ => List.take_prefix _ _

/-- Sealed under the key, a packet is read by its holders only, and they read the front of it. -/
theorem Outgoing.truthful_buildWirePacket (outgoing : Outgoing identity header payload)
    {encryptionEnabled : Bool} {sender : Peer}
    (keyed : sender.cryptoReady = true → key = some sender.cryptoKey)
    : Truthful identity key (buildWirePacket encryptionEnabled sender header payload) := by
  rcases mode : encryptionEnabled && sender.cryptoReady with _ | _
  · simp only [buildWirePacket, sealOf, mode, wireHeader, Bool.false_eq_true, if_false]
    refine outgoing.truthful_plain ?_
    intro whole announced
    have short := outgoing.claim whole announced
    rw [fillPayload, List.take_append_of_le_length short, List.take_take, Nat.min_self]
    exact List.take_prefix _ _
  · obtain ⟨onWire, marked⟩ : ∃ onWire, onWire = wireHeader true header payload := ⟨_, rfl⟩
    have sameType : onWire.type = header.type := by rw [marked]; rfl
    have sameSender : onWire.clientId = header.clientId := by rw [marked]; rfl
    simp only [buildWirePacket, sealOf, mode, if_true, ← marked]
    rcases announced : announcement identity header.type with _ | whole
    · exact truthful_of_none (sameSender.trans outgoing.clientId) (by rw [sameType, announced])
    · intro receiver received read opened decoded holds ran
      obtain ⟨checksum, rfl, rfl, -⟩ := decode_take_finalizeCrc decoded
      obtain ⟨type, clientId⟩ := openPayload_header ran
      refine ⟨clientId.trans (sameSender.trans outgoing.clientId), ?_⟩
      intro other announcedToo
      refine List.IsPrefix.trans ?_ (outgoing.shown other (by rw [← sameType, ← type, announcedToo]))
      have mark : onWire.flags &&& kFlagEncrypted ≠ 0 := by
        rw [marked, wireHeader, if_pos rfl, or_kFlagEncrypted_and]
        decide
      rw [openPayload, if_pos mark] at ran
      have ready : receiver.cryptoReady = true := by
        by_contra unready
        rw [decryptPayload, if_pos unready] at ran
        cases ran
      have same : receiver.cryptoKey = sender.cryptoKey :=
        Option.some.inj ((holds ready).symm.trans (keyed (Bool.and_eq_true_iff.mp mode).2))
      generalize inputs : Seal.mk sender.cryptoKey (buildNonce onWire)
        ((encodeHeaderTo onWire).take 44) payload = input at ran
      have short : onWire.payloadSize.toNat ≤ input.output.length := by
        rw [Seal.length_output, ← inputs, marked, wireHeader, if_pos rfl]
        exact Nat.mod_le _ _
      rw [fillPayload, List.take_append_of_le_length short, List.take_take, Nat.min_self] at ran
      have front := decryptPayload_prefix (by rw [same, ← inputs]) (by rw [← inputs]; rfl) short ran
      rwa [← inputs] at front

-- What is read from a part of an announcement

/-- An end with its id cut, as a handshake cuts it. -/
def withCutId (identity : Identity) : Identity :=
  { identity with config := { identity.config with id := identity.config.id.take 65535 } }

theorem handshakePayload_withCutId (identity : Identity)
    : handshakePayload (withCutId identity) = handshakePayload identity := by
  simp only [handshakePayload, withCutId, announcedKey, capabilities, List.length_take,
    List.take_take, Nat.min_comm, Nat.min_left_comm, Nat.min_self]
  rfl

/-- The length of the id, as it is read from a handshake that is not cut before the id. -/
theorem idSize_of_prefix (front : payload <+: handshakePayload identity) (long : 3 ≤ payload.length)
    : idSize payload = (withCutId identity).config.id.length := by
  have small : (withCutId identity).config.id.length ≤ 65535 := by
    rw [withCutId, List.length_take]
    exact min_le_left _ _
  obtain ⟨rest, split⟩ := front
  have size := (announcedFront_fields small ((withCutId identity).config.token
    ++ (announcedKey (withCutId identity) ++ capabilities (withCutId identity)))).2.1
  have shape := handshakePayload_eq small
  rw [handshakePayload_withCutId, ← split] at shape
  simp only [announcedFront, List.append_assoc] at size shape
  rw [← shape, List.getD_append _ _ _ _ (by omega), List.getD_append _ _ _ _ (by omega)] at size
  exact size

/-- What is read as the token, where a public key follows it, ends 33 bytes before the end. -/
theorem length_token_of_peerPub {contents : HandshakeContents}
    (parsed : parseHandshake true payload = some contents) {pub : Bytes}
    (carried : contents.peerPub = some pub)
    : payload.length = 3 + idSize payload + contents.token.length + 33 := by
  unfold parseHandshake at parsed
  split at parsed
  · cases parsed
  · dsimp only at parsed
    split at parsed
    · cases parsed
    · obtain rfl := Option.some.inj parsed
      dsimp only at carried ⊢
      rw [← idSize] at carried ⊢
      by_cases flagged : payload.length > 3 + idSize payload
      · rw [if_pos flagged] at carried ⊢
        by_cases tail : payload.length - 1 ≥ 3 + idSize payload + 32
        · rw [decide_eq_true tail, Bool.true_and, if_pos rfl, List.length_drop, List.length_take]
          omega
        · rw [decide_eq_false tail, Bool.and_false, if_neg Bool.false_ne_true] at carried
          cases carried
      · have short : ¬payload.length ≥ 3 + idSize payload + 32 := by omega
        rw [if_neg flagged, decide_eq_false short, Bool.and_false, if_neg Bool.false_ne_true] at carried
        cases carried

/-- A part of a handshake that carries the token and a public key is the whole handshake: the key
follows the token, and what is cut off shortens the token that is read.
-/
theorem peerPub_of_prefix (key : identity.publicKey.length = 32)
    (enabled : identity.config.encryptionEnabled = true) (front : payload <+: handshakePayload identity)
    {contents : HandshakeContents} (parsed : parseHandshake true payload = some contents)
    (token : contents.token = identity.config.token) {pub : Bytes}
    (carried : contents.peerPub = some pub)
    : pub = identity.publicKey := by
  have small : (withCutId identity).config.id.length ≤ 65535 := by
    rw [withCutId, List.length_take]
    exact min_le_left _ _
  have shape := handshakePayload_eq small
  have length := @length_handshakePayload (withCutId identity) key small
  have whole := @parseHandshake_handshakePayload (withCutId identity) key small
  rw [handshakePayload_withCutId] at length whole shape
  rw [show (withCutId identity).config.encryptionEnabled = true from enabled] at length whole
  have same : payload = handshakePayload identity := by
    have long : 3 ≤ payload.length := by
      rw [length_token_of_peerPub parsed carried]
      omega
    refine front.eq_of_length_le ?_
    rw [length, length_token_of_peerPub parsed carried, idSize_of_prefix front long, token]
    exact Nat.le_refl _
  rw [same, whole] at parsed
  obtain rfl := Option.some.inj parsed
  rw [announced] at carried
  dsimp only at carried
  rw [if_pos (show (withCutId identity).config.encryptionEnabled = true from enabled)] at carried
  exact (Option.some.inj carried).symm

theorem acknowledgedKey_of_prefix (key : identity.publicKey.length = 32)
    (enabled : identity.config.encryptionEnabled = true)
    (front : payload <+: announcedKey identity ++ capabilities identity) {pub : Bytes}
    (carried : acknowledgedKey true payload = some pub)
    : pub = identity.publicKey := by
  have length : (announcedKey identity ++ capabilities identity).length = 33 := by
    rw [List.length_append, length_announcedKey key, if_pos enabled]
    rfl
  rw [acknowledgedKey] at carried
  split at carried
  · rename_i long
    have same := front.eq_of_length_le (length.le.trans long.2)
    rw [same, length, Nat.sub_self, List.drop_zero, announcedKey, if_pos enabled,
      List.take_left' key] at carried
    exact (Option.some.inj carried).symm
  · cases carried

end Link

end Creek.Tight
