import Creek.Proofs.Tight.HandlerFrames

/-! The handshake payload: what its sender announces is what its receiver reads, and what a
rejected one leaves behind.
The token has no length of its own: it is what remains between the id, whose length is written in
front of it, and the tail, whose length the encryption setting fixes.
-/

namespace Creek.Tight.Link

variable {sender receiver identity : Identity} {payload : Bytes}

-- Round trip

/-- What an end announces in its handshakes. -/
def announced (identity : Identity) : HandshakeContents where
  role := identity.config.role.code
  id := identity.config.id
  token := identity.config.token
  peerPub := if identity.config.encryptionEnabled then some identity.publicKey else none
  peerRetransmit := some identity.config.retransmitEnabled

theorem toNat_lengthBytes {size : Nat} (small : size ≤ 65535)
    : (UInt8.ofNat (size / 256)).toNat * 256 + (UInt8.ofNat size).toNat = size := by
  simp only [UInt8.toNat_ofNat']
  omega

/-- The two parts of the tail: the key of fixed length and the capability byte. -/
theorem length_announcedKey (key : identity.publicKey.length = 32)
    : (announcedKey identity).length = if identity.config.encryptionEnabled then 32 else 0 := by
  rw [announcedKey]
  split
  · exact key
  · rfl

theorem handshakePayload_eq (small : identity.config.id.length ≤ 65535)
    : handshakePayload identity
      = [
          identity.config.role.code,
          UInt8.ofNat (identity.config.id.length / 256),
          UInt8.ofNat identity.config.id.length
        ]
        ++ identity.config.id ++ identity.config.token ++ announcedKey identity
        ++ capabilities identity := by
  rw [handshakePayload, Nat.min_eq_left small, List.take_of_length_le (Nat.le_refl _)]

theorem length_handshakePayload (key : identity.publicKey.length = 32)
    (small : identity.config.id.length ≤ 65535)
    : (handshakePayload identity).length
      = 3 + identity.config.id.length + identity.config.token.length
        + (if identity.config.encryptionEnabled then 32 else 0) + 1 := by
  rw [handshakePayload_eq small]
  simp only [List.length_append, List.length_cons, List.length_nil, length_announcedKey key,
    capabilities]

theorem length_id_le (fits : (handshakePayload identity).length ≤ 65535)
    : identity.config.id.length ≤ 65535 := by
  by_contra long
  have cut : min identity.config.id.length 65535 = 65535 := by omega
  have taken : (identity.config.id.take 65535).length = 65535 := by
    rw [List.length_take]
    omega
  rw [handshakePayload, cut] at fits
  simp only [List.length_append, List.length_cons, taken] at fits
  omega

/-- The bytes in front of the token: the role, the length of the id and the id. -/
def announcedFront (identity : Identity) : Bytes :=
  [
    identity.config.role.code,
    UInt8.ofNat (identity.config.id.length / 256),
    UInt8.ofNat identity.config.id.length
  ]
  ++ identity.config.id

theorem length_announcedFront (identity : Identity)
    : (announcedFront identity).length = 3 + identity.config.id.length := by
  rw [announcedFront, List.length_append]
  rfl

/-- The fields in front of the token, whatever follows them. -/
theorem announcedFront_fields (small : identity.config.id.length ≤ 65535) (rest : Bytes)
    : (announcedFront identity ++ rest).getD 0 0 = identity.config.role.code
      ∧ ((announcedFront identity ++ rest).getD 1 0).toNat * 256
          + ((announcedFront identity ++ rest).getD 2 0).toNat
        = identity.config.id.length
      ∧ ((announcedFront identity ++ rest).drop 3).take identity.config.id.length
        = identity.config.id := by
  refine ⟨rfl, toNat_lengthBytes small, ?_⟩
  simp only [announcedFront, List.cons_append, List.nil_append, List.drop_succ_cons,
    List.drop_zero, List.take_left]

/-- The token and what follows it, found behind the front by the length of the token. -/
theorem announcedFront_token (identity : Identity) (rest : Bytes)
    : ((announcedFront identity ++ (identity.config.token ++ rest)).take
          (3 + identity.config.id.length + identity.config.token.length)).drop
            (3 + identity.config.id.length)
        = identity.config.token
      ∧ (announcedFront identity ++ (identity.config.token ++ rest)).drop
          (3 + identity.config.id.length + identity.config.token.length)
        = rest := by
  have front := length_announcedFront identity
  have read : (announcedFront identity ++ identity.config.token).length
      = 3 + identity.config.id.length + identity.config.token.length := by
    rw [List.length_append, front]
  rw [← List.append_assoc]
  exact ⟨by rw [List.take_left' read, List.drop_left' front], List.drop_left' read⟩

theorem flag_capabilities_iff (identity : Identity) (front : Bytes)
    : ((front ++ capabilities identity).getD ((front ++ capabilities identity).length - 1) 0
        &&& 0x01 ≠ 0)
      ↔ identity.config.retransmitEnabled = true := by
  have last : (front ++ capabilities identity).getD ((front ++ capabilities identity).length - 1) 0
      = if identity.config.retransmitEnabled then 0x01 else 0x00 := by
    rw [capabilities, List.length_append, List.getD_eq_getElem?_getD,
      List.getElem?_append_right (by simp)]
    simp
  rw [last]
  cases identity.config.retransmitEnabled <;> decide

/-- Reading a payload gives what its sender announces. Witness: the id is found by its length, the
tail by its fixed length, and the token is the rest, whatever its bytes are.
-/
theorem parseHandshake_handshakePayload (key : identity.publicKey.length = 32)
    (small : identity.config.id.length ≤ 65535)
    : parseHandshake identity.config.encryptionEnabled (handshakePayload identity)
      = some (announced identity) := by
  have length := length_handshakePayload key small
  have shape : handshakePayload identity
      = announcedFront identity
        ++ (identity.config.token ++ (announcedKey identity ++ capabilities identity)) := by
    rw [handshakePayload_eq small]
    simp only [announcedFront, List.append_assoc]
  have flag := flag_capabilities_iff identity
    (announcedFront identity ++ (identity.config.token ++ announcedKey identity))
  obtain ⟨role, size, id⟩ := announcedFront_fields small
    (identity.config.token ++ (announcedKey identity ++ capabilities identity))
  obtain ⟨token, rest⟩ :=
    announcedFront_token identity (announcedKey identity ++ capabilities identity)
  simp only [List.append_assoc] at flag
  rw [← shape] at flag role size id token rest
  generalize handshakePayload identity = payload at length flag role size id token rest
  have long : ¬payload.length < 3 := by omega
  have whole : ¬payload.length < 3 + identity.config.id.length := by omega
  have flagged : payload.length > 3 + identity.config.id.length := by omega
  unfold parseHandshake
  rw [if_neg long]
  simp only [size, if_neg whole, flagged, if_true, role, id, flag]
  cases enabled : identity.config.encryptionEnabled with
  | false =>
      rw [enabled] at length
      have end_ : payload.length - 1
          = 3 + identity.config.id.length + identity.config.token.length := by
        rw [length]
        rfl
      simp only [Bool.false_and, Bool.false_eq_true, if_false, end_, token, announced, enabled,
        Bool.decide_eq_true]
  | true =>
      rw [enabled] at length
      have end_ : payload.length - 1 - 32
          = 3 + identity.config.id.length + identity.config.token.length := by
        rw [length]
        exact Nat.add_sub_cancel _ 32
      have room : payload.length - 1 ≥ 3 + identity.config.id.length + 32 := by
        rw [length, if_pos rfl]
        omega
      have pub : (announcedKey identity ++ capabilities identity).take 32 = identity.publicKey := by
        rw [announcedKey, if_pos enabled, List.take_left' key]
      simp only [Bool.true_and, room, decide_true, if_true, end_, token, rest, pub, announced,
        enabled, Bool.decide_eq_true]

/-- The role an end announces is the role the other end adopts. -/
theorem role_of_announced (identity : Identity)
    : (if (announced identity).role = LinkRole.node.code then LinkRole.node else LinkRole.leaf)
      = identity.config.role := by
  rw [announced]
  cases identity.config.role <;> rfl

-- What a receiver makes of it

/-- A payload that can be read and carries the receiver's token. -/
def Accepts (identity : Identity) (payload : Bytes) : Prop :=
  ∃ contents,
    parseHandshake identity.config.encryptionEnabled payload = some contents
    ∧ contents.token = identity.config.token

variable {link : Link} {moment : Moment} {header : PacketHeader}

/-- The parts of a record that a handshake announces. -/
structure Adopts (identity : Identity) (contents : HandshakeContents) (clientId : UInt32)
    (before after : Peer)
    : Prop where
  id : after.id = if contents.id.isEmpty then before.id else contents.id
  role : after.role = if contents.role = LinkRole.node.code then .node else .leaf
  key : after.cryptoKey
    = (contents.peerPub.bind fun pub => derivedKey identity pub clientId).getD before.cryptoKey
  peerRetransmit : after.peerRetransmit = contents.peerRetransmit.getD before.peerRetransmit

theorem Adopts.sendControl {contents : HandshakeContents} {clientId : UInt32} {before : Peer}
    (adopts : Adopts receiver contents clientId before link.peer) (type : PacketType)
    (payload : Bytes) (ackable : Bool)
    : Adopts receiver contents clientId before
        (link.sendControl identity moment type payload ackable).peer := by
  rw [sendControl_peer]
  split
  · exact ⟨adopts.id, adopts.role, adopts.key, adopts.peerRetransmit⟩
  · exact adopts

/-- The key derived from an announced public key, if any, is installed. -/
theorem adoptKey_peer (pub : Option Bytes) (clientId : UInt32)
    : (link.adoptKey identity pub clientId).peer =
      {
        link.peer with
        cryptoKey :=
          (pub.bind fun pub => derivedKey identity pub clientId).getD link.peer.cryptoKey
        cryptoReady :=
          (pub.bind fun pub => derivedKey identity pub clientId).isSome || link.peer.cryptoReady
      } := by
  cases pub with
  | none => rfl
  | some pub => rw [adoptKey_some, installKey_peer, Option.bind_some]

theorem acceptHandshake_adopts (contents : HandshakeContents)
    : Adopts identity contents header.clientId link.peer
        ((link.adoptRetransmit contents.peerRetransmit).acceptHandshake identity moment header
          contents).peer := by
  let adopted := ((((link.adoptRetransmit contents.peerRetransmit).syncClock header.tick
    moment.unixMs).resetCommands).adoptIdentity contents).adoptKey identity contents.peerPub
    header.clientId
  obtain ⟨clock, synced⟩ :=
    syncClock_peer (link.adoptRetransmit contents.peerRetransmit) header.tick moment.unixMs
  rw [adoptRetransmit_peer] at synced
  have first : Adopts identity contents header.clientId link.peer adopted.peer := by
    rw [show adopted.peer = _ from adoptKey_peer _ _]
    simp only [adoptIdentity, resetCommands, synced]
    exact ⟨rfl, rfl, rfl, rfl⟩
  have second : ∀ link' : Link, Adopts identity contents header.clientId link.peer link'.peer
      → Adopts identity contents header.clientId link.peer link'.establish.peer := by
    intro link' adopts
    rw [establish_peer]
    exact ⟨adopts.id, adopts.role, adopts.key, adopts.peerRetransmit⟩
  rw [acceptHandshake]
  refine (second _ ?_).sendControl _ _ _
  split
  · refine Adopts.sendControl ?_ _ _ _
    exact ⟨first.id, first.role, first.key, first.peerRetransmit⟩
  · exact first

theorem handleHandshake_of_parse {contents : HandshakeContents}
    (parsed : parseHandshake identity.config.encryptionEnabled payload = some contents)
    : link.handleHandshake identity moment header payload
      = if contents.token = identity.config.token then
          (link.adoptRetransmit contents.peerRetransmit).acceptHandshake identity moment header
            contents
        else link.adoptRetransmit contents.peerRetransmit := by
  rw [handleHandshake, parsed]

/-- An end reads from the handshake of another exactly what the other announces, and accepts it
exactly when the tokens are the same; then the record takes the announced id, role, key and
capability, where an empty id stands for none.
-/
theorem handleHandshake_handshakePayload (key : sender.publicKey.length = 32)
    (fits : (handshakePayload sender).length ≤ 65535)
    (same : sender.config.encryptionEnabled = receiver.config.encryptionEnabled)
    (link : Link) (moment : Moment) (header : PacketHeader)
    : parseHandshake receiver.config.encryptionEnabled (handshakePayload sender)
        = some (announced sender)
      ∧ (Accepts receiver (handshakePayload sender) ↔ sender.config.token = receiver.config.token)
      ∧ (sender.config.token = receiver.config.token
        → Adopts receiver (announced sender) header.clientId link.peer
            (link.handleHandshake receiver moment header (handshakePayload sender)).peer
          ∧ (link.handleHandshake receiver moment header (handshakePayload sender)).peer.role
            = sender.config.role)
      ∧ (sender.config.token ≠ receiver.config.token
        → link.handleHandshake receiver moment header (handshakePayload sender)
          = link.adoptRetransmit (some sender.config.retransmitEnabled)) := by
  have parsed := parseHandshake_handshakePayload key (length_id_le fits)
  rw [same] at parsed
  have handled : link.handleHandshake receiver moment header (handshakePayload sender) = _ :=
    handleHandshake_of_parse parsed
  refine ⟨parsed, ?_, fun tokens => ?_, fun apart => ?_⟩
  · constructor
    · rintro ⟨contents, read, token⟩
      obtain rfl := Option.some.inj (parsed.symm.trans read)
      exact token
    · exact fun token => ⟨_, parsed, token⟩
  · rw [handled, if_pos (show (announced sender).token = _ from tokens)]
    have adopts : Adopts receiver (announced sender) header.clientId link.peer
        ((link.adoptRetransmit (announced sender).peerRetransmit).acceptHandshake receiver moment
          header (announced sender)).peer :=
      acceptHandshake_adopts (announced sender)
    exact ⟨adopts, adopts.role.trans (role_of_announced sender)⟩
  · rw [handled, if_neg (show ¬(announced sender).token = _ from apart)]
    rfl

/-- Both ends have the token `[0, 7]`, encryption is on. -/
theorem handleHandshake_same_token
    : let sender : Identity :=
        { config := { id := [1], role := .node, token := [0, 7] }, publicKey := List.replicate 32 9 }
      let receiver : Identity := { config := { token := [0, 7] } }
      let link : Link := { key := [], peer := {}, rttUs := 0 }
      let header : PacketHeader := {}
      let moment : Moment := ⟨0, 0⟩
      let payload := handshakePayload sender
      parseHandshake receiver.config.encryptionEnabled payload = some (announced sender)
      ∧ (Accepts receiver payload ↔ sender.config.token = receiver.config.token)
      ∧ (sender.config.token = receiver.config.token
        → Adopts receiver (announced sender) header.clientId link.peer
            (link.handleHandshake receiver moment header payload).peer
          ∧ (link.handleHandshake receiver moment header payload).peer.role = sender.config.role)
      ∧ (sender.config.token ≠ receiver.config.token
        → link.handleHandshake receiver moment header payload
          = link.adoptRetransmit (some sender.config.retransmitEnabled)) := by
  intro sender receiver link header moment payload
  have key : sender.publicKey.length = 32 := List.length_replicate
  have size : payload.length = 39 := length_handshakePayload key (by decide)
  have fits : payload.length ≤ 65535 := by omega
  exact @handleHandshake_handshakePayload sender receiver key fits rfl link moment header

-- What a rejected handshake leaves behind

/-- The parts of a record that only an accepted handshake is to change. -/
structure Untouched (before after : Peer) : Prop where
  peerRetransmit : after.peerRetransmit = before.peerRetransmit
  id : after.id = before.id
  role : after.role = before.role
  state : after.state = before.state
  command : after.command = before.command
  clock : after.clock = before.clock
  cryptoKey : after.cryptoKey = before.cryptoKey
  cryptoReady : after.cryptoReady = before.cryptoReady

/-- The length of the id as the payload gives it. -/
def idSize (payload : Bytes) : Nat := (payload.getD 1 0).toNat * 256 + (payload.getD 2 0).toNat

/-- A payload with something behind the id whose last byte announces another capability. -/
def AnnouncesOther (payload : Bytes) (peerRetransmit : Bool) : Prop :=
  3 + idSize payload < payload.length
  ∧ decide (payload.getD (payload.length - 1) 0 &&& 0x01 ≠ 0) ≠ peerRetransmit

/-- A payload is too short for its id, or the capability is read from what follows the id. -/
theorem parseHandshake_cases (encryptionEnabled : Bool) (payload : Bytes)
    : (parseHandshake encryptionEnabled payload = none ∧ payload.length < 3 + idSize payload)
      ∨ ∃ contents,
          parseHandshake encryptionEnabled payload = some contents
          ∧ contents.peerRetransmit
            = if payload.length > 3 + idSize payload then
                some (decide (payload.getD (payload.length - 1) 0 &&& 0x01 ≠ 0))
              else none := by
  unfold parseHandshake
  split
  · exact Or.inl ⟨rfl, by omega⟩
  · dsimp only
    split
    · rename_i short
      exact Or.inl ⟨rfl, short⟩
    · exact Or.inr ⟨_, rfl, by rw [idSize]⟩

/-- A rejected handshake leaves the record untouched exactly when its last byte does not announce a
capability other than the one on record: the capability is adopted before the token is checked.
-/
theorem untouched_of_rejected_iff (rejected : ¬Accepts identity payload) (link : Link)
    (moment : Moment) (header : PacketHeader)
    : Untouched link.peer (link.handleHandshake identity moment header payload).peer
      ↔ ¬AnnouncesOther payload link.peer.peerRetransmit := by
  rcases parseHandshake_cases identity.config.encryptionEnabled payload with
    ⟨parsed, short⟩ | ⟨contents, parsed, capability⟩
  · refine iff_of_true ?_ ?_
    · rw [handleHandshake, parsed]
      exact ⟨rfl, rfl, rfl, rfl, rfl, rfl, rfl, rfl⟩
    · rintro ⟨long, -⟩
      omega
  · have apart : contents.token ≠ identity.config.token := fun token =>
      rejected ⟨contents, parsed, token⟩
    rw [handleHandshake_of_parse parsed, if_neg apart, adoptRetransmit_peer, capability]
    have rest {flag : Bool} : Untouched link.peer { link.peer with peerRetransmit := flag }
        ↔ flag = link.peer.peerRetransmit :=
      ⟨fun untouched => untouched.peerRetransmit,
        fun same => ⟨same, rfl, rfl, rfl, rfl, rfl, rfl, rfl⟩⟩
    rw [rest]
    rw [AnnouncesOther]
    generalize decide (payload.getD (payload.length - 1) 0 &&& 0x01 ≠ 0) = announces
    by_cases long : payload.length > 3 + idSize payload
    · rw [if_pos long, Option.getD_some]
      exact ⟨fun same other => other.2 same, fun none_ => by_contra fun apart => none_ ⟨long, apart⟩⟩
    · rw [if_neg long, Option.getD_none]
      exact iff_of_true rfl fun other => long other.1

/-- A payload with an empty id and the token `[7]`. -/
def strangerPayload (flags : UInt8) : Bytes := [0, 0, 0, 7, flags]

theorem parseHandshake_strangerPayload (flags : UInt8)
    : parseHandshake true (strangerPayload flags)
      = some
        {
          role := 0
          id := []
          token := [7]
          peerPub := none
          peerRetransmit := some (decide (flags &&& 0x01 ≠ 0))
        } := by
  simp [parseHandshake, strangerPayload]

theorem strangerPayload_rejected (flags : UInt8) : ¬Accepts {} (strangerPayload flags) := by
  rintro ⟨contents, parsed, token⟩
  obtain rfl := Option.some.inj ((parseHandshake_strangerPayload flags).symm.trans parsed)
  exact List.cons_ne_nil _ _ token

/-- A wrong token with the capability that is on record anyway. -/
theorem untouched_by_stranger
    : Untouched {}
          ({ key := [], peer := {}, rttUs := 0 : Link }.handleHandshake {} ⟨0, 0⟩ {}
            (strangerPayload 1)).peer := by
  refine (untouched_of_rejected_iff (strangerPayload_rejected 1)
    { key := [], peer := {}, rttUs := 0 } ⟨0, 0⟩ {}).mpr ?_
  rintro ⟨-, apart⟩
  exact apart rfl

/-- A wrong token turns off retransmission all the same. -/
theorem stranger_turns_off_retransmission
    : ¬Accepts {} (strangerPayload 0)
      ∧ ¬Untouched {}
          ({ key := [], peer := {}, rttUs := 0 : Link }.handleHandshake {} ⟨0, 0⟩ {}
            (strangerPayload 0)).peer := by
  refine ⟨strangerPayload_rejected 0, fun untouched => ?_⟩
  cases untouched.peerRetransmit

end Creek.Tight.Link
