import Creek.Tight.Crypto.AesGcm
import Creek.Tight.PacketCodec
import Creek.Tight.Peer

/-! Wire packets: nonce construction, sealing on the way out, opening on the way in. -/

namespace Creek.Tight

open Crypto

/-- The 96-bit GCM nonce of a packet. A command is numbered by its sequence, every other
kind by message id and fragment index.
-/
def buildNonce (header : PacketHeader) : Bytes :=
  if header.type = PacketType.command.code then
    put32 header.clientId ++ put32 header.sequence ++ [header.type, 0, 0, 0]
  else
    put32 header.clientId ++ put32 header.messageId ++ put16 header.fragmentIndex
    ++ [header.type, 0]

/-- The arguments of one `aes256_gcm_encrypt` call. -/
structure Seal where
  key : Bytes
  nonce : Bytes
  aad : Bytes
  plaintext : Bytes
  deriving DecidableEq, Repr

/-- The result of a `Seal`: ciphertext followed by tag. -/
def Seal.output (input : Seal) : Bytes :=
  let (ciphertext, tag) := aes256GcmEncrypt input.key input.nonce input.aad input.plaintext
  ciphertext ++ tag

/-- The payload area of a wire buffer: `size` bytes, of which `body` fills the first. A body that does not
fit is cut, where the source writes past the end of the buffer.
-/
def fillPayload (size : Nat) (body : Bytes) : Bytes :=
  (body ++ List.replicate (size - body.length) 0).take size

/-- The header as it goes on the wire: marked and enlarged when the payload is sealed. -/
def wireHeader (encrypted : Bool) (header : PacketHeader) (payload : Bytes) : PacketHeader :=
  if encrypted then
    {
      header with
      flags := header.flags ||| kFlagEncrypted
      payloadSize := UInt16.ofNat (payload.length + kGcmTagSize)
    }
  else
    header

/-- The `aes256_gcm_encrypt` call a packet makes, if any. -/
def sealOf (encryptionEnabled : Bool) (peer : Peer) (header : PacketHeader) (payload : Bytes)
    : Option Seal :=
  let encrypted := encryptionEnabled && peer.cryptoReady
  let onWire := wireHeader encrypted header payload
  if encrypted then
    some
      {
        key := peer.cryptoKey
        nonce := buildNonce onWire
        aad := (PacketCodec.encodeHeaderTo onWire).take 44
        plaintext := payload
      }
  else
    none

/-- The datagram of a packet. The buffer has room for the payload size of the wire header. -/
def buildWirePacket (encryptionEnabled : Bool) (peer : Peer) (header : PacketHeader)
    (payload : Bytes)
    : Bytes :=
  let encrypted := encryptionEnabled && peer.cryptoReady
  let onWire := wireHeader encrypted header payload
  let body :=
    match sealOf encryptionEnabled peer header payload with
    | some input => input.output
    | none => payload
  PacketCodec.finalizeCrc
    (PacketCodec.encodeHeaderTo onWire ++ fillPayload onWire.payloadSize.toNat body)

/-- Opens a sealed payload and restores the header; `none` where the source returns
`false`.
-/
def decryptPayload (peer : Peer) (header : PacketHeader) (payload : Bytes)
    : Option (PacketHeader × Bytes) :=
  if ¬peer.cryptoReady then none
  else if payload.length < kGcmTagSize then none
  else
    let ctLen := payload.length - kGcmTagSize
    let aad := (PacketCodec.encodeTo header []).take 44
    let opened :=
      aes256GcmDecrypt peer.cryptoKey (buildNonce header) aad (payload.take ctLen)
        (payload.drop ctLen)
    opened.map fun plaintext =>
      (
        {
          header with
          payloadSize := UInt16.ofNat ctLen
          flags := header.flags &&& ~~~kFlagEncrypted
        },
        plaintext
      )

/-- The payload handed to dispatch: opened when the packet is marked, `none` when the packet
is dropped.
-/
def openPayload (peer : Peer) (header : PacketHeader) (payload : Bytes)
    : Option (PacketHeader × Bytes) :=
  if header.flags &&& kFlagEncrypted ≠ 0 then decryptPayload peer header payload
  else some (header, payload)

end Creek.Tight
