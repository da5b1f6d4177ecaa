import Creek.Tight.Types

/-! SHA-256, HMAC-SHA-256 and the single-block HKDF of the key derivation. -/

namespace Creek.Tight.Crypto

/-- The round constants. -/
def kSha256K : List UInt32 := [
  0x428a2f98, 0x71374491, 0xb5c0fbcf, 0xe9b5dba5, 0x3956c25b, 0x59f111f1,
  0x923f82a4, 0xab1c5ed5, 0xd807aa98, 0x12835b01, 0x243185be, 0x550c7dc3,
  0x72be5d74, 0x80deb1fe, 0x9bdc06a7, 0xc19bf174, 0xe49b69c1, 0xefbe4786,
  0x0fc19dc6, 0x240ca1cc, 0x2de92c6f, 0x4a7484aa, 0x5cb0a9dc, 0x76f988da,
  0x983e5152, 0xa831c66d, 0xb00327c8, 0xbf597fc7, 0xc6e00bf3, 0xd5a79147,
  0x06ca6351, 0x14292967, 0x27b70a85, 0x2e1b2138, 0x4d2c6dfc, 0x53380d13,
  0x650a7354, 0x766a0abb, 0x81c2c92e, 0x92722c85, 0xa2bfe8a1, 0xa81a664b,
  0xc24b8b70, 0xc76c51a3, 0xd192e819, 0xd6990624, 0xf40e3585, 0x106aa070,
  0x19a4c116, 0x1e376c08, 0x2748774c, 0x34b0bcb5, 0x391c0cb3, 0x4ed8aa4a,
  0x5b9cca4f, 0x682e6ff3, 0x748f82ee, 0x78a5636f, 0x84c87814, 0x8cc70208,
  0x90befffa, 0xa4506ceb, 0xbef9a3f7, 0xc67178f2
]

def rotr32 (x : UInt32) (n : UInt32) : UInt32 := (x >>> n) ||| (x <<< (32 - n))

/-- The streaming hash state. `buf` holds the `buf_len` bytes of the open block. -/
structure Sha256Ctx where
  h : List UInt32 := [
    0x6a09e667, 0xbb67ae85, 0x3c6ef372, 0xa54ff53a,
    0x510e527f, 0x9b05688c, 0x1f83d9ab, 0x5be0cd19
  ]
  buf : Bytes := []
  totalLen : Nat := 0
  deriving DecidableEq, Repr

/-- The big-endian word at word index `i` of a block. -/
def blockWord (block : Bytes) (i : Nat) : UInt32 :=
  ((block.getD (i * 4) 0).toUInt32 <<< 24)
  ||| ((block.getD (i * 4 + 1) 0).toUInt32 <<< 16)
  ||| ((block.getD (i * 4 + 2) 0).toUInt32 <<< 8)
  ||| (block.getD (i * 4 + 3) 0).toUInt32

/-- One extension of the message schedule: the next word from the words so far. -/
def extendSchedule (w : List UInt32) : List UInt32 :=
  let i := w.length
  let w15 := w.getD (i - 15) 0
  let w2 := w.getD (i - 2) 0
  let s0 := rotr32 w15 7 ^^^ rotr32 w15 18 ^^^ (w15 >>> 3)
  let s1 := rotr32 w2 17 ^^^ rotr32 w2 19 ^^^ (w2 >>> 10)
  w ++ [w.getD (i - 16) 0 + s0 + w.getD (i - 7) 0 + s1]

def schedule (block : Bytes) : List UInt32 :=
  Nat.repeat extendSchedule 48 ((List.range 16).map (blockWord block))

/-- One compression round over the working variables `[a, b, c, d, e, f, g, hh]`. -/
def compressRound (v : List UInt32) (kw : UInt32 × UInt32) : List UInt32 :=
  match v with
  | [a, b, c, d, e, f, g, hh] =>
      let s1 := rotr32 e 6 ^^^ rotr32 e 11 ^^^ rotr32 e 25
      let ch := (e &&& f) ^^^ (~~~e &&& g)
      let t1 := hh + s1 + ch + kw.1 + kw.2
      let s0 := rotr32 a 2 ^^^ rotr32 a 13 ^^^ rotr32 a 22
      let maj := (a &&& b) ^^^ (a &&& c) ^^^ (b &&& c)
      let t2 := s0 + maj
      [t1 + t2, a, b, c, d + t1, e, f, g]
  | other => other

namespace Sha256Ctx

def compress (h : List UInt32) (block : Bytes) : List UInt32 :=
  List.zipWith (· + ·) h ((kSha256K.zip (schedule block)).foldl compressRound h)

/-- The loop of `update`; every pass consumes at least one byte, so `fuel` is the number of
bytes left.
-/
def updateLoop : Nat → Sha256Ctx → Bytes → Sha256Ctx
  | 0, ctx, _ => ctx
  | fuel + 1, ctx, data =>
      if data.isEmpty then ctx
      else
        let take := min (64 - ctx.buf.length) data.length
        let buf := ctx.buf ++ data.take take
        let ctx :=
          if buf.length = 64 then { ctx with h := compress ctx.h buf, buf := [] }
          else { ctx with buf := buf }
        updateLoop fuel ctx (data.drop take)

def update (ctx : Sha256Ctx) (data : Bytes) : Sha256Ctx :=
  updateLoop data.length { ctx with totalLen := u64 (ctx.totalLen + data.length) } data

/-- Feeds zero bytes until the open block holds 56 bytes; at most 64 are needed. -/
def padZeros : Nat → Sha256Ctx → Sha256Ctx
  | 0, ctx => ctx
  | fuel + 1, ctx => if ctx.buf.length ≠ 56 then padZeros fuel (ctx.update [0]) else ctx

def finish (ctx : Sha256Ctx) : Bytes :=
  let bitLen := u64 (ctx.totalLen * 8)
  let ctx := padZeros 64 (ctx.update [0x80])
  let lenBe := (List.range 8).map fun i => UInt8.ofNat (bitLen >>> (56 - i * 8))
  let ctx := ctx.update lenBe
  ctx.h.flatMap fun (word : UInt32) =>
    [(word >>> 24).toUInt8, (word >>> 16).toUInt8, (word >>> 8).toUInt8, word.toUInt8]

end Sha256Ctx

def sha256 (data : Bytes) : Bytes := (Sha256Ctx.update {} data).finish

/-- Pads a byte string with zeros to `size` bytes. -/
def zeroPad (size : Nat) (data : Bytes) : Bytes :=
  data ++ List.replicate (size - data.length) 0

def hmacSha256 (key msg : Bytes) : Bytes :=
  let k0 := zeroPad 64 (if key.length > 64 then sha256 key else key)
  let ipad := k0.map (· ^^^ 0x36)
  let opad := k0.map (· ^^^ 0x5C)
  let inner := ((Sha256Ctx.update {} ipad).update msg).finish
  ((Sha256Ctx.update {} opad).update inner).finish

/-- Extract, then the one expand block that yields 32 bytes. -/
def hkdfSha256 (ikm salt info : Bytes) : Bytes :=
  let salt := if salt.isEmpty then List.replicate 32 0 else salt
  let prk := hmacSha256 salt ikm
  hmacSha256 prk (info ++ [1])

end Creek.Tight.Crypto
