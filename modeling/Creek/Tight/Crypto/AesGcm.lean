import Creek.Tight.Types

/-! AES-256 with the S-box generated at run time, and AES-256-GCM over byte strings. -/

namespace Creek.Tight.Crypto

-- The S-box

/-- One doubling in GF(2^8) modulo 0x11B. -/
def aesDouble (a : UInt8) : UInt8 := (a <<< 1) ^^^ (if a &&& 0x80 ≠ 0 then 0x1B else 0)

/-- The shift-and-add loop of `aes_mul`; a byte has eight bits, so `fuel` 8 exhausts `b`. -/
def aesMulLoop : Nat → UInt8 → UInt8 → UInt8 → UInt8
  | 0, _, _, r => r
  | fuel + 1, a, b, r =>
      if b = 0 then r
      else aesMulLoop fuel (aesDouble a) (b >>> 1) (if b &&& 1 ≠ 0 then r ^^^ a else r)

def aesMul (a b : UInt8) : UInt8 := aesMulLoop 8 a b 0

/-- Square-and-multiply; eight rounds exhaust the exponent 254. -/
def aesPowLoop : Nat → UInt8 → UInt8 → Nat → UInt8
  | 0, result, _, _ => result
  | fuel + 1, result, base, e =>
      if e = 0 then result
      else
        aesPowLoop fuel (if e % 2 = 1 then aesMul result base else result)
          (aesMul base base) (e / 2)

def aesInv (a : UInt8) : UInt8 := if a = 0 then 0 else aesPowLoop 8 1 a 254

def rotl8 (y : UInt8) (n : UInt8) : UInt8 := (y <<< n) ||| (y >>> (8 - n))

def sboxEntry (x : UInt8) : UInt8 :=
  let y := aesInv x
  0x63 ^^^ y ^^^ rotl8 y 1 ^^^ rotl8 y 2 ^^^ rotl8 y 3 ^^^ rotl8 y 4

/-- The table the source builds once. -/
def sboxTable : List UInt8 := (List.range 256).map fun x => sboxEntry (UInt8.ofNat x)

def sbox (x : UInt8) : UInt8 := sboxTable.getD x.toNat 0

-- Key schedule and block encryption

/-- The big-endian word of the key at word index `i`. -/
def keyWord (key : Bytes) (i : Nat) : UInt32 :=
  ((key.getD (i * 4) 0).toUInt32 <<< 24)
  ||| ((key.getD (i * 4 + 1) 0).toUInt32 <<< 16)
  ||| ((key.getD (i * 4 + 2) 0).toUInt32 <<< 8)
  ||| (key.getD (i * 4 + 3) 0).toUInt32

/-- The S-box applied to the four bytes of a word, most significant first. -/
def subWord (b3 b2 b1 b0 : UInt8) : UInt32 :=
  ((sbox b3).toUInt32 <<< 24) ||| ((sbox b2).toUInt32 <<< 16)
  ||| ((sbox b1).toUInt32 <<< 8) ||| (sbox b0).toUInt32

/-- One extension of the key schedule, with the running round constant. -/
def expandStep (state : List UInt32 × UInt32) : List UInt32 × UInt32 :=
  let (w, rcon) := state
  let i := w.length
  let t := w.getD (i - 1) 0
  let prior := w.getD (i - 8) 0
  if i % 8 = 0 then
    let rotated := subWord (t >>> 16).toUInt8 (t >>> 8).toUInt8 t.toUInt8 (t >>> 24).toUInt8
    (w ++ [prior ^^^ (rotated ^^^ rcon)], (aesMul (rcon >>> 24).toUInt8 2).toUInt32 <<< 24)
  else if i % 8 = 4 then
    let substituted := subWord (t >>> 24).toUInt8 (t >>> 16).toUInt8 (t >>> 8).toUInt8 t.toUInt8
    (w ++ [prior ^^^ substituted], rcon)
  else
    (w ++ [prior ^^^ t], rcon)

def expandKey (key : Bytes) : List UInt32 :=
  (Nat.repeat expandStep 52 ((List.range 8).map (keyWord key), 0x01000000)).1

/-- The sixteen bytes of round key `r`. -/
def roundKey (words : List UInt32) (r : Nat) : Bytes :=
  (List.range 4).flatMap fun c =>
    let word := words.getD (r * 4 + c) 0
    [(word >>> 24).toUInt8, (word >>> 16).toUInt8, (word >>> 8).toUInt8, word.toUInt8]

/-- Byte-wise exclusive or over the shorter of two strings. -/
def xorBytes (left right : Bytes) : Bytes := List.zipWith (· ^^^ ·) left right

/-- Which state byte `SubBytes` and `ShiftRows` move to each position. -/
def shiftRowsSource : List Nat := [0, 5, 10, 15, 4, 9, 14, 3, 8, 13, 2, 7, 12, 1, 6, 11]

def subShift (s : Bytes) : Bytes := shiftRowsSource.map fun i => sbox (s.getD i 0)

def mixColumn (a0 a1 a2 a3 : UInt8) : Bytes := [
  aesMul a0 2 ^^^ aesMul a1 3 ^^^ a2 ^^^ a3,
  a0 ^^^ aesMul a1 2 ^^^ aesMul a2 3 ^^^ a3,
  a0 ^^^ a1 ^^^ aesMul a2 2 ^^^ aesMul a3 3,
  aesMul a0 3 ^^^ a1 ^^^ a2 ^^^ aesMul a3 2
]

def mixColumns (s : Bytes) : Bytes :=
  (List.range 4).flatMap fun c =>
    mixColumn (s.getD (c * 4) 0) (s.getD (c * 4 + 1) 0) (s.getD (c * 4 + 2) 0)
      (s.getD (c * 4 + 3) 0)

/-- Encryption of one 16-byte block under an expanded key. -/
def encryptBlock (words : List UInt32) (input : Bytes) : Bytes :=
  let start := (List.range 16).map fun i => input.getD i 0 ^^^ (roundKey words 0).getD i 0
  let middle := (List.range 13).foldl
    (fun s round => xorBytes (mixColumns (subShift s)) (roundKey words (round + 1))) start
  xorBytes (subShift middle) (roundKey words 14)

-- GCM

/-- One right shift of the 128-bit string `v`. -/
def ghashShift (v : Bytes) : Bytes :=
  (List.range 16).map fun j =>
    if j = 0 then v.getD 0 0 >>> 1
    else (v.getD j 0 >>> 1) ||| (v.getD (j - 1) 0 <<< 7)

/-- The step of `ghash_mul` for bit `i` of `x`, over the accumulator and the shifted `y`. -/
def ghashStep (x : Bytes) (state : Bytes × Bytes) (i : Nat) : Bytes × Bytes :=
  let (z, v) := state
  let z := if ((x.getD (i / 8) 0).toNat >>> (7 - i % 8)) % 2 = 1 then xorBytes z v else z
  let shifted := ghashShift v
  let v := if v.getD 15 0 &&& 1 ≠ 0 then shifted.modify 0 (· ^^^ 0xE1) else shifted
  (z, v)

def ghashMul (x y : Bytes) : Bytes :=
  ((List.range 128).foldl (ghashStep x) (List.replicate 16 0, y)).1

/-- Absorbs data block by block, the last one zero padded. -/
def ghashUpdateLoop : Nat → Bytes → Bytes → Bytes → Bytes
  | 0, x, _, _ => x
  | fuel + 1, x, h, data =>
      if data.isEmpty then x
      else
        let chunk := data.take 16
        let block := chunk ++ List.replicate (16 - chunk.length) 0
        ghashUpdateLoop fuel (ghashMul (xorBytes x block) h) h (data.drop 16)

def ghashUpdate (x h data : Bytes) : Bytes := ghashUpdateLoop data.length x h data

/-- The 64-bit big-endian bit lengths of the associated data and the ciphertext. -/
def lengthBlock (aadLen ctLen : Nat) : Bytes :=
  ((List.range 8).map fun i => UInt8.ofNat (u64 (aadLen * 8) >>> (56 - i * 8)))
  ++ ((List.range 8).map fun i => UInt8.ofNat (u64 (ctLen * 8) >>> (56 - i * 8)))

def gcmComputeTag (words : List UInt32) (j0 aad ct : Bytes) : Bytes :=
  let h := encryptBlock words (List.replicate 16 0)
  let x := ghashUpdate (List.replicate 16 0) h aad
  let x := ghashUpdate x h ct
  let x := ghashUpdate x h (lengthBlock aad.length ct.length)
  let ej0 := encryptBlock words j0
  (List.range 16).map fun i => x.getD i 0 ^^^ ej0.getD i 0

/-- Big-endian increment of the last four counter bytes: byte `index` and, on carry, the
bytes before it down to byte 12.
-/
def incCounter : Nat → Nat → Bytes → Bytes
  | 0, _, ctr => ctr
  | fuel + 1, index, ctr =>
      let next := ctr.modify index (· + 1)
      if next.getD index 0 ≠ 0 then next else incCounter fuel (index - 1) next

/-- The counter-mode loop; every pass consumes at least one byte. -/
def gcmCryptLoop (words : List UInt32) : Nat → Bytes → Bytes → Bytes
  | 0, _, _ => []
  | fuel + 1, ctr, input =>
      if input.isEmpty then []
      else
        let ctr := incCounter 4 15 ctr
        xorBytes (input.take 16) (encryptBlock words ctr)
        ++ gcmCryptLoop words fuel ctr (input.drop 16)

def aes256GcmCrypt (words : List UInt32) (j0 input : Bytes) : Bytes :=
  gcmCryptLoop words input.length j0 input

/-- The first counter block of a 96-bit nonce. -/
def gcmJ0 (nonce : Bytes) : Bytes := nonce.take 12 ++ [0, 0, 0, 1]

/-- The ciphertext and the 16-byte tag. -/
def aes256GcmEncrypt (key nonce aad plaintext : Bytes) : Bytes × Bytes :=
  let words := expandKey key
  let ciphertext := aes256GcmCrypt words (gcmJ0 nonce) plaintext
  (ciphertext, gcmComputeTag words (gcmJ0 nonce) aad ciphertext)

/-- The accumulated difference of the constant-time tag comparison. -/
def tagDifference (expect tag : Bytes) : UInt8 :=
  (List.range 16).foldl (fun diff i => diff ||| (expect.getD i 0 ^^^ tag.getD i 0)) 0

/-- The plaintext, or `none` where the source returns `false`: the tag does not match. -/
def aes256GcmDecrypt (key nonce aad ciphertext tag : Bytes) : Option Bytes :=
  let words := expandKey key
  let expect := gcmComputeTag words (gcmJ0 nonce) aad ciphertext
  if tagDifference expect tag ≠ 0 then none
  else some (aes256GcmCrypt words (gcmJ0 nonce) ciphertext)

/-- What `aes256_gcm_decrypt` returns, and what it leaves in the buffer for the plaintext: it is written from
its start, and after the tag is accepted.
-/
def aes256GcmDecryptInto (key nonce aad ciphertext tag buffer : Bytes) : Bool × Bytes :=
  match aes256GcmDecrypt key nonce aad ciphertext tag with
  | none => (false, buffer)
  | some plaintext => (true, plaintext ++ buffer.drop plaintext.length)

end Creek.Tight.Crypto
