import Mathlib

/-! SHA-256 of a bit string as FIPS 180-4 states it, and over any hash of octet strings HMAC, and HKDF as
RFC 5869 states it.
-/

namespace Creek.Library.SecureHash

abbrev Word := BitVec 32

-- Functions and constants

def ch (x y z : Word) : Word := (x &&& y) ^^^ (~~~x &&& z)

def maj (x y z : Word) : Word := (x &&& y) ^^^ (x &&& z) ^^^ (y &&& z)

/-- The large sigma functions, for the rounds. -/
def sum0 (x : Word) : Word := x.rotateRight 2 ^^^ x.rotateRight 13 ^^^ x.rotateRight 22
@[inherit_doc sum0] def sum1 (x : Word) : Word :=
  x.rotateRight 6 ^^^ x.rotateRight 11 ^^^ x.rotateRight 25

/-- The small sigma functions, for the message schedule. -/
def sigma0 (x : Word) : Word := x.rotateRight 7 ^^^ x.rotateRight 18 ^^^ x >>> 3
@[inherit_doc sigma0] def sigma1 (x : Word) : Word :=
  x.rotateRight 17 ^^^ x.rotateRight 19 ^^^ x >>> 10

/-- The first 32 bits of the fractional part of the root of some degree of a prime, by its position among
the primes.
-/
noncomputable def rootBits (degree t : Nat) : Word :=
  BitVec.ofNat 32 (Nat.nthRoot degree (Nat.nth Nat.Prime t * 2 ^ (32 * degree)))

/-- The round constants, from the cube roots. -/
noncomputable def roundConstant (t : Nat) : Word := rootBits 3 t

/-- The eight words of a hash value, or of the working variables. -/
structure HashValue where
  a : Word
  b : Word
  c : Word
  d : Word
  e : Word
  f : Word
  g : Word
  h : Word

/-- The initial hash value, from the square roots. -/
noncomputable def initial : HashValue where
  a := rootBits 2 0
  b := rootBits 2 1
  c := rootBits 2 2
  d := rootBits 2 3
  e := rootBits 2 4
  f := rootBits 2 5
  g := rootBits 2 6
  h := rootBits 2 7

def HashValue.add (left right : HashValue) : HashValue where
  a := left.a + right.a
  b := left.b + right.b
  c := left.c + right.c
  d := left.d + right.d
  e := left.e + right.e
  f := left.f + right.f
  g := left.g + right.g
  h := left.h + right.h

-- One block

/-- The message schedule of a block of sixteen words. -/
def scheduled (block : Nat → Word) (t : Nat) : Word :=
  if t < 16 then block t
  else
    sigma1 (scheduled block (t - 2)) + scheduled block (t - 7) + sigma0 (scheduled block (t - 15))
      + scheduled block (t - 16)
termination_by t

/-- One round, with its constant and its word of the schedule. -/
def round (constant word : Word) (v : HashValue) : HashValue :=
  let t1 := v.h + sum1 v.e + ch v.e v.f v.g + constant + word
  let t2 := sum0 v.a + maj v.a v.b v.c
  { a := t1 + t2, b := v.a, c := v.b, d := v.c, e := v.d + t1, f := v.e, g := v.f, h := v.g }

noncomputable def rounds (block : Nat → Word) (v : HashValue) : Nat → HashValue
  | 0 => v
  | t + 1 => round (roundConstant t) (scheduled block t) (rounds block v t)

/-- The next hash value. -/
noncomputable def compress (block : Nat → Word) (v : HashValue) : HashValue :=
  v.add (rounds block v 64)

theorem scheduled_of_lt {block : Nat → Word} {t : Nat} (early : t < 16)
    : scheduled block t = block t := by
  rw [scheduled, if_pos early]

theorem scheduled_of_le {block : Nat → Word} {t : Nat} (late : 16 ≤ t)
    : scheduled block t
      = sigma1 (scheduled block (t - 2)) + scheduled block (t - 7)
        + sigma0 (scheduled block (t - 15)) + scheduled block (t - 16) := by
  rw [scheduled, if_neg (Nat.not_lt.mpr late)]

/-- Only the sixteen words of the block count. -/
theorem scheduled_congr {block other : Nat → Word} (same : ∀ t < 16, block t = other t) (t : Nat)
    : scheduled block t = scheduled other t := by
  induction t using Nat.strong_induction_on with
  | _ t ih =>
      rcases Nat.lt_or_ge t 16 with early | late
      · rw [scheduled_of_lt early, scheduled_of_lt early, same t early]
      · rw [scheduled_of_le late, scheduled_of_le late, ih (t - 2) (by omega), ih (t - 7) (by omega),
          ih (t - 15) (by omega), ih (t - 16) (by omega)]

theorem compress_congr {block other : Nat → Word} (same : ∀ t < 16, block t = other t)
    (v : HashValue)
    : compress block v = compress other v := by
  have rounds_eq : ∀ t, rounds block v t = rounds other v t := by
    intro t
    induction t with
    | zero => rfl
    | succ t ih => rw [rounds, rounds, ih, scheduled_congr same]
  rw [compress, compress, rounds_eq]

-- Messages

/-- The number of zero bits that bring a message and the bit behind it to 448 modulo 512. -/
def zeroBits (length : Nat) : Nat := ((447 - length : Int) % 512).toNat

/-- The length as a number of 64 bits. -/
def lengthBits (length : Nat) : List Bool :=
  (List.range 64).map fun i => (BitVec.ofNat 64 length).getMsbD i

def pad (message : List Bool) : List Bool :=
  message ++ true :: List.replicate (zeroBits message.length) false ++ lengthBits message.length

/-- Word `t` of block `i`. -/
def blockWord (padded : List Bool) (i t : Nat) : Word :=
  BitVec.ofFnBE fun j => padded.getD (512 * i + 32 * t + j) false

/-- The hash value after some blocks. -/
noncomputable def chain (padded : List Bool) : Nat → HashValue
  | 0 => initial
  | i + 1 => compress (blockWord padded i) (chain padded i)

/-- The four octets of a word. -/
def wordOctets (word : Word) : List UInt8 :=
  [24, 16, 8, 0].map fun start => UInt8.ofBitVec (word.extractLsb' start 8)

def HashValue.octets (v : HashValue) : List UInt8 :=
  [v.a, v.b, v.c, v.d, v.e, v.f, v.g, v.h].flatMap wordOctets

/-- The digest of a message of bits. -/
noncomputable def sha256 (message : List Bool) : List UInt8 :=
  (chain (pad message) ((pad message).length / 512)).octets

/-- The bits of an octet, and of octets one after the other, from the most significant on. -/
def octetBits (octet : UInt8) : List Bool := (List.range 8).map fun i => octet.toNat.testBit (7 - i)
@[inherit_doc octetBits] def bits (octets : List UInt8) : List Bool := octets.flatMap octetBits

/-- The digest of octets. -/
noncomputable def sha256Octets (message : List UInt8) : List UInt8 := sha256 (bits message)

@[simp] theorem length_sha256Octets (message : List UInt8) : (sha256Octets message).length = 32 := rfl

@[simp] theorem length_octetBits (octet : UInt8) : (octetBits octet).length = 8 := by
  rw [octetBits, List.length_map, List.length_range]

@[simp] theorem bits_cons (octet : UInt8) (octets : List UInt8)
    : bits (octet :: octets) = octetBits octet ++ bits octets := rfl

@[simp] theorem bits_append (left right : List UInt8) : bits (left ++ right) = bits left ++ bits right :=
  List.flatMap_append

@[simp] theorem length_bits (octets : List UInt8) : (bits octets).length = 8 * octets.length := by
  induction octets with
  | nil => rfl
  | cons octet octets ih =>
      rw [bits_cons, List.length_append, ih, length_octetBits, List.length_cons]
      omega

/-- A bit of octets is a bit of the octet it is in. -/
theorem getD_bits (octets : List UInt8) (k : Nat)
    : (bits octets).getD k false = (octets.getD (k / 8) 0).toNat.testBit (7 - k % 8) := by
  induction octets generalizing k with
  | nil => simp
  | cons octet octets ih =>
      rw [bits_cons, List.getD_eq_getElem?_getD]
      rcases Nat.lt_or_ge k 8 with here | later
      · rw [List.getElem?_append_left (by rwa [length_octetBits]), octetBits, List.getElem?_map,
          List.getElem?_range here, Nat.div_eq_of_lt here, Nat.mod_eq_of_lt here]
        rfl
      · obtain ⟨rest, rfl⟩ := Nat.exists_eq_add_of_le later
        rw [List.getElem?_append_right (by rw [length_octetBits]; omega), length_octetBits,
          Nat.add_sub_cancel_left, ← List.getD_eq_getElem?_getD, ih, Nat.add_mod_left,
          Nat.add_div_left rest (Nat.succ_pos 7), List.getD_cons_succ]

-- HMAC and HKDF

section

variable (hash : List UInt8 → List UInt8) (blockSize : Nat)

/-- The key of a whole block: a longer one is hashed first, and zeros fill it up. -/
def blockKey (key : List UInt8) : List UInt8 :=
  let key := if blockSize < key.length then hash key else key
  key ++ List.replicate (blockSize - key.length) 0

/-- The block key with each octet combined with the same one. -/
def maskedKey (mask : UInt8) (key : List UInt8) : List UInt8 :=
  List.zipWith (· ^^^ ·) (blockKey hash blockSize key) (List.replicate blockSize mask)

def hmac (key text : List UInt8) : List UInt8 :=
  hash (maskedKey hash blockSize 0x5C key ++ hash (maskedKey hash blockSize 0x36 key ++ text))

variable (hashLength : Nat)

/-- Extract: without a salt, as many zeros as the hash is long. -/
def hkdfExtract (salt : Option (List UInt8)) (inputKey : List UInt8) : List UInt8 :=
  hmac hash blockSize (salt.getD (List.replicate hashLength 0)) inputKey

/-- The blocks of expand, each from the one before. -/
def hkdfBlock (pseudorandomKey info : List UInt8) : Nat → List UInt8
  | 0 => []
  | i + 1 =>
      hmac hash blockSize pseudorandomKey
        (hkdfBlock pseudorandomKey info i ++ info ++ [UInt8.ofNat (i + 1)])

/-- Expand: the first octets of as many blocks as they take. -/
def hkdfExpand (pseudorandomKey info : List UInt8) (length : Nat) : List UInt8 :=
  ((List.range ((length + hashLength - 1) / hashLength)).flatMap fun i =>
    hkdfBlock hash blockSize pseudorandomKey info (i + 1)).take length

def hkdf (salt : Option (List UInt8)) (inputKey info : List UInt8) (length : Nat) : List UInt8 :=
  hkdfExpand hash blockSize hashLength (hkdfExtract hash blockSize hashLength salt inputKey) info
    length

end

section

variable {hash : List UInt8 → List UInt8} {blockSize hashLength : Nat}

theorem length_blockKey (fits : ∀ message, (hash message).length ≤ blockSize) (key : List UInt8)
    : (blockKey hash blockSize key).length = blockSize := by
  have short : (if blockSize < key.length then hash key else key).length ≤ blockSize := by
    split
    · exact fits key
    · omega
  rw [blockKey, List.length_append, List.length_replicate]
  omega

theorem maskedKey_eq_map (fits : ∀ message, (hash message).length ≤ blockSize) (mask : UInt8)
    (key : List UInt8)
    : maskedKey hash blockSize mask key = (blockKey hash blockSize key).map (· ^^^ mask) := by
  have size := length_blockKey fits key
  refine List.ext_getElem ?_ fun i inside inKey => ?_
  · rw [maskedKey, List.length_zipWith, List.length_map, List.length_replicate, size, Nat.min_self]
  · rw [List.getElem_map]
    simp only [maskedKey, List.getElem_zipWith, List.getElem_replicate]

/-- Zeros behind a key that is not too long are no different key. -/
theorem blockKey_zeros {count : Nat} (fits : count ≤ blockSize)
    : blockKey hash blockSize (List.replicate count 0) = blockKey hash blockSize [] := by
  have short : ¬blockSize < (List.replicate count (0 : UInt8)).length := by
    rw [List.length_replicate]
    omega
  have empty : ¬blockSize < ([] : List UInt8).length := Nat.not_lt_zero blockSize
  have total : count + (blockSize - count) = blockSize := by omega
  rw [blockKey, blockKey, if_neg short, if_neg empty, List.length_replicate,
    List.replicate_append_replicate, total, List.nil_append, List.length_nil, Nat.sub_zero]

/-- So an empty salt is as good as none. -/
theorem hkdfExtract_nil (fits : hashLength ≤ blockSize) (inputKey : List UInt8)
    : hkdfExtract hash blockSize hashLength (some []) inputKey
      = hkdfExtract hash blockSize hashLength none inputKey := by
  simp only [hkdfExtract, hmac, maskedKey, Option.getD_some, Option.getD_none, blockKey_zeros fits]

/-- A first block that is as long as the hash is what the output begins with. -/
theorem take_hkdfExpand {pseudorandomKey info : List UInt8} {length : Nat}
    (whole : ∀ message, (hash message).length = hashLength) (positive : 0 < hashLength)
    (enough : hashLength ≤ length)
    : (hkdfExpand hash blockSize hashLength pseudorandomKey info length).take hashLength
      = hmac hash blockSize pseudorandomKey (info ++ [1]) := by
  obtain ⟨count, blocks⟩ : ∃ count, (length + hashLength - 1) / hashLength = count + 1 := by
    have some_ : 1 ≤ (length + hashLength - 1) / hashLength :=
      (Nat.one_le_div_iff positive).mpr (by omega)
    exact ⟨_, (Nat.sub_add_cancel some_).symm⟩
  have first : hkdfBlock hash blockSize pseudorandomKey info (0 + 1)
      = hmac hash blockSize pseudorandomKey (info ++ [1]) := by
    rw [hkdfBlock, hkdfBlock, List.nil_append]
    rfl
  have size : (hmac hash blockSize pseudorandomKey (info ++ [1])).length = hashLength := whole _
  rw [hkdfExpand, blocks, List.take_take, Nat.min_eq_left enough, List.range_succ_eq_map,
    List.flatMap_cons, first, List.take_left' size]

end

end Creek.Library.SecureHash
