import Creek.Library.BinaryPolynomials

/-! Galois/Counter Mode over a block cipher, as SP 800-38D states it, for strings of whole bytes and nonces of
96 bits. A block of 128 bits is a polynomial with the leftmost bit as the constant.
-/

namespace Creek.Library.GaloisCounter

open Polynomial BinaryPolynomials

-- Blocks

/-- The modulus of GF(2^128). -/
noncomputable def modulus : (ZMod 2)[X] := X ^ 128 + X ^ 7 + X ^ 2 + X + 1

/-- A bit of a string, from the left. -/
def stringBit (string : List UInt8) (i : Nat) : Bool := byteBit (string.getD (i / 8) 0) (7 - i % 8)

/-- The block of 128 bits, from the left. -/
def ofStringBits (bit : Nat → Bool) : List UInt8 :=
  (List.range 16).map fun j => ofByteBits fun i => bit (8 * j + (7 - i))

/-- The product of blocks. -/
noncomputable def mul (x y : List UInt8) : List UInt8 :=
  ofStringBits (mulMod modulus 128 (stringBit x) (stringBit y))

/-- The exclusive or of two strings, over the length of the shorter. -/
def xor (x y : List UInt8) : List UInt8 := List.zipWith (· ^^^ ·) x y

def zeros (n : Nat) : List UInt8 := List.replicate n 0

/-- The blocks of a string; the last may be shorter. -/
def blocks (string : List UInt8) : List (List UInt8) :=
  if string = [] then [] else string.take 16 :: blocks (string.drop 16)
termination_by string.length
decreasing_by
  rename_i nonempty
  have positive := List.length_pos_iff.mpr nonempty
  rw [List.length_drop]
  omega

/-- A string, with zeros up to the end of its last block. -/
def padded (string : List UInt8) : List UInt8 := string ++ zeros (16 * ((string.length + 15) / 16) - string.length)

/-- A number in so many bytes, the most significant first; what exceeds them is dropped. -/
def bigEndian (n value : Nat) : List UInt8 :=
  (List.range n).map fun i => UInt8.ofNat (value / 256 ^ (n - 1 - i))

/-- The number of a string, the most significant byte first. -/
def number (string : List UInt8) : Nat := string.foldl (fun value byte => 256 * value + byte.toNat) 0

/-- The last 32 bits of a block count on, and wrap around. -/
def inc32 (block : List UInt8) : List UInt8 :=
  block.take 12 ++ bigEndian 4 ((number (block.drop 12) + 1) % 2 ^ 32)

@[simp] theorem length_ofStringBits (bit : Nat → Bool) : (ofStringBits bit).length = 16 := by
  rw [ofStringBits, List.length_map, List.length_range]

theorem stringBit_ofStringBits {i : Nat} (bit : Nat → Bool) (inside : i < 128)
    : stringBit (ofStringBits bit) i = bit i := by
  have byte : i / 8 < 16 := by omega
  have place : 8 * (i / 8) + (7 - (7 - i % 8)) = i := by omega
  rw [stringBit, ofStringBits, List.getD_eq_getElem?_getD, List.getElem?_map, List.getElem?_range byte,
    Option.map_some, Option.getD_some, byteBit_ofByteBits _ (by omega), place]

/-- A block is its bits. -/
theorem block_ext {x y : List UInt8} (left : x.length = 16) (right : y.length = 16)
    (same : ∀ i < 128, stringBit x i = stringBit y i)
    : x = y := by
  refine List.ext_getElem (left.trans right.symm) fun j inLeft inRight => byteBit_ext fun i inside => ?_
  have bit := same (8 * j + (7 - i)) (by omega)
  have byte : (8 * j + (7 - i)) / 8 = j := by omega
  have place : 7 - (8 * j + (7 - i)) % 8 = i := by omega
  rw [stringBit, stringBit, byte, place] at bit
  rwa [List.getD_eq_getElem _ _ inLeft, List.getD_eq_getElem _ _ inRight] at bit

/-- The exclusive or of blocks is that of their bits. -/
theorem stringBit_xor {x y : List UInt8} (same : x.length = y.length) (i : Nat)
    : stringBit (xor x y) i = (stringBit x i ^^ stringBit y i) := by
  have byte : (xor x y).getD (i / 8) 0 = x.getD (i / 8) 0 ^^^ y.getD (i / 8) 0 := by
    simp only [xor, List.getD_eq_getElem?_getD, List.getElem?_zipWith]
    by_cases inside : i / 8 < x.length
    · rw [List.getElem?_eq_getElem inside, List.getElem?_eq_getElem (same ▸ inside)]
      rfl
    · rw [List.getElem?_eq_none (Nat.not_lt.mp inside),
        List.getElem?_eq_none (same ▸ Nat.not_lt.mp inside)]
      rfl
  rw [stringBit, byte, byteBit_xor]
  rfl

@[simp] theorem blocks_nil : blocks [] = [] := by
  rw [blocks, if_pos rfl]

theorem blocks_of_ne_nil {string : List UInt8} (nonempty : string ≠ [])
    : blocks string = string.take 16 :: blocks (string.drop 16) := by
  rw [blocks, if_neg nonempty]

/-- A block and more. -/
theorem blocks_cons {block : List UInt8} (whole : block.length = 16) (rest : List UInt8)
    : blocks (block ++ rest) = block :: blocks rest := by
  have nonempty : block ++ rest ≠ [] := by
    intro empty
    rw [(List.append_eq_nil_iff.mp empty).1] at whole
    exact absurd whole (by decide)
  rw [blocks_of_ne_nil nonempty, List.take_left' whole, List.drop_left' whole]

theorem blocks_block {block : List UInt8} (whole : block.length = 16) : blocks block = [block] := by
  have alone := blocks_cons whole []
  rwa [List.append_nil, blocks_nil] at alone

@[simp] theorem padded_nil : padded [] = [] := rfl

/-- The zeros go to the last block. -/
theorem padded_of_ne_nil {string : List UInt8} (nonempty : string ≠ [])
    : padded string = padded (string.take 16) ++ padded (string.drop 16) := by
  have positive := List.length_pos_iff.mpr nonempty
  simp only [padded, List.length_take, List.length_drop]
  by_cases long : 16 ≤ string.length
  · have full : 16 * ((min 16 string.length + 15) / 16) - min 16 string.length = 0 := by omega
    have later : 16 * ((string.length - 16 + 15) / 16) - (string.length - 16) =
        16 * ((string.length + 15) / 16) - string.length := by omega
    have none : zeros 0 = [] := rfl
    rw [full, later, none, List.append_nil, ← List.append_assoc, List.take_append_drop]
  · have short : string.length ≤ 16 := by omega
    have none : string.length - 16 = 0 := by omega
    rw [List.take_of_length_le short, List.drop_of_length_le short, none, Nat.min_eq_right short]
    exact (List.append_nil _).symm

/-- The first block of a string, padded, is whole. -/
theorem length_padded_take {string : List UInt8} (nonempty : string ≠ [])
    : (padded (string.take 16)).length = 16 := by
  have positive := List.length_pos_iff.mpr nonempty
  rw [padded, List.length_append, zeros, List.length_replicate, List.length_take]
  omega

/-- What follows a padded string begins a new block, by recursion over the blocks. -/
theorem blocks_padded_append (string rest : List UInt8)
    : blocks (padded string ++ rest) = blocks (padded string) ++ blocks rest := by
  induction string using blocks.induct with
  | case1 => rw [padded_nil, blocks_nil, List.nil_append, List.nil_append]
  | case2 string nonempty ih =>
      have whole := length_padded_take nonempty
      rw [padded_of_ne_nil nonempty, List.append_assoc, blocks_cons whole, blocks_cons whole, ih,
        List.cons_append]

theorem padded_block {block : List UInt8} (whole : block.length = 16) : padded block = block := by
  rw [padded, whole]
  exact List.append_nil block

@[simp] theorem length_bigEndian (n value : Nat) : (bigEndian n value).length = n := by
  rw [bigEndian, List.length_map, List.length_range]

/-- A block has a next one. -/
theorem length_inc32 {block : List UInt8} (whole : block.length = 16) : (inc32 block).length = 16 := by
  rw [inc32, List.length_append, List.length_take, length_bigEndian, whole]
  rfl

-- The functions of the mode

/-- The hash of whole blocks under a hash key. -/
noncomputable def ghash (h string : List UInt8) : List UInt8 :=
  (blocks string).foldl (fun y x => mul (xor y x) h) (zeros 16)

section

variable (cipher : List UInt8 → List UInt8)

/-- Blocks under a counter that increments for each. -/
def gctrBlocks (counter : List UInt8) : List (List UInt8) → List UInt8
  | [] => []
  | x :: rest => xor x (cipher counter) ++ gctrBlocks (inc32 counter) rest

def gctr (counter string : List UInt8) : List UInt8 := gctrBlocks cipher counter (blocks string)

/-- The counter before the first. -/
def preCounter (iv : List UInt8) : List UInt8 := iv ++ [0, 0, 0, 1]

/-- The tag of associated data and a ciphertext. -/
noncomputable def tag (iv aad ciphertext : List UInt8) : List UInt8 :=
  let h := cipher (zeros 16)
  let s := ghash h
    (padded aad ++ padded ciphertext ++ bigEndian 8 (8 * aad.length) ++ bigEndian 8 (8 * ciphertext.length))
  gctr cipher (preCounter iv) s

/-- Authenticated encryption: the ciphertext and the tag. -/
noncomputable def encrypt (iv plaintext aad : List UInt8) : List UInt8 × List UInt8 :=
  let ciphertext := gctr cipher (inc32 (preCounter iv)) plaintext
  (ciphertext, tag cipher iv aad ciphertext)

/-- Authenticated decryption: the plaintext, or nothing for a tag that is not the ciphertext's. -/
noncomputable def decrypt (iv ciphertext aad received : List UInt8) : Option (List UInt8) :=
  if received = tag cipher iv aad ciphertext then some (gctr cipher (inc32 (preCounter iv)) ciphertext)
  else none

end

end Creek.Library.GaloisCounter
