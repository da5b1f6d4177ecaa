import Creek.Library.BinaryPolynomials

/-! AES with a 256-bit key, as FIPS 197 states it. Bytes are polynomials of GF(2^8) with the least bit as
the constant; the state has four rows and four columns, and a word of the key schedule is a column.
-/

namespace Creek.Library.Rijndael

open Polynomial BinaryPolynomials

-- Bytes

/-- The modulus of GF(2^8). -/
noncomputable def modulus : (ZMod 2)[X] := X ^ 8 + X ^ 4 + X ^ 3 + X + 1

/-- The product of bytes. -/
noncomputable def mul (a b : UInt8) : UInt8 := ofByteBits (mulMod modulus 8 (byteBit a) (byteBit b))

open Classical in
/-- The multiplicative inverse of a byte; zero is its own. -/
noncomputable def inverse (b : UInt8) : UInt8 := if unit : ∃ c, mul b c = 1 then unit.choose else 0

/-- The affine transformation of a byte's bits. -/
def affine (b : UInt8) : UInt8 :=
  ofByteBits fun i =>
    byteBit b i ^^ byteBit b ((i + 4) % 8) ^^ byteBit b ((i + 5) % 8) ^^ byteBit b ((i + 6) % 8)
      ^^ byteBit b ((i + 7) % 8) ^^ byteBit 0x63 i

noncomputable def sBox (b : UInt8) : UInt8 := affine (inverse b)

-- The key schedule

abbrev Word := Fin 4 → UInt8

noncomputable def subWord (word : Word) : Word := fun j => sBox (word j)

def rotWord (word : Word) : Word := fun j => word (j + 1)

/-- The round constants: powers of two. -/
noncomputable def rcon (j : Nat) : Word := ![(mul 0x02)^[j - 1] 0x01, 0, 0, 0]

/-- The words of the key schedule: eight of the key, and each later one from two earlier ones. -/
noncomputable def keyExpansion (key : List UInt8) (i : Nat) : Word :=
  if i < 8 then fun j => key.getD (4 * i + j) 0
  else
    let temp := keyExpansion key (i - 1)
    let temp :=
      if i % 8 = 0 then fun j => subWord (rotWord temp) j ^^^ rcon (i / 8) j
      else if i % 8 = 4 then subWord temp
      else temp
    fun j => keyExpansion key (i - 8) j ^^^ temp j
termination_by i

-- The cipher

/-- A state, by row and column. -/
abbrev State := Fin 4 → Fin 4 → UInt8

noncomputable def subBytes (s : State) : State := fun r c => sBox (s r c)

/-- Each row is shifted by its number. -/
def shiftRows (s : State) : State := fun r c => s r (c + r)

/-- Each column is multiplied by a fixed polynomial. -/
noncomputable def mixColumns (s : State) : State :=
  fun r c => mul 0x02 (s r c) ^^^ mul 0x03 (s (r + 1) c) ^^^ s (r + 2) c ^^^ s (r + 3) c

/-- The words of a round, column by column. -/
def addRoundKey (words : Nat → Word) (round : Nat) (s : State) : State :=
  fun r c => s r c ^^^ words (4 * round + c) r

/-- The state of a block, column after column. -/
def ofBlock (input : List UInt8) : State := fun r c => input.getD (r + 4 * c) 0

/-- The block of a state. -/
def toBlock (s : State) : List UInt8 :=
  List.ofFn fun i : Fin 16 => s (Fin.ofNat 4 i) (Fin.ofNat 4 (i / 4))

/-- A round other than the last. -/
noncomputable def round (words : Nat → Word) (s : State) (number : Nat) : State :=
  addRoundKey words number (mixColumns (shiftRows (subBytes s)))

/-- The encryption of a block under the words of a key: fourteen rounds, the last without `mixColumns`. -/
noncomputable def cipher (words : Nat → Word) (input : List UInt8) : List UInt8 :=
  let start := addRoundKey words 0 (ofBlock input)
  let middle := (List.range' 1 13).foldl (round words) start
  toBlock (addRoundKey words 14 (shiftRows (subBytes middle)))

/-- AES-256. -/
noncomputable def aes256 (key input : List UInt8) : List UInt8 := cipher (keyExpansion key) input

end Creek.Library.Rijndael
