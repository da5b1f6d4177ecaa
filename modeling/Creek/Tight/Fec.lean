import Creek.Tight.Types

/-! The Reed-Solomon erasure code over GF(2^8) with primitive polynomial 0x11D. -/

namespace Creek.Tight

-- Table arithmetic

/-- One doubling of the table builder's 16-bit accumulator, with reduction. -/
def gfDouble (x : UInt16) : UInt16 :=
  let doubled := x <<< 1
  if doubled &&& 0x100 ≠ 0 then doubled ^^^ 0x11D else doubled

/-- The first 255 powers of the generator, in order. -/
def gfPowers : List UInt16 := List.iterate gfDouble 1 255

/-- The exponent table, of double length so that a product needs no reduction. -/
def gfExpTable : List UInt8 :=
  let powers := gfPowers.map UInt16.toUInt8
  powers ++ powers ++ powers.take 2

/-- The logarithm table; the entry of zero stays zero. -/
def gfLogTable : List UInt8 :=
  (gfPowers.zip (List.range 255)).foldl
    (fun table entry => table.set entry.1.toNat (UInt8.ofNat entry.2))
    (List.replicate 256 0)

def gfExp (i : Nat) : UInt8 := gfExpTable.getD i 0
def gfLog (a : UInt8) : Nat := (gfLogTable.getD a.toNat 0).toNat

def gfMul (a b : UInt8) : UInt8 := if a = 0 ∨ b = 0 then 0 else gfExp (gfLog a + gfLog b)

def gfPow (a : UInt8) (e : Nat) : UInt8 :=
  if e = 0 then 1 else if a = 0 then 0 else gfExp (gfLog a * e % 255)

def gfInv (a : UInt8) : UInt8 := gfExp (255 - gfLog a)

/-- The weight of a data fragment in a parity fragment. The index is cut to a byte. -/
def coef (parityIndex dataIndex : Nat) : UInt8 :=
  gfPow (UInt8.ofNat (dataIndex + 1)) parityIndex

/-- `dst ^= c * src` over the common prefix of `dst`, `src` and `width`. -/
def gfMulAdd (dst src : Bytes) (c : UInt8) (width : Nat) : Bytes :=
  if c = 0 ∨ src.isEmpty then dst
  else
    let n := min dst.length (min src.length width)
    if c = 1 then
      dst.mapIdx fun i byte => if i < n then byte ^^^ src.getD i 0 else byte
    else
      dst.mapIdx fun i byte =>
        if i < n ∧ src.getD i 0 ≠ 0 then byte ^^^ gfExp (gfLog c + gfLog (src.getD i 0))
        else byte

-- Encoding and decoding

namespace ReedSolomon

/-- Zeroes the first `width` bytes of a reused buffer, growing it when it is shorter. -/
def clearBuffer (width : Nat) (buffer : Bytes) : Bytes :=
  if buffer.length < width then List.replicate width 0
  else List.replicate width 0 ++ buffer.drop width

/-- Parity buffer `p` over all data fragments. -/
def encodeParity (fragments : List Bytes) (width p : Nat) (buffer : Bytes) : Bytes :=
  (List.range fragments.length).foldl
    (fun dst j => gfMulAdd dst (fragments.getD j []) (coef p j) width)
    (clearBuffer width buffer)

/-- Encodes into the caller's buffers, which are reused and grown as needed. -/
def encodeInto (fragments : List Bytes) (parityCount width : Nat) (out : List Bytes)
    : List Bytes :=
  let out := out ++ List.replicate (parityCount - out.length) []
  out.mapIdx fun p buffer =>
    if p < parityCount then encodeParity fragments width p buffer else buffer

def encode (fragments : List Bytes) (parityCount width : Nat) : List Bytes :=
  encodeInto fragments parityCount width []

/-- One equation of the decoder: a row of `a` with its syndrome. -/
structure Row where
  coeffs : List UInt8
  syn : Bytes
  deriving DecidableEq, Repr, Inhabited

/-- The indices of the missing data fragments, in increasing order. -/
def missing (data : List (Option Bytes)) : List Nat :=
  (List.range data.length).filter fun i => (data.getD i none).isNone

/-- The syndrome of a parity fragment: it less the surviving data fragments. -/
def syndrome (data : List (Option Bytes)) (parity : Nat × Bytes) (width : Nat) : Bytes :=
  let start := parity.2.take width ++ List.replicate (width - parity.2.length) 0
  (List.range data.length).foldl
    (fun syn j =>
      match data.getD j none with
      | some fragment => gfMulAdd syn fragment (coef parity.1 j) width
      | none => syn)
    start

/-- The equation of the parity fragment in the missing fragments. -/
def equation (data : List (Option Bytes)) (parity : Nat × Bytes) (width : Nat) : Row where
  coeffs := (missing data).map (coef parity.1)
  syn := syndrome data parity width

/-- The coefficient of `rows[r]` in column `col`. -/
def entry (rows : List Row) (r col : Nat) : UInt8 := (rows.getD r default).coeffs.getD col 0

/-- Exchanges two rows. -/
def swapRows (rows : List Row) (i j : Nat) : List Row :=
  (rows.set i (rows.getD j default)).set j (rows.getD i default)

/-- Scales the pivot row so that its pivot becomes 1. -/
def normalizeRow (row : Row) (col : Nat) : Row :=
  let inv := gfInv (row.coeffs.getD col 0)
  {
    coeffs := row.coeffs.mapIdx fun j value => if col ≤ j then gfMul value inv else value
    syn := row.syn.map fun byte => gfMul byte inv
  }

/-- Clears the pivot column in another row. -/
def reduceRow (pivotRow row : Row) (col width : Nat) : Row :=
  let f := row.coeffs.getD col 0
  if f = 0 then row
  else
    {
      coeffs := row.coeffs.mapIdx fun j value =>
        if col ≤ j then value ^^^ gfMul f (pivotRow.coeffs.getD j 0) else value
      syn := gfMulAdd row.syn pivotRow.syn f width
    }

/-- The elimination pass for one column: `none` when no row from `col` on has a pivot. -/
def eliminateColumn (rows : List Row) (col width : Nat) : Option (List Row) :=
  match (List.range' col (rows.length - col)).find? fun r => entry rows r col ≠ 0 with
  | none => none
  | some pivot =>
      let rows := swapRows rows pivot col
      let pivotRow := normalizeRow (rows.getD col default) col
      some (rows.mapIdx fun r row =>
        if r = col then pivotRow else reduceRow pivotRow row col width)

/-- The elimination of the first `cols` columns. -/
def eliminate (rows : List Row) (width : Nat) : Nat → Option (List Row)
  | 0 => some rows
  | cols + 1 => (eliminate rows width cols).bind fun rows => eliminateColumn rows cols width

/-- Restores the missing fragments from `parity`; `none` where the source returns `false`. -/
def decode (data : List (Option Bytes)) (parity : List (Nat × Bytes)) (width : Nat)
    : Option (List (Option Bytes)) :=
  let gaps := missing data
  if gaps.isEmpty then some data
  else if gaps.length > parity.length then none
  else
    let rows := (parity.take gaps.length).map fun p => equation data p width
    (eliminate rows width gaps.length).map fun rows =>
      (gaps.zip rows).foldl (fun data gap => data.set gap.1 (some gap.2.syn)) data

end ReedSolomon

end Creek.Tight
