import Creek.Library.Rijndael
import Creek.Proofs.Tight.AesGcm
import Creek.Proofs.Tight.GaloisField

/-! The block cipher is AES-256: its products, its S-box, its key schedule and its rounds are those of the
standard, for any key and any block.
-/

namespace Creek.Tight.Crypto

open Library Library.BinaryPolynomials

-- Products

theorem forall_byte {property : UInt8 → Prop} (all : ∀ n < 256, property (UInt8.ofNat n)) (byte : UInt8)
    : property byte := by
  have holds := all byte.toNat byte.toNat_lt
  rwa [UInt8.ofNat_toNat] at holds

theorem rijndael_modulus : Rijndael.modulus = folding 8 (byteBit 0x1B) := by
  rw [Rijndael.modulus, folding, ofBits]
  simp [Finset.sum_range_succ, byteBit, Nat.testBit]
  ring

/-- The element of GF(2^8) that a byte stands for. -/
noncomputable def byteElement (byte : UInt8) : AdjoinRoot (folding 8 (byteBit 0x1B)) :=
  element (folding 8 (byteBit 0x1B)) 8 (byteBit byte)

theorem byteElement_injective {a b : UInt8} (same : byteElement a = byteElement b) : a = b :=
  byteBit_ext fun _ inside => bit_ext same inside

theorem byteElement_xor (a b : UInt8) : byteElement (a ^^^ b) = byteElement a + byteElement b := by
  simp only [byteElement, ← element_xor]
  exact element_congr fun i _ => byteBit_xor a b i

theorem byteElement_zero : byteElement 0 = 0 := by
  rw [byteElement, element_eq_sum]
  simp [byteBit]

theorem byteElement_one : byteElement 1 = 1 := by
  rw [byteElement, element_eq_sum]
  simp [Finset.sum_range_succ, byteBit, Nat.testBit]

theorem byteElement_mul (a b : UInt8)
    : byteElement (Rijndael.mul a b) = byteElement a * byteElement b := by
  simp only [byteElement, ← element_mulMod, Rijndael.mul, rijndael_modulus]
  exact element_congr fun i inside => byteBit_ofByteBits _ inside

theorem byteElement_double (a : UInt8)
    : byteElement (aesDouble a) = AdjoinRoot.root _ * byteElement a := by
  have bits : ∀ a : UInt8, byteBit (aesDouble a) 0 = (byteBit a 7 && byteBit 0x1B 0) ∧
      ∀ i < 7, byteBit (aesDouble a) (i + 1) = (byteBit a i ^^ (byteBit a 7 && byteBit 0x1B (i + 1))) :=
    forall_byte (by decide +kernel)
  exact element_shift (bits a).1 (bits a).2

theorem byteElement_halves (b : UInt8)
    : byteElement b = byteElement (b &&& (1 : UInt8)) + AdjoinRoot.root _ * byteElement (b >>> 1) := by
  have halves : ∀ b : UInt8, b = (b &&& (1 : UInt8)) ^^^ aesDouble (b >>> 1) :=
    forall_byte (by decide +kernel)
  rw [← byteElement_double, ← byteElement_xor, ← halves b]

/-- The shift-and-add loop, by induction on the bits that may be left. -/
theorem aesMulLoop_element {fuel : Nat} {a b r : UInt8} (few : b.toNat < 2 ^ fuel)
    : byteElement (aesMulLoop fuel a b r) = byteElement r + byteElement a * byteElement b := by
  induction fuel generalizing a b r with
  | zero =>
      have none : b = 0 := UInt8.toNat_inj.mp (Nat.lt_one_iff.mp few)
      rw [aesMulLoop, none, byteElement_zero, mul_zero, add_zero]
  | succ fuel ih =>
      have half : (b >>> 1).toNat < 2 ^ fuel := by
        rw [UInt8.toNat_shiftRight]
        rw [pow_succ] at few
        exact Nat.div_lt_of_lt_mul (by rwa [Nat.mul_comm] at few)
      rw [aesMulLoop]
      by_cases none : b = 0
      · rw [if_pos none, none, byteElement_zero, mul_zero, add_zero]
      · have bit : ∀ b : UInt8, b &&& 1 = 0 ∨ b &&& 1 = 1 := forall_byte (by decide +kernel)
        rw [if_neg none, ih half, byteElement_double, byteElement_halves b]
        rcases bit b with zero | one
        · rw [zero, if_neg (not_not_intro rfl), byteElement_zero]
          ring
        · rw [one, if_pos (by decide), byteElement_xor, byteElement_one]
          ring

theorem aesMul_eq : aesMul = Rijndael.mul := by
  funext a b
  apply byteElement_injective
  rw [byteElement_mul, aesMul, aesMulLoop_element b.toNat_lt, byteElement_zero, zero_add]

theorem rijndael_mul_comm (a b : UInt8) : Rijndael.mul a b = Rijndael.mul b a := by
  apply byteElement_injective
  rw [byteElement_mul, byteElement_mul, mul_comm]

-- The S-box

/-- The square-and-multiply loop, by induction on the bits that may be left. -/
theorem aesPowLoop_element {fuel : Nat} {result base : UInt8} {e : Nat} (few : e < 2 ^ fuel)
    : byteElement (aesPowLoop fuel result base e) = byteElement result * byteElement base ^ e := by
  have product (a b : UInt8) : byteElement (aesMul a b) = byteElement a * byteElement b := by
    rw [aesMul_eq, byteElement_mul]
  induction fuel generalizing result base e with
  | zero => rw [aesPowLoop, Nat.lt_one_iff.mp few, pow_zero, mul_one]
  | succ fuel ih =>
      rw [aesPowLoop]
      by_cases none : e = 0
      · rw [if_pos none, none, pow_zero, mul_one]
      · rw [if_neg none, ih (by omega), product]
        have halves := Nat.div_add_mod e 2
        rcases Nat.mod_two_eq_zero_or_one e with even | odd
        · rw [even, add_zero] at halves
          rw [if_neg (by omega), ← pow_two, ← pow_mul, halves]
        · rw [odd] at halves
          rw [if_pos odd, product, ← pow_two, ← pow_mul, mul_assoc, ← pow_succ', halves]

/-- Three times a byte. -/
def aesTriple (a : UInt8) : UInt8 := aesDouble a ^^^ a

theorem aesTriple_iterate (k : Nat)
    : byteElement (aesTriple^[k] 1) = (AdjoinRoot.root _ + 1) ^ k := by
  induction k with
  | zero => rw [Function.iterate_zero, id, byteElement_one, pow_zero]
  | succ k ih =>
      rw [Function.iterate_succ', Function.comp, aesTriple, byteElement_xor, byteElement_double, ih,
        pow_succ']
      ring

theorem aesTriple_generates {b : UInt8} (nonzero : b ≠ 0) : ∃ k, b = aesTriple^[k] 1 := by
  have mask : (0 :: (List.iterate aesTriple 1 255).map UInt8.toNat).foldl
      (fun mask bit => mask ||| 2 ^ bit) 0 = 2 ^ 256 - 1 := by
    decide +kernel
  have bit := congrArg (fun all => all.testBit b.toNat) mask
  simp only [testBit_foldl_or, Nat.testBit_two_pow_sub_one, Nat.zero_testBit, Bool.false_or] at bit
  have member := (decide_eq_decide.mp bit).mpr b.toNat_lt
  rcases List.mem_cons.mp member with zero | power
  · exact absurd (UInt8.toNat_inj.mp zero) nonzero
  · obtain ⟨a, listed, same⟩ := List.mem_map.mp power
    obtain ⟨k, -, iterated⟩ := List.mem_iterate.mp listed
    exact ⟨k, (UInt8.toNat_inj.mp same) ▸ iterated⟩

theorem mul_aesInv {b : UInt8} (nonzero : b ≠ 0) : Rijndael.mul b (aesInv b) = 1 := by
  have order : aesTriple^[255] 1 = 1 := by decide +kernel
  obtain ⟨k, power⟩ := aesTriple_generates nonzero
  apply byteElement_injective
  rw [byteElement_mul, aesInv, if_neg nonzero, aesPowLoop_element (by decide), byteElement_one, one_mul,
    ← pow_succ', power, aesTriple_iterate, pow_right_comm, ← aesTriple_iterate, order, byteElement_one,
    one_pow]

theorem aesInv_eq (b : UInt8) : aesInv b = Rijndael.inverse b := by
  rw [Rijndael.inverse]
  by_cases zero : b = 0
  · have none : ¬ ∃ c, Rijndael.mul b c = 1 := by
      rintro ⟨c, one⟩
      have elements := congrArg byteElement one
      rw [byteElement_mul, zero, byteElement_zero, zero_mul, ← byteElement_zero] at elements
      exact absurd (byteElement_injective elements) (by decide)
    rw [dif_neg none, zero]
    rfl
  · have own := mul_aesInv zero
    have unit : ∃ c, Rijndael.mul b c = 1 := ⟨_, own⟩
    rw [dif_pos unit]
    have left := congrArg byteElement own
    have right := congrArg byteElement unit.choose_spec
    rw [byteElement_mul, byteElement_one] at left right
    apply byteElement_injective
    calc
      byteElement (aesInv b) = byteElement (aesInv b) * (byteElement b * byteElement unit.choose) := by
        rw [right, mul_one]
      _ = byteElement b * byteElement (aesInv b) * byteElement unit.choose := by ring
      _ = byteElement unit.choose := by rw [left, one_mul]

theorem sbox_eq : sbox = Rijndael.sBox := by
  have rotations : ∀ y : UInt8, 0x63 ^^^ y ^^^ rotl8 y 1 ^^^ rotl8 y 2 ^^^ rotl8 y 3 ^^^ rotl8 y 4 =
      Rijndael.affine y :=
    forall_byte (by decide +kernel)
  funext x
  have entry : sbox x = sboxEntry x := by
    rw [sbox, sboxTable, List.getD_eq_getElem?_getD, List.getElem?_map,
      List.getElem?_range x.toNat_lt, Option.map_some, Option.getD_some, UInt8.ofNat_toNat]
  rw [entry, sboxEntry, Rijndael.sBox, ← aesInv_eq]
  exact rotations (aesInv x)

-- Words

/-- The bytes of a word, the most significant first. -/
def wordBytes (word : UInt32) : Rijndael.Word :=
  ![(word >>> 24).toUInt8, (word >>> 16).toUInt8, (word >>> 8).toUInt8, word.toUInt8]

theorem toNat_wordBytes (word : UInt32) (j : Fin 4)
    : (wordBytes word j).toNat = word.toNat / 2 ^ (24 - 8 * j.val) % 2 ^ 8 := by
  fin_cases j <;>
    simp [wordBytes, Nat.shiftRight_eq_div_pow]

theorem wordBytes_xor (a b : UInt32)
    : wordBytes (a ^^^ b) = fun j => wordBytes a j ^^^ wordBytes b j := by
  funext j
  apply UInt8.toNat_inj.mp
  rw [UInt8.toNat_xor, toNat_wordBytes, toNat_wordBytes, toNat_wordBytes, UInt32.toNat_xor,
    Nat.xor_div_two_pow, Nat.xor_mod_two_pow]

theorem mul_two_pow_or {a b k : Nat} (small : b < 2 ^ k) : a * 2 ^ k ||| b = a * 2 ^ k + b := by
  rw [← Nat.shiftLeft_eq, Nat.shiftLeft_add_eq_or_of_lt small]

/-- A word of four bytes. -/
def packWord (b3 b2 b1 b0 : UInt8) : UInt32 :=
  (b3.toUInt32 <<< 24) ||| (b2.toUInt32 <<< 16) ||| (b1.toUInt32 <<< 8) ||| b0.toUInt32

theorem wordBytes_packWord (b3 b2 b1 b0 : UInt8) : wordBytes (packWord b3 b2 b1 b0) = ![b3, b2, b1, b0] := by
  have h3 := b3.toNat_lt
  have h2 := b2.toNat_lt
  have h1 := b1.toNat_lt
  have h0 := b0.toNat_lt
  have value : (packWord b3 b2 b1 b0).toNat =
      b3.toNat * 2 ^ 24 + b2.toNat * 2 ^ 16 + b1.toNat * 2 ^ 8 + b0.toNat := by
    have s3 : b3.toNat <<< 24 % 2 ^ 32 = b3.toNat * 2 ^ 24 := by rw [Nat.shiftLeft_eq]; omega
    have s2 : b2.toNat <<< 16 % 2 ^ 32 = b2.toNat * 2 ^ 16 := by rw [Nat.shiftLeft_eq]; omega
    have s1 : b1.toNat <<< 8 % 2 ^ 32 = b1.toNat * 2 ^ 8 := by rw [Nat.shiftLeft_eq]; omega
    have o3 : b3.toNat * 2 ^ 24 ||| b2.toNat * 2 ^ 16 = (b3.toNat * 2 ^ 8 + b2.toNat) * 2 ^ 16 := by
      rw [mul_two_pow_or (by omega)]
      omega
    have o2 : (b3.toNat * 2 ^ 8 + b2.toNat) * 2 ^ 16 ||| b1.toNat * 2 ^ 8 =
        ((b3.toNat * 2 ^ 8 + b2.toNat) * 2 ^ 8 + b1.toNat) * 2 ^ 8 := by
      rw [mul_two_pow_or (by omega)]
      omega
    calc
      (packWord b3 b2 b1 b0).toNat =
          b3.toNat <<< 24 % 2 ^ 32 ||| b2.toNat <<< 16 % 2 ^ 32 ||| b1.toNat <<< 8 % 2 ^ 32 |||
            b0.toNat := rfl
      _ = _ := by
        rw [s3, s2, s1, o3, o2, mul_two_pow_or (by omega)]
        omega
  funext j
  apply UInt8.toNat_inj.mp
  rw [toNat_wordBytes, value]
  fin_cases j <;> simp <;> omega

theorem keyWord_bytes (key : Bytes) (i : Nat)
    : wordBytes (keyWord key i) = fun j : Fin 4 => key.getD (4 * i + j) 0 := by
  have packed : keyWord key i = packWord (key.getD (i * 4) 0) (key.getD (i * 4 + 1) 0)
      (key.getD (i * 4 + 2) 0) (key.getD (i * 4 + 3) 0) := rfl
  rw [packed, wordBytes_packWord, Nat.mul_comm i 4]
  funext j
  fin_cases j <;> rfl

theorem subWord_bytes (b3 b2 b1 b0 : UInt8)
    : wordBytes (subWord b3 b2 b1 b0) = Rijndael.subWord ![b3, b2, b1, b0] := by
  have packed : subWord b3 b2 b1 b0 = packWord (sbox b3) (sbox b2) (sbox b1) (sbox b0) := rfl
  rw [packed, wordBytes_packWord, sbox_eq]
  funext j
  fin_cases j <;> rfl

-- The key schedule

/-- The words so far are those of the standard, and the round constant is the next one. -/
structure Scheduled (key : Bytes) (state : List UInt32 × UInt32) : Prop where
  enough : 8 ≤ state.1.length
  words : ∀ i < state.1.length, wordBytes (state.1.getD i 0) = Rijndael.keyExpansion key i
  constant : state.2 = ((Rijndael.mul 2)^[(state.1.length + 7) / 8 - 1] 1).toUInt32 <<< 24

theorem rcon_bytes (b : UInt8) : wordBytes (b.toUInt32 <<< 24) = ![b, 0, 0, 0] := by
  have packed : b.toUInt32 <<< 24 = packWord b 0 0 0 := by
    simp [packWord]
  rw [packed, wordBytes_packWord]

theorem keyExpansion_later {key : Bytes} {i : Nat} (later : 8 ≤ i)
    : Rijndael.keyExpansion key i = fun j =>
        Rijndael.keyExpansion key (i - 8) j ^^^
          (if i % 8 = 0 then fun j =>
              Rijndael.subWord (Rijndael.rotWord (Rijndael.keyExpansion key (i - 1))) j ^^^
                Rijndael.rcon (i / 8) j
            else if i % 8 = 4 then Rijndael.subWord (Rijndael.keyExpansion key (i - 1))
            else Rijndael.keyExpansion key (i - 1)) j := by
  rw [Rijndael.keyExpansion, if_neg (Nat.not_lt.mpr later)]

theorem Scheduled.append {key : Bytes} {w : List UInt32} {rcon word later : UInt32}
    (scheduled : Scheduled key (w, rcon))
    (next : wordBytes word = Rijndael.keyExpansion key w.length)
    (constant : later = ((Rijndael.mul 2)^[(w.length + 1 + 7) / 8 - 1] 1).toUInt32 <<< 24)
    : Scheduled key (w ++ [word], later) := by
  obtain ⟨enough, words, -⟩ := scheduled
  dsimp only at enough words
  have length : (w ++ [word]).length = w.length + 1 := by
    rw [List.length_append, List.length_singleton]
  refine ⟨?_, ?_, ?_⟩
  · dsimp only
    omega
  · intro i inside
    dsimp only at inside ⊢
    by_cases earlier : i < w.length
    · rw [List.getD_append _ _ _ _ earlier]
      exact words i earlier
    · obtain rfl : i = w.length := by omega
      rw [List.getD_append_right _ _ _ _ (Nat.le_refl _), Nat.sub_self]
      exact next
  · dsimp only
    rw [length]
    exact constant

theorem expandStep_scheduled {key : Bytes} {state : List UInt32 × UInt32} (scheduled : Scheduled key state)
    : Scheduled key (expandStep state) ∧ (expandStep state).1.length = state.1.length + 1 := by
  obtain ⟨w, rcon⟩ := state
  obtain ⟨enough, words, constant⟩ := id scheduled
  dsimp only at enough words constant
  have before := words (w.length - 1) (by omega)
  have prior := words (w.length - 8) (by omega)
  rw [expandStep]
  dsimp only
  by_cases first : w.length % 8 = 0
  · have top : (rcon >>> 24).toUInt8 = (Rijndael.mul 2)^[(w.length + 7) / 8 - 1] 1 := by
      have byte := congrFun (rcon_bytes ((Rijndael.mul 2)^[(w.length + 7) / 8 - 1] 1)) 0
      rw [← constant] at byte
      exact byte
    have index : (w.length + 7) / 8 = w.length / 8 := by omega
    have next : (w.length + 1 + 7) / 8 - 1 = (w.length + 7) / 8 - 1 + 1 := by omega
    rw [if_pos first]
    refine ⟨scheduled.append ?_ ?_, List.length_append⟩
    · rw [keyExpansion_later enough, wordBytes_xor, wordBytes_xor, prior, subWord_bytes, ← before,
        constant, rcon_bytes, index, if_pos first]
      funext j
      refine congrArg _ ?_
      fin_cases j <;> rfl
    · rw [top, aesMul_eq, rijndael_mul_comm, next, Function.iterate_succ', Function.comp]
  · have index : (w.length + 1 + 7) / 8 - 1 = (w.length + 7) / 8 - 1 := by omega
    rw [if_neg first]
    by_cases middle : w.length % 8 = 4
    · rw [if_pos middle]
      refine ⟨scheduled.append ?_ ?_, List.length_append⟩
      · rw [keyExpansion_later enough, wordBytes_xor, prior, subWord_bytes, ← before, if_neg first,
          if_pos middle]
        rfl
      · rw [index, constant]
    · rw [if_neg middle]
      refine ⟨scheduled.append ?_ ?_, List.length_append⟩
      · rw [keyExpansion_later enough, wordBytes_xor, prior, before, if_neg first, if_neg middle]
      · rw [index, constant]

/-- The words of a key are those of the standard, by induction on the extensions. -/
theorem expandKey_words (key : Bytes) {i : Nat} (inside : i < 60)
    : wordBytes ((expandKey key).getD i 0) = Rijndael.keyExpansion key i := by
  have start : Scheduled key ((List.range 8).map (keyWord key), 0x01000000) := by
    have length : ((List.range 8).map (keyWord key)).length = 8 := by
      rw [List.length_map, List.length_range]
    refine ⟨Nat.le_of_eq length.symm, ?_, ?_⟩
    · intro i first
      dsimp only at first ⊢
      rw [List.length_map, List.length_range] at first
      rw [List.getD_eq_getElem?_getD, List.getElem?_map, List.getElem?_range first, Option.map_some,
        Option.getD_some, keyWord_bytes, Rijndael.keyExpansion, if_pos first]
    · dsimp only
      rw [length, Function.iterate_zero, id]
      rfl
  have extended : ∀ n, Scheduled key (Nat.repeat expandStep n ((List.range 8).map (keyWord key), 0x01000000)) ∧
      (Nat.repeat expandStep n ((List.range 8).map (keyWord key), 0x01000000)).1.length = 8 + n := by
    intro n
    induction n with
    | zero =>
        refine ⟨start, ?_⟩
        simp [Nat.repeat]
    | succ n ih =>
        have step := expandStep_scheduled ih.1
        exact ⟨step.1, step.2.trans (congrArg (· + 1) ih.2)⟩
  obtain ⟨scheduled, length⟩ := extended 52
  rw [expandKey]
  exact scheduled.words i (length ▸ inside)

-- The rounds

theorem roundKey_byte (words : List UInt32) (round : Nat) (r c : Fin 4)
    : (roundKey words round).getD (r + 4 * c) 0 = wordBytes (words.getD (4 * round + c) 0) r := by
  rw [Nat.mul_comm 4 round]
  fin_cases r <;> fin_cases c <;> rfl

theorem subShift_state (s : Bytes)
    : Rijndael.ofBlock (subShift s) = Rijndael.shiftRows (Rijndael.subBytes (Rijndael.ofBlock s)) := by
  funext r c
  rw [Rijndael.shiftRows, Rijndael.subBytes, ← sbox_eq]
  fin_cases r <;> fin_cases c <;> rfl

theorem mixColumns_state (s : Bytes)
    : Rijndael.ofBlock (mixColumns s) = Rijndael.mixColumns (Rijndael.ofBlock s) := by
  have column : ∀ c : Fin 4,
      [Rijndael.ofBlock (mixColumns s) 0 c, Rijndael.ofBlock (mixColumns s) 1 c,
        Rijndael.ofBlock (mixColumns s) 2 c, Rijndael.ofBlock (mixColumns s) 3 c] =
        mixColumn (Rijndael.ofBlock s 0 c) (Rijndael.ofBlock s 1 c) (Rijndael.ofBlock s 2 c)
          (Rijndael.ofBlock s 3 c) := by
    intro c
    fin_cases c <;> rfl
  funext r c
  have rows := column c
  simp only [mixColumn, List.cons.injEq, and_true] at rows
  obtain ⟨r0, r1, r2, r3⟩ := rows
  rw [Rijndael.mixColumns, ← aesMul_eq]
  generalize Rijndael.ofBlock s = t at *
  have comm (a b : UInt8) : aesMul a b = aesMul b a := by
    rw [aesMul_eq, rijndael_mul_comm]
  fin_cases r
  · show _ = aesMul 2 (t 0 c) ^^^ aesMul 3 (t 1 c) ^^^ t 2 c ^^^ t 3 c
    rw [comm 2, comm 3]
    exact r0
  · show _ = aesMul 2 (t 1 c) ^^^ aesMul 3 (t 2 c) ^^^ t 3 c ^^^ t 0 c
    rw [comm 2, comm 3]
    exact r1.trans (by ac_rfl)
  · show _ = aesMul 2 (t 2 c) ^^^ aesMul 3 (t 3 c) ^^^ t 0 c ^^^ t 1 c
    rw [comm 2, comm 3]
    exact r2.trans (by ac_rfl)
  · show _ = aesMul 2 (t 3 c) ^^^ aesMul 3 (t 0 c) ^^^ t 1 c ^^^ t 2 c
    rw [comm 2, comm 3]
    exact r3.trans (by ac_rfl)

/-- The bytes of a round key are combined with those of the state. -/
theorem addRoundKey_state {words : List UInt32} {expanded : Nat → Rijndael.Word}
    (same : ∀ i < 60, wordBytes (words.getD i 0) = expanded i) {s : Bytes} (size : s.length = 16)
    {round : Nat} (inside : round < 15)
    : Rijndael.ofBlock (xorBytes s (roundKey words round)) =
      Rijndael.addRoundKey expanded round (Rijndael.ofBlock s) := by
  funext r c
  have place : r.val + 4 * c.val < 16 := by omega
  have key : (roundKey words round).length = 16 := by simp [roundKey]
  rw [Rijndael.addRoundKey, ← same _ (by omega), ← roundKey_byte]
  simp only [Rijndael.ofBlock, xorBytes, List.getD_eq_getElem?_getD]
  rw [List.getElem?_zipWith, List.getElem?_eq_getElem (by omega), List.getElem?_eq_getElem (by omega)]
  rfl

theorem length_subShift (s : Bytes) : (subShift s).length = 16 := by
  rw [subShift, List.length_map]
  rfl

theorem length_mixColumns (s : Bytes) : (mixColumns s).length = 16 := rfl

theorem toBlock_ofBlock {s : Bytes} (size : s.length = 16) : Rijndael.toBlock (Rijndael.ofBlock s) = s := by
  refine List.ext_getElem (by rw [Rijndael.toBlock, List.length_ofFn, size]) fun i _ inside => ?_
  refine (List.getElem_ofFn _).trans ?_
  have place : (Fin.ofNat 4 i).val + 4 * (Fin.ofNat 4 (i / 4)).val = i := by
    simp only [Fin.val_ofNat]
    omega
  rw [Rijndael.ofBlock, place, List.getD_eq_getElem _ _ inside]

/-- The source's cipher under the words of a key is that of the standard. -/
theorem encryptBlock_eq (key input : Bytes) : encryptBlock (expandKey key) input = Rijndael.aes256 key input := by
  have same : ∀ i < 60, wordBytes ((expandKey key).getD i 0) = Rijndael.keyExpansion key i :=
    fun i inside => expandKey_words key inside
  rw [encryptBlock, Rijndael.aes256, Rijndael.cipher]
  generalize expandKey key = words at *
  generalize Rijndael.keyExpansion key = expanded at *
  have start : Rijndael.ofBlock
      ((List.range 16).map fun i => input.getD i 0 ^^^ (roundKey words 0).getD i 0) =
        Rijndael.addRoundKey expanded 0 (Rijndael.ofBlock input) := by
    funext r c
    have place : r.val + 4 * c.val < 16 := by omega
    rw [Rijndael.addRoundKey, ← same _ (by omega), ← roundKey_byte]
    simp only [Rijndael.ofBlock, List.getD_eq_getElem?_getD, List.getElem?_map,
      List.getElem?_range place, Option.map_some, Option.getD_some]
  generalize (List.range 16).map (fun i => input.getD i 0 ^^^ (roundKey words 0).getD i 0) = first at *
  have keys (n : Nat) : (roundKey words n).length = 16 := by simp [roundKey]
  have rounds : ∀ n ≤ 13, Rijndael.ofBlock ((List.range n).foldl
        (fun s round => xorBytes (mixColumns (subShift s)) (roundKey words (round + 1))) first) =
        (List.range' 1 n).foldl (Rijndael.round expanded)
          (Rijndael.addRoundKey expanded 0 (Rijndael.ofBlock input)) := by
    intro n inside
    induction n with
    | zero => exact start
    | succ n ih =>
        rw [List.range_succ, List.foldl_append, List.foldl_cons, List.foldl_nil, List.range'_1_concat,
          List.foldl_append, List.foldl_cons, List.foldl_nil, ← ih (by omega), Rijndael.round,
          addRoundKey_state same (length_mixColumns _) (by omega), mixColumns_state, subShift_state,
          Nat.add_comm 1 n]
  have middle := rounds 13 (Nat.le_refl _)
  rw [← middle, ← subShift_state, ← addRoundKey_state same (length_subShift _) (by omega), toBlock_ofBlock]
  rw [length_xorBytes, length_subShift, keys, Nat.min_self]

end Creek.Tight.Crypto
