import Creek.Library.SecureHash
import Creek.Tight.Crypto.Sha256

/-! The constants and the compression of the hash are those of the standard. -/

namespace Creek.Tight.Crypto

open Library.SecureHash

-- Constants

/-- The first 64 primes. -/
def firstPrimes : List Nat := [
  2, 3, 5, 7, 11, 13, 17, 19, 23, 29, 31, 37, 41, 43, 47, 53, 59, 61, 67, 71, 73, 79, 83, 89, 97, 101,
  103, 107, 109, 113, 127, 131, 137, 139, 149, 151, 157, 163, 167, 173, 179, 181, 191, 193, 197, 199,
  211, 223, 227, 229, 233, 239, 241, 251, 257, 263, 269, 271, 277, 281, 283, 293, 307, 311
]

/-- Trial division by the numbers whose square is below 312. -/
theorem prime_iff_trial {n : Nat} (bound : n < 312)
    : Nat.Prime n ↔ 2 ≤ n ∧ ∀ m < 18, 2 ≤ m → m * m ≤ n → ¬m ∣ n := by
  rw [Nat.prime_def_le_sqrt]
  refine and_congr_right fun _ => ⟨fun none_ m _ least square => ?_, fun none_ m least root => ?_⟩
  · exact none_ m least (Nat.le_sqrt.mpr square)
  · have square := Nat.le_sqrt.mp root
    exact none_ m (by nlinarith) least square

theorem firstPrimes_eq : (List.range 312).filter Nat.Prime = firstPrimes := by
  have trial : (List.range 312).filter (fun n => 2 ≤ n ∧ ∀ m < 18, 2 ≤ m → m * m ≤ n → ¬m ∣ n)
      = firstPrimes := by
    decide +kernel
  rw [← trial]
  refine List.filter_congr fun n inRange => ?_
  exact decide_eq_decide.mpr (prime_iff_trial (List.mem_range.mp inRange))

/-- The numbers of a kind below a bound are the first of that kind, by induction on the bound. -/
theorem nth_of_filter_range {kind : Nat → Prop} [DecidablePred kind] {bound t number : Nat}
    (found : ((List.range bound).filter kind)[t]? = some number)
    : Nat.nth kind t = number := by
  have count (n : Nat) : ((List.range n).filter kind).length = Nat.count kind n := by
    induction n with
    | zero => rfl
    | succ n ih =>
        rw [List.range_succ, List.filter_append, List.length_append, ih, Nat.count_succ]
        by_cases here : kind n <;> simp [here]
  induction bound with
  | zero => cases found
  | succ bound ih =>
      rw [List.range_succ, List.filter_append] at found
      rcases Nat.lt_or_ge t ((List.range bound).filter kind).length with early | late
      · rw [List.getElem?_append_left early] at found
        exact ih found
      · rw [List.getElem?_append_right late] at found
        by_cases here : kind bound
        · rw [List.filter_singleton, decide_eq_true here, cond_true] at found
          obtain ⟨position, same⟩ := List.getElem?_eq_some_iff.mp found
          have last : t = Nat.count kind bound := by
            rw [← count]
            rw [List.length_singleton] at position
            omega
          rw [List.getElem_singleton] at same
          rw [last, Nat.nth_count here, same]
        · rw [List.filter_singleton, decide_eq_false here, cond_false] at found
          cases found

theorem nth_prime {t : Nat} (bound : t < 64) : Nat.nth Nat.Prime t = firstPrimes.getD t 0 := by
  have inside : t < firstPrimes.length := bound
  have found : ((List.range 312).filter Nat.Prime)[t]? = some firstPrimes[t] := by
    rw [firstPrimes_eq]
    exact List.getElem?_eq_getElem inside
  rw [nth_of_filter_range found, List.getD_eq_getElem _ _ inside]

theorem rootBits_eq {degree t : Nat} (bound : t < 64)
    : rootBits degree t
      = BitVec.ofNat 32 (Nat.nthRoot degree (firstPrimes.getD t 0 * 2 ^ (32 * degree))) := by
  rw [rootBits, nth_prime bound]

theorem kSha256K_eq
    : kSha256K = (List.range 64).map fun t => UInt32.ofBitVec (roundConstant t) := by
  have table : kSha256K = (List.range 64).map fun t =>
      UInt32.ofBitVec
        (BitVec.ofNat 32 (Nat.nthRoot 3 (firstPrimes.getD t 0 * 2 ^ (32 * 3)))) := by
    decide +kernel
  rw [table]
  refine List.map_congr_left fun t inRange => ?_
  rw [roundConstant, rootBits_eq (List.mem_range.mp inRange)]

/-- The words of a hash value as the code keeps them. -/
def hashWords (v : HashValue) : List UInt32 :=
  [v.a, v.b, v.c, v.d, v.e, v.f, v.g, v.h].map UInt32.ofBitVec

theorem h_initial : ({} : Sha256Ctx).h = hashWords initial := by
  have table : ({} : Sha256Ctx).h = (List.range 8).map fun t =>
      UInt32.ofBitVec
        (BitVec.ofNat 32 (Nat.nthRoot 2 (firstPrimes.getD t 0 * 2 ^ (32 * 2)))) := by
    decide +kernel
  have same : hashWords initial = (List.range 8).map fun t => UInt32.ofBitVec (rootBits 2 t) := rfl
  rw [table, same]
  refine List.map_congr_left fun t inRange => ?_
  rw [rootBits_eq (by have := List.mem_range.mp inRange; omega)]

-- Compression

theorem compressRound_eq (constant word : Word) (v : HashValue)
    : compressRound (hashWords v) (UInt32.ofBitVec constant, UInt32.ofBitVec word)
      = hashWords (round constant word v) :=
  rfl

theorem zipWith_words (left right : HashValue)
    : List.zipWith (· + ·) (hashWords left) (hashWords right) = hashWords (left.add right) :=
  rfl

/-- The words of a block. -/
def blockWords (block : Bytes) (t : Nat) : Word := (blockWord block t).toBitVec

theorem scheduled_add (block : Nat → Word) (n : Nat)
    : UInt32.ofBitVec (scheduled block (16 + n))
      = UInt32.ofBitVec (scheduled block n)
        + UInt32.ofBitVec (sigma0 (scheduled block (n + 1)))
        + UInt32.ofBitVec (scheduled block (n + 9))
        + UInt32.ofBitVec (sigma1 (scheduled block (n + 14))) := by
  have first : 16 + n - 2 = n + 14 := by omega
  have second : 16 + n - 7 = n + 9 := by omega
  have third : 16 + n - 15 = n + 1 := by omega
  rw [scheduled_of_le (Nat.le_add_right 16 n), first, second, third, Nat.add_sub_cancel_left,
    ← UInt32.ofBitVec_add, ← UInt32.ofBitVec_add, ← UInt32.ofBitVec_add]
  congr 1
  ring

theorem repeat_extendSchedule (block : Bytes) (n : Nat)
    : Nat.repeat extendSchedule n ((List.range 16).map (Crypto.blockWord block))
      = (List.range (16 + n)).map fun t =>
          UInt32.ofBitVec (scheduled (blockWords block) t) := by
  induction n with
  | zero =>
      refine List.map_congr_left fun t inRange => ?_
      rw [scheduled_of_lt (List.mem_range.mp inRange)]
      rfl
  | succ n ih =>
      have entry {t : Nat} (inside : t < 16 + n)
          : ((List.range (16 + n)).map fun t =>
                UInt32.ofBitVec (scheduled (blockWords block) t)).getD t 0
              = UInt32.ofBitVec (scheduled (blockWords block) t) := by
        rw [List.getD_eq_getElem?_getD, List.getElem?_map, List.getElem?_range inside]
        rfl
      have first : 16 + n - 15 = n + 1 := by omega
      have second : 16 + n - 2 = n + 14 := by omega
      have third : 16 + n - 7 = n + 9 := by omega
      rw [Nat.repeat, ih, ← Nat.add_assoc, List.range_succ, List.map_append, List.map_singleton,
        scheduled_add, extendSchedule]
      simp only [List.length_map, List.length_range]
      rw [first, second, third, Nat.add_sub_cancel_left, entry (by omega), entry (by omega),
        entry (by omega), entry (by omega)]
      rfl

theorem schedule_eq (block : Bytes)
    : schedule block
      = (List.range 64).map fun t => UInt32.ofBitVec (scheduled (blockWords block) t) :=
  repeat_extendSchedule block 48

theorem foldl_compressRound (block : Nat → Word) (v : HashValue) (n : Nat)
    : (List.range n).foldl
          (fun v t => compressRound v
            (UInt32.ofBitVec (roundConstant t), UInt32.ofBitVec (scheduled block t)))
          (hashWords v)
      = hashWords (rounds block v n) := by
  induction n with
  | zero => rfl
  | succ n ih =>
      rw [List.range_succ, List.foldl_append, ih, List.foldl_cons, List.foldl_nil,
        compressRound_eq, rounds]

theorem compress_eq (v : HashValue) (block : Bytes)
    : Sha256Ctx.compress (hashWords v) block = hashWords (compress (blockWords block) v) := by
  rw [Sha256Ctx.compress, schedule_eq, kSha256K_eq, List.zip_map', List.foldl_map,
    foldl_compressRound, zipWith_words, compress]

end Creek.Tight.Crypto
