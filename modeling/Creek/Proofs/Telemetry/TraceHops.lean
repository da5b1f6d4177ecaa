import Creek.Telemetry.TraceContext

/-! Headers of traces over any number of hops: which are adopted, and what becomes of the flags. -/

namespace Creek.Telemetry

open Library
open Mesh (Metadata)
open Tight (Bytes)

variable {header traceId spanId flags : Bytes} {headers : TraceHeaders} {draw : Draw}

-- Well-formed headers

/-- The fields of a well-formed header of version 00. -/
structure Traceparent where
  traceId : Bytes
  spanId : Bytes
  flags : Bytes
  traceId_length : traceId.length = 32
  spanId_length : spanId.length = 16
  flags_length : flags.length = 2
  traceId_hex : isHex traceId = true
  spanId_hex : isHex spanId = true
  flags_hex : isHex flags = true

def Traceparent.text (parts : Traceparent) : Bytes :=
  headerText parts.traceId parts.spanId parts.flags

/-- The value of the two digits of the flags. -/
def Traceparent.flagsByte (parts : Traceparent) : Nat := (readDigits 16 parts.flags 0).1

def WellFormed (header : Bytes) : Prop := ∃ parts : Traceparent, parts.text = header

/-- What the parser checks before it has both ids. -/
def Opens (header : Bytes) : Prop :=
  55 ≤ header.length ∧ header.take 3 = ascii "00-" ∧ isHex (substr header 3 32) = true
    ∧ header[35]? = some 45

instance : Decidable (Opens header) := inferInstanceAs (Decidable (_ ∧ _))

theorem headerText_length
    : (headerText traceId spanId flags).length
      = 5 + traceId.length + spanId.length + flags.length := by
  simp only [headerText, List.length_append, show (ascii "00-").length = 3 by decide,
    show (ascii "-").length = 1 by decide]
  omega

theorem Traceparent.text_length (parts : Traceparent) : parts.text.length = 55 := by
  rw [text, headerText_length, parts.traceId_length, parts.spanId_length, parts.flags_length]

/-- The fields of a text with ids of the right lengths. -/
structure Fields (header traceId spanId flags : Bytes) : Prop where
  version : header.take 3 = ascii "00-"
  trace : substr header 3 32 = traceId
  first : header[35]? = some 45
  span : substr header 36 16 = spanId
  second : header[52]? = some 45
  flags : header.drop 53 = flags

theorem fields_headerText (traceLength : traceId.length = 32) (spanLength : spanId.length = 16)
    : Fields (headerText traceId spanId flags) traceId spanId flags := by
  have version : ascii "00-" = [48, 48, 45] := by decide
  have dash : ascii "-" = [45] := by decide
  have shape : headerText traceId spanId flags
      = 48 :: 48 :: 45 :: (traceId ++ 45 :: (spanId ++ 45 :: flags)) := by
    simp only [headerText, version, dash, List.append_assoc, List.cons_append, List.nil_append]
  rw [shape]
  refine ⟨version.symm, ?_, ?_, ?_, ?_, ?_⟩
  · simp [substr, traceLength]
  · simp [traceLength]
  · have beyond : traceId.drop 33 = [] := List.drop_of_length_le (by omega)
    simp [substr, List.drop_append, beyond, traceLength, spanLength]
  · simp [List.getElem?_append_right, traceLength, spanLength]
  · have beyond : traceId.drop 50 = [] := List.drop_of_length_le (by omega)
    have after : spanId.drop 17 = [] := List.drop_of_length_le (by omega)
    simp [List.drop_append, beyond, after, traceLength, spanLength]

-- Adoption

theorem version_iff
    : header.take 3 = ascii "00-"
      ↔ 3 ≤ header.length ∧ header[0]? = some 48 ∧ header[1]? = some 48 ∧ header[2]? = some 45 := by
  rw [show ascii "00-" = [48, 48, 45] by decide]
  match header with
  | [] | [_] | [_, _] => simp
  | first :: second :: third :: rest => simp

/-- A header with all that is checked before it gives its ids to the span. -/
theorem parse_opens (opens : Opens header)
    : (parseTraceparent header).traceId = substr header 3 32
      ∧ (parseTraceparent header).spanId = substr header 36 16 := by
  obtain ⟨long, version, trace, first⟩ := opens
  obtain ⟨-, zero, one, two⟩ := version_iff.mp version
  rw [parseTraceparent, if_neg (by omega), if_neg (by simp [zero, one, two])]
  simp only [trace, first, Bool.not_true, ne_eq, not_true_eq_false, decide_false, Bool.or_self,
    Bool.false_eq_true, if_false]
  split <;> exact ⟨rfl, rfl⟩

theorem parse_shut (shut : ¬Opens header) : (parseTraceparent header).spanId = [] := by
  rw [parseTraceparent]
  split
  · rfl
  rename_i long
  split
  · rfl
  rename_i version
  simp only [ne_eq, Bool.or_eq_true, decide_eq_true_eq, not_or, not_not] at version
  simp only
  split
  · rfl
  · rename_i trace
    simp only [Bool.not_eq_true', ne_eq, Bool.or_eq_true, decide_eq_true_eq, not_or, not_not,
      Bool.not_eq_false] at trace
    exact absurd ⟨by omega, version_iff.mpr ⟨by omega, version.1.1, version.1.2, version.2⟩, trace⟩
      shut

theorem valid_iff_opens : (parseTraceparent header).valid = true ↔ Opens header := by
  constructor
  · intro valid
    by_contra shut
    simp [TraceSpan.valid, parse_shut shut] at valid
  · intro opens
    have long := opens.1
    simp only [TraceSpan.valid, (parse_opens opens).1, (parse_opens opens).2, substr,
      List.length_take, List.length_drop]
    simp
    omega

theorem extract_opens (opens : Opens header) (draw : Draw) (tracestate : Bytes)
    : extractOrCreate draw header tracestate
      = { parseTraceparent header with traceState := tracestate } := by
  have nonempty : header.isEmpty = false := by
    rw [List.isEmpty_eq_false_iff, ← List.length_pos_iff]
    exact Nat.lt_of_lt_of_le (by decide) opens.1
  simp only [extractOrCreate, nonempty, valid_iff_opens.mpr opens, Bool.false_eq_true, if_false,
    if_true]

theorem extract_shut (shut : ¬Opens header) (draw : Draw) (tracestate : Bytes)
    : extractOrCreate draw header tracestate
      = { traceId := draw.traceId, spanId := draw.rootId, traceState := tracestate } := by
  have invalid : (parseTraceparent header).valid = false := by
    rw [Bool.eq_false_iff, ne_eq, valid_iff_opens]
    exact shut
  simp only [extractOrCreate, invalid, Bool.false_eq_true, if_false, ite_self]

/-- Whatever is drawn, the span has the ids of the header. -/
def Adopts (header : Bytes) : Prop :=
  ∀ (draw : Draw) (tracestate : Bytes),
    (extractOrCreate draw header tracestate).traceId = substr header 3 32
    ∧ (extractOrCreate draw header tracestate).spanId = substr header 36 16

/-- The span has the ids that are drawn. -/
def StartsFresh (header : Bytes) : Prop :=
  ∀ (draw : Draw) (tracestate : Bytes),
    (extractOrCreate draw header tracestate).traceId = draw.traceId
    ∧ (extractOrCreate draw header tracestate).spanId = draw.rootId

theorem startsFresh_of_shut (shut : ¬Opens header) : StartsFresh header := by
  intro draw tracestate
  rw [extract_shut shut]
  exact ⟨rfl, rfl⟩

theorem adopts_iff : Adopts header ↔ Opens header := by
  constructor
  · intro adopts
    by_contra shut
    let drawn (byte : UInt8) : Draw :=
      { trace := .replicate 16 byte, root := .replicate 8 byte, child := .replicate 8 byte }
    have fresh (byte : UInt8) : substr header 3 32 = (drawn byte).traceId :=
      (adopts (drawn byte) []).1.symm.trans (startsFresh_of_shut shut (drawn byte) []).1
    exact absurd ((fresh 0).symm.trans (fresh 1)) (by decide)
  · intro opens draw tracestate
    rw [extract_opens opens]
    exact parse_opens opens

theorem WellFormed.opens (formed : WellFormed header) : Opens header := by
  obtain ⟨parts, rfl⟩ := formed
  have fields : Fields parts.text parts.traceId parts.spanId parts.flags :=
    fields_headerText parts.traceId_length parts.spanId_length
  exact ⟨parts.text_length.ge, fields.version, fields.trace ▸ parts.traceId_hex, fields.first⟩

-- The flags from one hop to the next

theorem digitValue?_of_isxdigit {byte : UInt8} (hex : isxdigit byte = true)
    : ∃ digit, digitValue? byte = some digit ∧ digit < 16 := by
  simp only [isxdigit, Bool.or_eq_true, Bool.and_eq_true, decide_eq_true_eq, UInt8.le_iff_toNat_le]
    at hex
  simp only [digitValue?, Bool.and_eq_true, decide_eq_true_eq, UInt8.le_iff_toNat_le]
  rcases hex with (digit | upper) | lower
  · exact ⟨_, if_pos digit, by simp only [UInt8.reduceToNat] at digit; omega⟩
  all_goals simp only [UInt8.reduceToNat] at *
  · exact ⟨_, (if_neg (by omega)).trans (if_pos (by omega)), by omega⟩
  · exact ⟨_, ((if_neg (by omega)).trans (if_neg (by omega))).trans (if_pos (by omega)), by omega⟩

/-- What the digits of a number stand for when they are read in hexadecimal. -/
def hexReading (number : Nat) : Nat := (readDigits 16 (decimal number) 0).1

theorem allDigits_mono {base larger : Nat} {text : List UInt8} (digits : AllDigits base text)
    (le : base ≤ larger)
    : AllDigits larger text := by
  intro byte member
  obtain ⟨digit, valued, small⟩ := digits byte member
  exact ⟨digit, valued, by omega⟩

theorem hexReading_eq (number : Nat)
    : hexReading number
      = if number < 10 then number else 16 * hexReading (number / 10) + number % 10 := by
  conv_lhs => rw [hexReading, decimal_eq]
  split
  · rename_i small
    simp only [readDigits, digitValue?_digit small, if_pos (by omega : number < 16)]
    omega
  · have small : number % 10 < 10 := Nat.mod_lt _ (by decide)
    rw [readDigits_append (allDigits_mono (allDigits_decimal _) (by decide)), ← hexReading]
    simp only [readDigits, digitValue?_digit small, if_pos (by omega : number % 10 < 16)]
    omega

theorem le_hexReading (number : Nat) : number ≤ hexReading number := by
  induction number using Nat.strong_induction_on with
  | _ number ih =>
      rw [hexReading_eq]
      split
      · exact Nat.le_refl number
      · have above := ih (number / 10) (by omega)
        omega

theorem lt_hexReading {number : Nat} (ten : 10 ≤ number) : number < hexReading number := by
  have above := le_hexReading (number / 10)
  rw [hexReading_eq, if_neg (by omega)]
  omega

/-- Digits are what the flags are read from, up to what an `int` holds. -/
theorem readFlags_digits {text : Bytes} (digits : AllDigits 16 text) (nonempty : text ≠ [])
    : readFlags text
      = if (readDigits 16 text 0).1 ≤ 2147483647 then ((readDigits 16 text 0).1 : Int) else 0 := by
  have trimmed : trimEnd text = text := by
    rw [trimEnd, List.dropWhile_eq_self_iff.mpr, List.reverse_reverse]
    intro long
    obtain ⟨digit, valued, -⟩ := digits _ (List.mem_reverse.mp (List.getElem_mem long))
    intro blank
    rw [of_decide_eq_true blank] at valued
    exact nomatch valued
  rw [readFlags, trimmed, stoi_digits digits nonempty]
  split <;> rfl

theorem Traceparent.readFlags_flags (parts : Traceparent)
    : readFlags parts.flags = parts.flagsByte := by
  obtain ⟨first, second, same⟩ := List.length_eq_two.mp parts.flags_length
  have digits : AllDigits 16 parts.flags := fun byte member =>
    digitValue?_of_isxdigit (List.all_eq_true.mp parts.flags_hex byte member)
  have nonempty : parts.flags ≠ [] := by
    rw [same]
    exact List.cons_ne_nil first _
  have small : (readDigits 16 parts.flags 0).1 ≤ 2147483647 := by
    rw [same] at digits ⊢
    obtain ⟨high, highValue, highSmall⟩ := digits first (by simp)
    obtain ⟨low, lowValue, lowSmall⟩ := digits second (by simp)
    simp only [readDigits, highValue, lowValue, if_pos highSmall, if_pos lowSmall]
    omega
  rw [readFlags_digits digits nonempty, if_pos small, flagsByte]

theorem flagsText_nat (number : Nat)
    : flagsText number = if number < 10 then [48, 48 + number.toUInt8] else decimal number := by
  have zero : ascii "0" = [48] := by decide
  rw [flagsText, signedDecimal, if_neg (by omega : ¬(number : Int) < 0), Int.natAbs_natCast, zero]
  split
  · rename_i small
    rw [if_pos (by omega), decimal_eq, if_pos (by omega)]
    rfl
  · rename_i large
    rw [if_neg (by omega)]
    rfl

theorem readFlags_flagsText (number : Nat)
    : readFlags (flagsText number)
      = if hexReading number ≤ 2147483647 then (hexReading number : Int) else 0 := by
  rw [flagsText_nat]
  split
  · rename_i small
    have digits : AllDigits 16 [48, 48 + number.toUInt8] := by
      rintro byte (_ | ⟨_, _ | ⟨_, ⟨⟩⟩⟩)
      · exact ⟨0, rfl, by decide⟩
      · exact ⟨number, digitValue?_digit small, by omega⟩
    have value : (readDigits 16 [48, 48 + number.toUInt8] 0).1 = hexReading number := by
      rw [hexReading_eq, if_pos small]
      simp only [readDigits, digitValue?_digit small, if_pos (by omega : number < 16),
        show digitValue? 48 = some 0 by decide, if_pos (by decide : 0 < 16)]
      omega
    rw [readFlags_digits digits (List.cons_ne_nil _ _), value]
  · exact readFlags_digits (allDigits_mono (allDigits_decimal number) (by decide))
      (decimal_ne_nil number)

/-- The number that a hop makes of printed flags. -/
def carry (number : Nat) : Nat := if hexReading number ≤ 2147483647 then hexReading number else 0

theorem readFlags_flagsText_eq (number : Nat) : readFlags (flagsText number) = carry number := by
  rw [readFlags_flagsText, carry]
  split <;> rfl

theorem carry_small {number : Nat} (small : number ≤ 9) : carry number = number := by
  have same : hexReading number = number := by
    rw [hexReading_eq, if_pos (by omega)]
  rw [carry, same, if_pos (by omega)]

theorem carry_iterate_small {number : Nat} (small : number ≤ 9) (count : Nat)
    : carry^[count] number = number :=
  Function.iterate_fixed (carry_small small) count

/-- The number grows until it no longer fits and is taken for zero. -/
theorem carry_iterate_strays (number count : Nat)
    : carry^[count] number = 0 ∨ number ≤ carry^[count] number := by
  induction count with
  | zero => exact .inr (Nat.le_refl number)
  | succ count ih =>
      rw [Function.iterate_succ_apply', carry]
      rcases ih with zero | above
      · rw [zero]
        exact .inl (by decide)
      · have larger := le_hexReading (carry^[count] number)
        split
        · exact .inr (by omega)
        · exact .inl rfl

/-- From ten on a number that a hop has changed does not come back. -/
theorem carry_strays {number reached : Nat} (ten : 10 ≤ number)
    (strays : reached = 0 ∨ number ≤ reached)
    : carry reached ≠ number := by
  rcases strays with rfl | above
  · rw [carry_small (by decide)]
    omega
  · have larger := lt_hexReading (by omega : 10 ≤ reached)
    rw [carry]
    split <;> omega

-- Hops

theorem flagsText_length (number : Nat) : 2 ≤ (flagsText number).length := by
  rw [flagsText_nat]
  split
  · exact Nat.le_refl 2
  · rename_i large
    rw [decimal_eq, if_neg large, List.length_append]
    have some := List.length_pos_iff.mpr (decimal_ne_nil (number / 10))
    simp only [List.length_singleton]
    omega

theorem parse_headerText (traceLength : traceId.length = 32) (spanLength : spanId.length = 16)
    (traceHex : isHex traceId = true) (spanHex : isHex spanId = true) (long : 2 ≤ flags.length)
    : parseTraceparent (headerText traceId spanId flags)
      = { traceId, spanId, flags := readFlags flags } := by
  have fields := @fields_headerText traceId spanId flags traceLength spanLength
  obtain ⟨-, zero, one, two⟩ := version_iff.mp fields.version
  have enough : ¬(headerText traceId spanId flags).length < 55 := by
    rw [headerText_length]
    omega
  rw [parseTraceparent, if_neg enough, if_neg (by simp [zero, one, two])]
  simp only [fields.trace, fields.first, fields.span, fields.second, fields.flags, traceHex, spanHex]
  rfl

/-- A hop hands on the ids and the state, and the flags that it has read. -/
theorem hop_headerText (parts : Traceparent) {flags : Bytes} (long : 2 ≤ flags.length)
    (tracestate : Bytes) (draw : Draw)
    : hop { traceparent := headerText parts.traceId parts.spanId flags, tracestate } draw
      = { traceparent := headerText parts.traceId parts.spanId (flagsText (readFlags flags)),
          tracestate } := by
  have parsed := parse_headerText parts.traceId_length parts.spanId_length parts.traceId_hex
    parts.spanId_hex long
  have fields := @fields_headerText parts.traceId parts.spanId flags parts.traceId_length
    parts.spanId_length
  have opens : Opens (headerText parts.traceId parts.spanId flags) := by
    refine ⟨?_, fields.version, ?_, fields.first⟩
    · rw [headerText_length, parts.traceId_length, parts.spanId_length]
      omega
    · rw [fields.trace]
      exact parts.traceId_hex
  simp only [hop, TraceHeaders.child, extract_opens opens, parsed, createChild,
    TraceSpan.traceparentSwapped]

theorem hops_headerText (parts : Traceparent) (number : Nat) (tracestate : Bytes)
    (draws : List Draw)
    : hops { traceparent := headerText parts.traceId parts.spanId (flagsText number), tracestate }
        draws
      = { traceparent := headerText parts.traceId parts.spanId
            (flagsText (carry^[draws.length] number)),
          tracestate } := by
  induction draws generalizing number with
  | nil => rfl
  | cons draw draws ih =>
      rw [hops, List.foldl_cons, hop_headerText parts (flagsText_length number),
        readFlags_flagsText_eq]
      exact ih (carry number)

theorem Traceparent.flags_small (parts : Traceparent) (small : parts.flagsByte ≤ 9)
    : parts.flags = flagsText parts.flagsByte := by
  obtain ⟨first, second, same⟩ := List.length_eq_two.mp parts.flags_length
  have digits : AllDigits 16 parts.flags := fun byte member =>
    digitValue?_of_isxdigit (List.all_eq_true.mp parts.flags_hex byte member)
  rw [same] at digits
  obtain ⟨high, highValue, highSmall⟩ := digits first (by simp)
  obtain ⟨low, lowValue, lowSmall⟩ := digits second (by simp)
  have value : parts.flagsByte = high * 16 + low := by
    simp only [flagsByte, same, readDigits, highValue, lowValue, if_pos highSmall, if_pos lowSmall]
    omega
  have zero : high = 0 := by omega
  rw [flagsText_nat, if_pos (by omega), same, eq_of_digitValue? highValue (by omega),
    eq_of_digitValue? lowValue (by omega), value, zero]
  simp

-- Runs of hops

/-- After the hops a well-formed header is one again, with the same trace id and flags. -/
def Survives (header : Bytes) (draws : List Draw) : Prop :=
  ∀ parts : Traceparent, parts.text = header → ∀ tracestate, ∃ sent : Traceparent,
    hops { traceparent := header, tracestate } draws = { traceparent := sent.text, tracestate }
      ∧ sent.traceId = parts.traceId
      ∧ sent.flagsByte = parts.flagsByte

theorem Traceparent.text_flags {sent : Traceparent} {traceId spanId flags : Bytes}
    (same : sent.text = headerText traceId spanId flags) (traceLength : traceId.length = 32)
    (spanLength : spanId.length = 16)
    : sent.flags = flags := by
  have fields := @fields_headerText traceId spanId flags traceLength spanLength
  have own : Fields sent.text sent.traceId sent.spanId sent.flags :=
    fields_headerText sent.traceId_length sent.spanId_length
  rw [← own.flags, same, fields.flags]

theorem survives_text_iff (parts : Traceparent) (draws : List Draw)
    : Survives parts.text draws ↔ draws = [] ∨ parts.flagsByte ≤ 9 := by
  constructor
  · intro survives
    by_contra lost
    simp only [not_or, Nat.not_le] at lost
    obtain ⟨sent, reached, -, byte⟩ := survives parts rfl []
    obtain ⟨draw, rest, rfl⟩ := List.exists_cons_of_ne_nil lost.1
    rw [hops, List.foldl_cons, Traceparent.text,
      hop_headerText parts (Nat.le_of_eq parts.flags_length.symm), parts.readFlags_flags] at reached
    have after := hops_headerText parts parts.flagsByte [] rest
    have text := congrArg TraceHeaders.traceparent (reached.symm.trans after)
    have printed := Traceparent.text_flags text parts.traceId_length parts.spanId_length
    have read := sent.readFlags_flags
    rw [printed, readFlags_flagsText_eq, byte] at read
    exact carry_strays lost.2 (carry_iterate_strays parts.flagsByte rest.length)
      (Int.ofNat_inj.mp read)
  · intro kept other same tracestate
    have unchanged : hops { traceparent := parts.text, tracestate } draws
        = { traceparent := parts.text, tracestate } := by
      rcases kept with rfl | small
      · rfl
      · have after := hops_headerText parts parts.flagsByte tracestate draws
        rw [carry_iterate_small small, ← parts.flags_small small] at after
        exact after
    exact ⟨other, by rw [same]; exact unchanged, rfl, rfl⟩

/-- Hops keep a header, and its ids are adopted if and only if it is well-formed, exactly when its
flags are at most nine, or there is no hop, and when no header passes as one by its first 36
characters only.
-/
theorem trace_survives_iff (header : Bytes) (draws : List Draw)
    : Survives header draws
        ∧ (Adopts header ↔ WellFormed header)
        ∧ (¬WellFormed header → StartsFresh header)
      ↔ (∀ parts : Traceparent, parts.text = header → draws = [] ∨ parts.flagsByte ≤ 9)
        ∧ (Opens header → WellFormed header) := by
  constructor
  · rintro ⟨survives, adopted, -⟩
    refine ⟨?_, fun opens => adopted.mp (adopts_iff.mpr opens)⟩
    rintro parts rfl
    exact (survives_text_iff parts draws).mp survives
  · rintro ⟨small, whole⟩
    refine ⟨?_, ⟨fun adopts => whole (adopts_iff.mp adopts), fun formed =>
      adopts_iff.mpr formed.opens⟩, fun malformed => startsFresh_of_shut (malformed ∘ whole)⟩
    intro parts same
    have survives := (survives_text_iff parts draws).mpr (small parts same)
    exact same ▸ survives parts rfl

/-- A hop turns the flags `10` into `16`, and a header is adopted whose span id is no number. -/
theorem header_lost
    : ¬Survives (ascii "00-4bf92f3577b34da6a3ce929d0e0e4736-00f067aa0ba902b7-10")
          [⟨.replicate 16 0, .replicate 8 0, .replicate 8 0⟩]
      ∧ Adopts (ascii "00-4bf92f3577b34da6a3ce929d0e0e4736-00f067aa0ba902zz-01")
      ∧ ¬WellFormed (ascii "00-4bf92f3577b34da6a3ce929d0e0e4736-00f067aa0ba902zz-01") := by
  refine ⟨?_, adopts_iff.mpr (by decide), ?_⟩
  · let parts : Traceparent :=
      { traceId := ascii "4bf92f3577b34da6a3ce929d0e0e4736"
        spanId := ascii "00f067aa0ba902b7"
        flags := ascii "10"
        traceId_length := by decide
        spanId_length := by decide
        flags_length := by decide
        traceId_hex := by decide
        spanId_hex := by decide
        flags_hex := by decide }
    have text : parts.text
        = ascii "00-4bf92f3577b34da6a3ce929d0e0e4736-00f067aa0ba902b7-10" := by decide
    rw [← text, survives_text_iff]
    decide
  · rintro ⟨parts, text⟩
    have fields : Fields parts.text parts.traceId parts.spanId parts.flags :=
      fields_headerText parts.traceId_length parts.spanId_length
    have hex := parts.spanId_hex
    rw [← fields.span, text] at hex
    exact absurd hex (by decide)

-- What a leaf hands on

theorem traceHeaders_forwardTrace (draw : Draw) (metadata : Metadata)
    : traceHeaders (forwardTrace draw metadata) = hop (traceHeaders metadata) draw := by
  have differ : ¬compare (ascii "traceparent") (ascii "tracestate") = .eq := by decide
  have differs : ¬compare (ascii "tracestate") (ascii "traceparent") = .eq := by decide
  have state : ((traceHeaders metadata).child draw).traceState
      = (traceHeaders metadata).tracestate := by
    by_cases opens : Opens (traceHeaders metadata).traceparent
    · rw [TraceHeaders.child, extract_opens opens, createChild]
    · rw [TraceHeaders.child, extract_shut opens, createChild]
  rw [forwardTrace, hop]
  split
  · have none : ((traceHeaders metadata).child draw).traceState
        = metadata.getD (ascii "tracestate") [] := state
    rw [none]
    rw [traceHeaders, Std.TreeMap.getD_insert_self, Std.TreeMap.getD_insert, if_neg differ]
  · rw [traceHeaders, Std.TreeMap.getD_insert_self, Std.TreeMap.getD_insert, if_neg differs,
      Std.TreeMap.getD_insert_self]

end Creek.Telemetry
