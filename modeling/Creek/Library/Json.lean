import Creek.Library.Numerals

/-! JSON texts: a reader after the grammar of RFC 8259, and rules for what it reads from texts without
blanks.
-/

namespace Creek.Library

/-- Strings are in UTF-8. The members of an object are in the order of the text. -/
inductive Json where
  | null
  | bool (value : Bool)
  | number (value : ℚ)
  | string (value : List UInt8)
  | array (items : List Json)
  | object (members : List (List UInt8 × Json))
  deriving Repr

/-- The bytes of some characters. -/
def Utf8 (text : List UInt8) : Prop := ∃ chars : List Char, text = chars.flatMap String.utf8EncodeChar

theorem utf8EncodeChar_ascii {byte : UInt8} (low : byte.toNat < 128)
    : String.utf8EncodeChar (Char.ofNat byte.toNat) = [byte] := by
  have valid : byte.toNat.isValidChar := .inl (by omega)
  have code : (Char.ofNat byte.toNat).val.toNat = byte.toNat := by
    rw [Char.ofNat, dif_pos valid]
    rfl
  rw [String.utf8EncodeChar, code]
  refine (if_pos (by omega)).trans ?_
  rw [UInt8.ofNat_toNat]

/-- The bytes of a character are one byte of ASCII, or none of them is. -/
theorem utf8EncodeChar_cases (char : Char)
    : (∃ byte : UInt8, byte.toNat < 128 ∧ String.utf8EncodeChar char = [byte])
      ∨ ∀ byte ∈ String.utf8EncodeChar char, 128 ≤ byte.toNat := by
  rw [String.utf8EncodeChar]
  split
  · refine .inl ⟨_, ?_, rfl⟩
    rw [UInt8.toNat_ofNat']
    omega
  · right
    split
    · simp only [List.mem_cons, List.not_mem_nil, or_false, forall_eq_or_imp, forall_eq,
        UInt8.toNat_ofNat']
      omega
    · split
      · simp only [List.mem_cons, List.not_mem_nil, or_false, forall_eq_or_imp, forall_eq,
          UInt8.toNat_ofNat']
        omega
      · simp only [List.mem_cons, List.not_mem_nil, or_false, forall_eq_or_imp, forall_eq,
          UInt8.toNat_ofNat']
        omega

theorem Utf8.nil : Utf8 [] := ⟨[], rfl⟩

theorem Utf8.append {front back : List UInt8} (left : Utf8 front) (right : Utf8 back)
    : Utf8 (front ++ back) := by
  obtain ⟨chars, rfl⟩ := left
  obtain ⟨others, rfl⟩ := right
  exact ⟨chars ++ others, List.flatMap_append.symm⟩

theorem Utf8.flatten {parts : List (List UInt8)} (each : ∀ part ∈ parts, Utf8 part)
    : Utf8 parts.flatten := by
  induction parts with
  | nil => exact .nil
  | cons part parts ih =>
      rw [List.flatten_cons]
      exact (each part List.mem_cons_self).append
        (ih fun other member => each other (List.mem_cons_of_mem _ member))

theorem Utf8.ascii {text : List UInt8} (low : ∀ byte ∈ text, byte.toNat < 128) : Utf8 text := by
  refine ⟨text.map fun byte => Char.ofNat byte.toNat, ?_⟩
  rw [List.flatMap_map]
  induction text with
  | nil => rfl
  | cons byte text ih =>
      rw [List.flatMap_cons, utf8EncodeChar_ascii (low byte List.mem_cons_self),
        ← ih fun other member => low other (List.mem_cons_of_mem _ member)]
      rfl

theorem Utf8.intercalate {mark : List UInt8} {parts : List (List UInt8)} (between : Utf8 mark)
    (each : ∀ part ∈ parts, Utf8 part)
    : Utf8 (mark.intercalate parts) := by
  induction parts with
  | nil => exact .nil
  | cons part parts ih =>
      have first := each part List.mem_cons_self
      have later := ih fun other member => each other (List.mem_cons_of_mem _ member)
      cases parts with
      | nil =>
          rw [List.intercalate_singleton]
          exact first
      | cons second parts =>
          rw [List.intercalate_cons_cons]
          exact (first.append between).append later

/-- Replacing the bytes of ASCII in a text by texts leaves the other characters whole. -/
theorem Utf8.flatMap {text : List UInt8} {parts : UInt8 → List UInt8} (utf8 : Utf8 text)
    (low : ∀ byte : UInt8, byte.toNat < 128 → Utf8 (parts byte))
    (high : ∀ byte : UInt8, 128 ≤ byte.toNat → parts byte = [byte])
    : Utf8 (text.flatMap parts) := by
  obtain ⟨chars, rfl⟩ := utf8
  rw [List.flatMap_assoc, List.flatMap_def]
  refine .flatten fun part member => ?_
  obtain ⟨char, -, rfl⟩ := List.mem_map.mp member
  rcases utf8EncodeChar_cases char with ⟨byte, small, single⟩ | large
  · rw [single, List.flatMap_singleton]
    exact low byte small
  · have whole : (String.utf8EncodeChar char).flatMap parts = String.utf8EncodeChar char := by
      rw [List.flatMap_congr fun byte member => high byte (large byte member)]
      exact List.flatMap_singleton' _
    rw [whole]
    exact ⟨[char], (List.flatMap_singleton _ _).symm⟩

namespace Json

-- The reader

def isBlank (byte : UInt8) : Bool := byte = 32 || byte = 9 || byte = 10 || byte = 13

def skipBlanks (text : List UInt8) : List UInt8 := text.dropWhile isBlank

/-- What a string is made of: bytes as they are, and code units given by their numbers. -/
inductive Piece where
  | byte (byte : UInt8)
  | unit (code : Nat)

/-- The byte that a short escape stands for. -/
def shortEscape (mark : UInt8) : Option UInt8 :=
  [(34, 34), (92, 92), (47, 47), (98, 8), (102, 12), (110, 10), (114, 13), (116, 9)].lookup mark

/-- Four hexadecimal digits. -/
def hexUnit (digits : List UInt8) : Option Nat :=
  digits.foldl (fun code digit => do
    let code ← code
    let digit ← digitValue? digit
    if digit < 16 then some (code * 16 + digit) else none) (some 0)

/-- The pieces of a string up to its closing quote. -/
def scanPieces : List UInt8 → Option (List Piece × List UInt8)
  | [] => none
  | 34 :: rest => some ([], rest)
  | 92 :: 117 :: a :: b :: c :: d :: rest => do
      let code ← hexUnit [a, b, c, d]
      let (pieces, rest) ← scanPieces rest
      return (.unit code :: pieces, rest)
  | 92 :: mark :: rest => do
      let byte ← shortEscape mark
      let (pieces, rest) ← scanPieces rest
      return (.byte byte :: pieces, rest)
  | byte :: rest =>
      if byte < 32 then none
      else do
        let (pieces, rest) ← scanPieces rest
        return (.byte byte :: pieces, rest)

/-- The string of some pieces; surrogates stand in pairs. -/
def assemble : List Piece → Option (List UInt8)
  | [] => some []
  | .byte byte :: pieces => (assemble pieces).map (byte :: ·)
  | .unit high :: .unit low :: pieces =>
      if 0xd800 ≤ high ∧ high < 0xdc00 then
        if 0xdc00 ≤ low ∧ low < 0xe000 then
          let char := Char.ofNat (0x10000 + (high - 0xd800) * 0x400 + (low - 0xdc00))
          (assemble pieces).map (String.utf8EncodeChar char ++ ·)
        else none
      else if 0xdc00 ≤ high ∧ high < 0xe000 then none
      else (assemble (.unit low :: pieces)).map (String.utf8EncodeChar (Char.ofNat high) ++ ·)
  | .unit code :: pieces =>
      if 0xd800 ≤ code ∧ code < 0xe000 then none
      else (assemble pieces).map (String.utf8EncodeChar (Char.ofNat code) ++ ·)

/-- A string after its opening quote. -/
def scanString (text : List UInt8) : Option (List UInt8 × List UInt8) := do
  let (pieces, rest) ← scanPieces text
  let value ← assemble pieces
  return (value, rest)

/-- Digits, how many there are, and the text behind them. -/
def scanDigits (text : List UInt8) : Option (Nat × Nat × List UInt8) :=
  if startsWithDigit 10 text then
    let (value, rest) := readDigits 10 text 0
    some (value, text.length - rest.length, rest)
  else none

/-- A whole number without leading zeros. -/
def scanWhole (text : List UInt8) : Option (Nat × List UInt8) :=
  match text with
  | 48 :: rest => some (0, rest)
  | _ => (scanDigits text).map fun (value, _, rest) => (value, rest)

/-- The fraction of a number, if there is one. -/
def scanFraction (text : List UInt8) : Option (ℚ × List UInt8) :=
  match text with
  | 46 :: rest => (scanDigits rest).map fun (value, count, rest) => ((value : ℚ) / 10 ^ count, rest)
  | _ => some (0, text)

/-- The factor of an exponent, if there is one. -/
def scanExponent (text : List UInt8) : Option (ℚ × List UInt8) :=
  match text with
  | mark :: rest =>
      if mark = 101 || mark = 69 then
        match rest with
        | 45 :: rest => (scanDigits rest).map fun (value, _, rest) => (1 / (10 : ℚ) ^ value, rest)
        | 43 :: rest => (scanDigits rest).map fun (value, _, rest) => ((10 : ℚ) ^ value, rest)
        | _ => (scanDigits rest).map fun (value, _, rest) => ((10 : ℚ) ^ value, rest)
      else some (1, text)
  | [] => some (1, text)

def scanNumber (text : List UInt8) : Option (ℚ × List UInt8) := do
  let (sign, text) : ℚ × List UInt8 :=
    match text with
    | 45 :: rest => (-1, rest)
    | _ => (1, text)
  let (whole, text) ← scanWhole text
  let (fraction, text) ← scanFraction text
  let (factor, text) ← scanExponent text
  return (sign * ((whole : ℚ) + fraction) * factor, text)

/-- A word of the grammar. -/
def scanWord (word : List UInt8) (value : Json) (text : List UInt8) : Option (Json × List UInt8) :=
  if word.isPrefixOf text then some (value, text.drop word.length) else none

mutual

/-- A value, and the text behind it. -/
def readValue : Nat → List UInt8 → Option (Json × List UInt8)
  | 0, _ => none
  | fuel + 1, text =>
      match skipBlanks text with
      | [] => none
      | byte :: rest =>
          if byte = 34 then (scanString rest).map fun (value, rest) => (.string value, rest)
          else if byte = 91 then
            match skipBlanks rest with
            | 93 :: rest => some (.array [], rest)
            | _ => (readItems fuel rest).map fun (items, rest) => (.array items, rest)
          else if byte = 123 then
            match skipBlanks rest with
            | 125 :: rest => some (.object [], rest)
            | _ => (readMembers fuel rest).map fun (members, rest) => (.object members, rest)
          else if byte = 110 then scanWord (ascii "null") .null (byte :: rest)
          else if byte = 116 then scanWord (ascii "true") (.bool true) (byte :: rest)
          else if byte = 102 then scanWord (ascii "false") (.bool false) (byte :: rest)
          else (scanNumber (byte :: rest)).map fun (value, rest) => (.number value, rest)

/-- The items of an array up to its closing bracket. -/
def readItems : Nat → List UInt8 → Option (List Json × List UInt8)
  | 0, _ => none
  | fuel + 1, text => do
      let (item, rest) ← readValue fuel text
      match skipBlanks rest with
      | 44 :: rest =>
          let (items, rest) ← readItems fuel rest
          return (item :: items, rest)
      | 93 :: rest => return ([item], rest)
      | _ => none

/-- The members of an object up to its closing brace. -/
def readMembers : Nat → List UInt8 → Option (List (List UInt8 × Json) × List UInt8)
  | 0, _ => none
  | fuel + 1, text =>
      match skipBlanks text with
      | 34 :: rest => do
          let (name, rest) ← scanString rest
          match skipBlanks rest with
          | 58 :: rest =>
              let (value, rest) ← readValue fuel rest
              match skipBlanks rest with
              | 44 :: rest =>
                  let (members, rest) ← readMembers fuel rest
                  return ((name, value) :: members, rest)
              | 125 :: rest => return ([(name, value)], rest)
              | _ => none
          | _ => none
      | _ => none

end

/-- The value of a text that is one JSON document. A level of nesting takes two steps. -/
def decode (text : List UInt8) : Option Json := do
  let (value, rest) ← readValue (2 * text.length + 1) text
  if skipBlanks rest = [] then some value else none

-- What is read from strings

variable {text rest : List UInt8} {byte : UInt8} {value : Json}

/-- A part of a string that spells one byte. -/
def Spells (part : List UInt8) (byte : UInt8) : Prop :=
  ∃ piece, (∀ text, scanPieces (part ++ text)
      = (scanPieces text).map fun (pieces, rest) => (piece :: pieces, rest))
    ∧ ∀ pieces, assemble (piece :: pieces) = (assemble pieces).map (byte :: ·)

theorem Spells.raw (quote : byte ≠ 34) (backslash : byte ≠ 92) (printable : ¬byte < 32)
    : Spells [byte] byte := by
  refine ⟨.byte byte, fun text => ?_, fun _ => rfl⟩
  rw [List.singleton_append, scanPieces]
  · rw [if_neg printable]
    cases scanPieces text <;> rfl
  · exact quote
  · intro _ _ _ _ _ same
    exact absurd same backslash
  · intro _ _ same
    exact absurd same backslash

theorem Spells.short {mark : UInt8} (escapes : shortEscape mark = some byte)
    : Spells [92, mark] byte := by
  have other : mark ≠ 117 := by
    intro same
    have none : shortEscape 117 = none := by decide
    rw [same, none] at escapes
    cases escapes
  refine ⟨.byte byte, fun text => ?_, fun _ => rfl⟩
  rw [List.cons_append, List.singleton_append, scanPieces]
  · rw [escapes]
    cases scanPieces text <;> rfl
  · intro _ _ _ _ _ same
    exact absurd same other

/-- A control byte may be given by its number. -/
theorem Spells.unicode {high low : UInt8} (unit : hexUnit [48, 48, high, low] = some byte.toNat)
    (control : byte.toNat < 128)
    : Spells [92, 117, 48, 48, high, low] byte := by
  have encoded := utf8EncodeChar_ascii control
  refine ⟨.unit byte.toNat, fun text => ?_, fun pieces => ?_⟩
  · simp only [List.cons_append, List.nil_append, scanPieces, unit]
    cases scanPieces text <;> rfl
  · rcases pieces with - | ⟨other | low, pieces⟩
    · conv_lhs => rw [assemble.eq_def]
      simp only [if_neg (by omega : ¬(0xd800 ≤ byte.toNat ∧ byte.toNat < 0xe000)), encoded]
      rfl
    · conv_lhs => rw [assemble.eq_def]
      simp only [if_neg (by omega : ¬(0xd800 ≤ byte.toNat ∧ byte.toNat < 0xe000)), encoded]
      rfl
    · conv_lhs => rw [assemble.eq_def]
      simp only [if_neg (by omega : ¬(0xd800 ≤ byte.toNat ∧ byte.toNat < 0xdc00)),
        if_neg (by omega : ¬(0xdc00 ≤ byte.toNat ∧ byte.toNat < 0xe000)), encoded]
      rfl

/-- A string is read from parts that spell its bytes. -/
theorem scanString_flatMap {parts : UInt8 → List UInt8} {string : List UInt8}
    (spells : ∀ byte ∈ string, Spells (parts byte) byte) (rest : List UInt8)
    : scanString (string.flatMap parts ++ 34 :: rest) = some (string, rest) := by
  have scanned : ∃ pieces, scanPieces (string.flatMap parts ++ 34 :: rest) = some (pieces, rest)
      ∧ assemble pieces = some string := by
    induction string with
    | nil => exact ⟨[], rfl, rfl⟩
    | cons byte string ih =>
        obtain ⟨pieces, scanned, assembled⟩ :=
          ih fun other member => spells other (List.mem_cons_of_mem _ member)
        obtain ⟨piece, scans, assembles⟩ := spells byte List.mem_cons_self
        refine ⟨piece :: pieces, ?_, ?_⟩
        · rw [List.flatMap_cons, List.append_assoc, scans, scanned]
          rfl
        · rw [assembles, assembled]
          rfl
  obtain ⟨pieces, scanned, assembled⟩ := scanned
  rw [scanString, scanned]
  simp [assembled]

/-- A string may have these bytes in it as they are. -/
def isPlain (byte : UInt8) : Bool := 32 ≤ byte && byte != 34 && byte != 92

/-- A string that needs no escapes is read as it stands. -/
theorem scanString_plain {string : List UInt8} (plain : string.all isPlain = true) (rest : List UInt8)
    : scanString (string ++ 34 :: rest) = some (string, rest) := by
  have parts := @scanString_flatMap (fun byte => [byte]) string (fun byte member => by
    have bounds := List.all_eq_true.mp plain byte member
    simp only [isPlain, Bool.and_eq_true, decide_eq_true_eq, bne_iff_ne] at bounds
    exact .raw bounds.1.2 bounds.2 (UInt8.not_lt.mpr bounds.1.1)) rest
  rwa [List.flatMap_singleton'] at parts

-- What is read from texts without blanks

/-- Nothing, or a comma or a closing bracket. -/
def Ends (rest : List UInt8) : Prop := ∀ byte ∈ rest.head?, byte = 44 ∨ byte = 93 ∨ byte = 125

/-- The text begins like a value, and is read as one wherever a value may end. -/
structure Reads (text : List UInt8) (value : Json) : Prop where
  begins : ∃ byte tail, text = byte :: tail ∧ isBlank byte = false ∧ byte ≠ 93
  reads : ∀ fuel rest, 2 * text.length < fuel → Ends rest
    → readValue fuel (text ++ rest) = some (value, rest)

theorem skipBlanks_cons (visible : isBlank byte = false) (rest : List UInt8)
    : skipBlanks (byte :: rest) = byte :: rest :=
  List.dropWhile_cons_of_neg (by rw [visible]; exact Bool.false_ne_true)

theorem Reads.of_eq {other : List UInt8} (reads : Reads text value) (same : other = text)
    : Reads other value :=
  same ▸ reads

theorem Reads.string {string : List UInt8}
    (scans : ∀ rest, scanString (text ++ 34 :: rest) = some (string, rest))
    : Reads (34 :: (text ++ [34])) (.string string) := by
  refine ⟨⟨34, _, rfl, by decide, by decide⟩, fun fuel rest enough _ => ?_⟩
  cases fuel with
  | zero => omega
  | succ fuel =>
      rw [List.cons_append, List.append_assoc, List.singleton_append, readValue,
        skipBlanks_cons (by decide)]
      simp only [if_true, scans, Option.map_some]

theorem scanNumber_decimal (number : Nat) {rest : List UInt8} (ends : Ends rest)
    : scanNumber (decimal number ++ rest) = some ((number : ℚ), rest) := by
  have starts : startsWithDigit 10 rest = false := by
    cases rest with
    | nil => rfl
    | cons byte rest => rcases ends byte rfl with rfl | rfl | rfl <;> rfl
  have fraction : scanFraction rest = some (0, rest) := by
    cases rest with
    | nil => rfl
    | cons byte rest => rcases ends byte rfl with rfl | rfl | rfl <;> rfl
  have factor : scanExponent rest = some (1, rest) := by
    cases rest with
    | nil => rfl
    | cons byte rest => rcases ends byte rfl with rfl | rfl | rfl <;> rfl
  obtain ⟨byte, tail, split, low, high, zero⟩ := decimal_begins number
  have whole : scanWhole (decimal number ++ rest) = some (number, rest) := by
    by_cases first : byte = 48
    · obtain ⟨rfl, rfl⟩ := zero first
      rw [split, first]
      rfl
    · have digit : startsWithDigit 10 (decimal number ++ rest) = true := by
        obtain ⟨digit, valued, small⟩ := allDigits_decimal number byte (split ▸ List.mem_cons_self)
        rw [split, List.cons_append, startsWithDigit, valued]
        exact decide_eq_true small
      rw [scanWhole, scanDigits, if_pos digit, readDigits_decimal number starts]
      · rfl
      · intro other same
        rw [split] at same
        exact first (List.cons.inj same).1
  have sign : byte ≠ 45 := by
    rintro rfl
    exact absurd low (by decide)
  rw [scanNumber]
  · simp [whole, fraction, factor]
  · intro other same
    rw [split] at same
    exact sign (List.cons.inj same).1

theorem Reads.number (number : Nat) : Reads (decimal number) (.number number) := by
  obtain ⟨byte, tail, split, low, high, -⟩ := decimal_begins number
  have differs (other : UInt8) (outside : ¬(48 ≤ other ∧ other ≤ 57)) : byte ≠ other := by
    rintro rfl
    exact outside ⟨low, high⟩
  have visible : isBlank byte = false := by
    simp only [isBlank, differs 32 (by decide), differs 9 (by decide), differs 10 (by decide),
      differs 13 (by decide), decide_false, Bool.or_false]
  refine ⟨⟨byte, tail, split, visible, differs 93 (by decide)⟩, fun fuel rest enough ends => ?_⟩
  cases fuel with
  | zero => omega
  | succ fuel =>
      have scanned := scanNumber_decimal number ends
      rw [split, List.cons_append] at scanned ⊢
      rw [readValue, skipBlanks_cons visible]
      simp only [differs 34 (by decide), differs 91 (by decide), differs 123 (by decide),
        differs 110 (by decide), differs 116 (by decide), differs 102 (by decide), if_false, scanned,
        Option.map_some]

/-- A minus negates the number behind it. -/
theorem scanNumber_minus (unsigned : ∀ rest, text ≠ 45 :: rest)
    : scanNumber (45 :: text) = (scanNumber text).map fun (value, rest) => (-value, rest) := by
  have plain : scanNumber text = do
      let (whole, rest) ← scanWhole text
      let (fraction, rest) ← scanFraction rest
      let (factor, rest) ← scanExponent rest
      return (1 * ((whole : ℚ) + fraction) * factor, rest) := by
    rw [scanNumber]
    exact unsigned
  rw [plain, scanNumber]
  rcases scanWhole text with - | ⟨whole, rest⟩
  · rfl
  rcases fractioned : scanFraction rest with - | ⟨fraction, rest⟩
  · simp [fractioned]
  rcases factored : scanExponent rest with - | ⟨factor, rest⟩
  · simp [fractioned, factored]
  · have negated : -1 * ((whole : ℚ) + fraction) * factor = -((whole + fraction) * factor) := by ring
    simp [fractioned, factored, ← negated]

/-- A number with a sign, where it has one. -/
theorem Reads.signedNumber (number : Int) : Reads (signedDecimal number) (.number number) := by
  rw [signedDecimal]
  split
  · rename_i negative
    refine ⟨⟨45, _, rfl, by decide, by decide⟩, fun fuel rest enough ends => ?_⟩
    cases fuel with
    | zero => omega
    | succ fuel =>
        have scanned := scanNumber_decimal number.natAbs ends
        obtain ⟨byte, tail, split, low, -, -⟩ := decimal_begins number.natAbs
        have sign : scanNumber (45 :: (decimal number.natAbs ++ rest)) = some ((number : ℚ), rest) := by
          have unsigned : ∀ tail, decimal number.natAbs ++ rest ≠ 45 :: tail := by
            intro other same
            rw [split] at same
            rw [(List.cons.inj same).1] at low
            exact absurd low (by decide)
          have magnitude : ((number.natAbs : ℕ) : ℚ) = -(number : ℚ) := by
            rw [Nat.cast_natAbs, abs_of_neg negative, Int.cast_neg]
          rw [scanNumber_minus unsigned, scanned, magnitude]
          simp
        rw [List.cons_append, readValue, skipBlanks_cons (by decide)]
        simp [sign]
  · rename_i positive
    have same : (number : ℚ) = (number.natAbs : ℕ) := by
      rw [Nat.cast_natAbs, abs_of_nonneg (not_lt.mp positive)]
    rw [same]
    exact Reads.number number.natAbs

/-- Texts with commas between them begin like the first one. -/
theorem intercalate_begins {mark first : UInt8} {texts : List (List UInt8)} (rest : List UInt8)
    : ∃ tail, [mark].intercalate ((first :: text) :: texts) ++ rest = first :: tail := by
  cases texts with
  | nil => exact ⟨_, rfl⟩
  | cons second texts =>
      rw [List.intercalate_cons_cons]
      exact ⟨_, rfl⟩

theorem readItems_intercalate {texts : List (List UInt8)} {items : List Json}
    (each : List.Forall₂ Reads texts items) (nonempty : items ≠ []) {fuel : Nat}
    (enough : 2 * ([44].intercalate texts).length + 1 < fuel)
    : readItems fuel ([44].intercalate texts ++ 93 :: rest) = some (items, rest) := by
  induction each generalizing fuel with
  | nil => exact absurd rfl nonempty
  | @cons text item texts items first others ih =>
      cases fuel with
      | zero => omega
      | succ fuel =>
          cases others with
          | nil =>
              rw [List.intercalate_singleton] at enough ⊢
              rw [readItems, first.reads fuel (93 :: rest) (by omega) (by simp [Ends])]
              rfl
          | cons second others =>
              rw [List.intercalate_cons_cons] at enough ⊢
              simp only [List.length_append, List.length_singleton] at enough
              have later := ih (List.cons_ne_nil _ _) (by omega : _ < fuel)
              rw [List.append_assoc, List.append_assoc, readItems,
                first.reads fuel _ (by omega) (by simp [Ends])]
              simp only [List.singleton_append, Option.bind_eq_bind, Option.bind_some,
                skipBlanks_cons (by decide : isBlank 44 = false), later]
              rfl

/-- The items of an array are read one by one. -/
theorem Reads.array {texts : List (List UInt8)} {items : List Json}
    (each : List.Forall₂ Reads texts items)
    : Reads (91 :: ([44].intercalate texts ++ [93])) (.array items) := by
  refine ⟨⟨91, _, rfl, by decide, by decide⟩, fun fuel rest enough _ => ?_⟩
  cases fuel with
  | zero => omega
  | succ fuel =>
      rw [List.cons_append, List.append_assoc, List.singleton_append, readValue,
        skipBlanks_cons (by decide)]
      simp only [List.length_cons, List.length_append] at enough
      cases each with
      | nil => rfl
      | cons first others =>
          have inside := @readItems_intercalate rest _ _ (.cons first others) (List.cons_ne_nil _ _)
            fuel (by omega)
          obtain ⟨byte, text, rfl, visible, other⟩ := first.begins
          obtain ⟨tail, same⟩ := @intercalate_begins text 44 byte _ (93 :: rest)
          rw [same] at inside ⊢
          simp only [if_neg (by decide : ¬(91 : UInt8) = 34), if_true, skipBlanks_cons visible, inside]
          split
          · rename_i first
            exact absurd (List.cons.inj first).1 other
          · rfl

/-- A member of an object: a name without escapes, and a value. -/
inductive Entry : List UInt8 → List UInt8 × Json → Prop
  | intro {name text : List UInt8} {value : Json} (plain : name.all isPlain = true)
      (reads : Reads text value)
      : Entry (34 :: (name ++ 34 :: 58 :: text)) (name, value)

/-- One member is read, and then a comma with more members or the closing brace. -/
theorem readMembers_entry {name : List UInt8} (plain : name.all isPlain = true)
    (reads : Reads text value) {fuel : Nat} {tail : List UInt8}
    (enough : 2 * text.length < fuel) (ends : Ends tail)
    : readMembers (fuel + 1) (34 :: (name ++ 34 :: 58 :: text) ++ tail)
      = match skipBlanks tail with
        | 44 :: rest => do
            let (members, rest) ← readMembers fuel rest
            return ((name, value) :: members, rest)
        | 125 :: rest => some ([(name, value)], rest)
        | _ => none := by
  simp only [List.cons_append, List.append_assoc]
  rw [readMembers, skipBlanks_cons (by decide)]
  simp only [scanString_plain plain, Option.bind_eq_bind, Option.bind_some,
    skipBlanks_cons (by decide : isBlank 58 = false), reads.reads fuel tail enough ends]
  rfl

theorem readMembers_intercalate {texts : List (List UInt8)} {members : List (List UInt8 × Json)}
    (each : List.Forall₂ Entry texts members) (nonempty : members ≠ []) {fuel : Nat}
    (enough : 2 * ([44].intercalate texts).length + 1 < fuel)
    : readMembers fuel ([44].intercalate texts ++ 125 :: rest) = some (members, rest) := by
  induction each generalizing fuel with
  | nil => exact absurd rfl nonempty
  | @cons text member texts members first others ih =>
      cases fuel with
      | zero => omega
      | succ fuel =>
          obtain @⟨name, text, value, plain, reads⟩ := first
          cases others with
          | nil =>
              rw [List.intercalate_singleton] at enough ⊢
              simp only [List.length_cons, List.length_append] at enough
              rw [readMembers_entry plain reads (by omega) (by simp [Ends]),
                skipBlanks_cons (by decide)]
              rfl
          | cons second others =>
              rw [List.intercalate_cons_cons] at enough ⊢
              simp only [List.length_append, List.length_cons, List.length_nil] at enough
              have later := ih (List.cons_ne_nil _ _) (by omega : _ < fuel)
              rw [List.append_assoc, List.append_assoc,
                readMembers_entry plain reads (by omega) (by simp [Ends]), List.singleton_append,
                skipBlanks_cons (by decide)]
              simp only [later]
              rfl

/-- The members of an object are read one by one. -/
theorem Reads.object {texts : List (List UInt8)} {members : List (List UInt8 × Json)}
    (each : List.Forall₂ Entry texts members)
    : Reads (123 :: ([44].intercalate texts ++ [125])) (.object members) := by
  refine ⟨⟨123, _, rfl, by decide, by decide⟩, fun fuel rest enough _ => ?_⟩
  cases fuel with
  | zero => omega
  | succ fuel =>
      rw [List.cons_append, List.append_assoc, List.singleton_append, readValue,
        skipBlanks_cons (by decide)]
      simp only [List.length_cons, List.length_append] at enough
      cases each with
      | nil => rfl
      | @cons text member texts members first others =>
          have inside := @readMembers_intercalate rest _ _ (.cons first others)
            (List.cons_ne_nil _ _) fuel (by omega)
          obtain ⟨plain, reads⟩ := first
          obtain ⟨tail, same⟩ := @intercalate_begins _ 44 34 texts (125 :: rest)
          rw [same] at inside ⊢
          simp only [if_neg (by decide : ¬(123 : UInt8) = 34), if_neg (by decide : ¬(123 : UInt8) = 91),
            if_true, skipBlanks_cons (by decide : isBlank 34 = false), inside]
          rfl

/-- A text that is read as a value is a document. -/
theorem Reads.decode (reads : Reads text value) : decode text = some value := by
  have whole := reads.reads (2 * text.length + 1) [] (Nat.lt_succ_self _) nofun
  rw [List.append_nil] at whole
  rw [Json.decode, whole]
  rfl

-- How long strings are

/-- How many bytes of a text a piece takes at least. -/
def Piece.width : Piece → Nat
  | .byte _ => 1
  | .unit _ => 6

theorem scanPieces_width {text : List UInt8} {pieces : List Piece} {rest : List UInt8}
    (scanned : scanPieces text = some (pieces, rest))
    : (pieces.map Piece.width).sum + rest.length < text.length := by
  fun_induction scanPieces text generalizing pieces rest with
  | case1 => cases scanned
  | case2 rest =>
      cases scanned
      simp
  | case3 a b c d later ih =>
      simp only [Option.bind_eq_bind, Option.bind_eq_some_iff, Option.pure_def, Option.some.injEq,
        Prod.mk.injEq, Prod.exists] at scanned
      obtain ⟨code, -, inner, left, scanned, rfl, rfl⟩ := scanned
      have bound := ih scanned
      simp only [List.map_cons, List.sum_cons, List.length_cons, Piece.width]
      omega
  | case4 mark later other ih =>
      simp only [Option.bind_eq_bind, Option.bind_eq_some_iff, Option.pure_def, Option.some.injEq,
        Prod.mk.injEq, Prod.exists] at scanned
      obtain ⟨byte, -, inner, left, scanned, rfl, rfl⟩ := scanned
      have bound := ih scanned
      simp only [List.map_cons, List.sum_cons, List.length_cons, Piece.width]
      omega
  | case5 byte later quote escaped short control => cases scanned
  | case6 byte later quote escaped short printable ih =>
      simp only [Option.bind_eq_bind, Option.bind_eq_some_iff, Option.pure_def, Option.some.injEq,
        Prod.mk.injEq, Prod.exists] at scanned
      obtain ⟨inner, left, scanned, rfl, rfl⟩ := scanned
      have bound := ih scanned
      simp only [List.map_cons, List.sum_cons, List.length_cons, Piece.width]
      omega

theorem length_utf8EncodeChar_le (char : Char) : (String.utf8EncodeChar char).length ≤ 4 := by
  rw [String.length_utf8EncodeChar]
  exact Char.utf8Size_le_four char

theorem assemble_width {pieces : List Piece} {string : List UInt8}
    (assembled : assemble pieces = some string)
    : string.length ≤ (pieces.map Piece.width).sum := by
  fun_induction assemble pieces generalizing string with
  | case1 =>
      cases assembled
      exact Nat.zero_le _
  | case2 byte pieces ih =>
      obtain ⟨inner, inside, rfl⟩ := Option.map_eq_some_iff.mp assembled
      have bound := ih inside
      simp only [List.map_cons, List.sum_cons, List.length_cons, Piece.width]
      omega
  | case3 high low pieces highs lows char =>
      rename_i ih
      obtain ⟨inner, inside, rfl⟩ := Option.map_eq_some_iff.mp assembled
      have bound := ih inside
      have encoded := length_utf8EncodeChar_le char
      simp only [List.map_cons, List.sum_cons, List.length_append, Piece.width]
      omega
  | case4 => cases assembled
  | case5 => cases assembled
  | case6 high low pieces highs lows ih =>
      obtain ⟨inner, inside, rfl⟩ := Option.map_eq_some_iff.mp assembled
      have bound := ih inside
      have encoded := length_utf8EncodeChar_le (Char.ofNat high)
      simp only [List.map_cons, List.sum_cons, List.length_append, Piece.width] at bound ⊢
      omega
  | case7 => cases assembled
  | case8 code pieces single low ih =>
      obtain ⟨inner, inside, rfl⟩ := Option.map_eq_some_iff.mp assembled
      have bound := ih inside
      have encoded := length_utf8EncodeChar_le (Char.ofNat code)
      simp only [List.map_cons, List.sum_cons, List.length_append, Piece.width]
      omega

/-- A string is shorter than a document of it. -/
theorem length_lt_of_decode {text string : List UInt8} (decoded : decode text = some (.string string))
    : string.length < text.length := by
  rw [decode] at decoded
  rcases read : readValue (2 * text.length + 1) text with - | ⟨value, rest⟩
  · rw [read] at decoded
    cases decoded
  rw [read] at decoded
  have same : value = .string string := by
    simp only [Option.bind_eq_bind, Option.bind_some] at decoded
    split at decoded
    · exact Option.some.inj decoded
    · cases decoded
  subst same
  rw [readValue] at read
  have visible : (skipBlanks text).length ≤ text.length := List.length_dropWhile_le _ _
  split at read
  · cases read
  · rename_i byte tail begun
    rw [begun, List.length_cons] at visible
    split at read
    · obtain ⟨⟨inner, left⟩, scanned, same⟩ := Option.map_eq_some_iff.mp read
      cases same
      simp only [scanString, Option.bind_eq_bind, Option.bind_eq_some_iff, Option.pure_def,
        Option.some.injEq, Prod.mk.injEq, Prod.exists] at scanned
      obtain ⟨pieces, left, scanned, inner, assembled, rfl, rfl⟩ := scanned
      have wide := scanPieces_width scanned
      have long := assemble_width assembled
      omega
    · exfalso
      revert read
      repeat' split
      all_goals simp [scanWord]

end Json

end Creek.Library
