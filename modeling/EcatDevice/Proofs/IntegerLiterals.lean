import EcatDevice.Proofs.TokenReading
import Mathlib.Data.Nat.Digits.Defs

/-! # Integer literals

Hexadecimal and decimal literals denote integers of any size. A literal is read as the integer that
it denotes, or refused with its own text if 64 bits cannot hold that integer. Integers that are
written in hexadecimal denote themselves.
-/

namespace EcatDevice

open Source Source.Parser

namespace Text

/-! ## Digits -/

/-- The number of a hexadecimal digit of either case. -/
def digitNumber (c : Char) : Nat :=
  "0123456789abcdef".toList.idxOf c.toLower

/-- The number that digits denote, the most significant one first. -/
def numeral (base : Nat) (digits : List Char) : Nat :=
  Nat.ofDigits base (digits.reverse.map digitNumber)

theorem hexDigit_cases {c : Char} (digit : isHexDigit c = true) :
    ∃ d < 16, c = d.digitChar ∨ c = d.digitChar.toUpper := by
  have range : (48 ≤ c.toNat ∧ c.toNat ≤ 57) ∨ (97 ≤ c.toNat ∧ c.toNat ≤ 102) ∨
      (65 ≤ c.toNat ∧ c.toNat ≤ 70) := by
    simp only [isHexDigit, Char.isDigit, Bool.or_eq_true, Bool.and_eq_true, decide_eq_true_eq,
      ge_iff_le, Char.le_def, UInt32.le_iff_toNat_le] at digit
    rcases digit with (decimal | lower) | upper
    · exact .inl decimal
    · exact .inr (.inl lower)
    · exact .inr (.inr upper)
  rw [← Char.ofNat_toNat c]
  generalize c.toNat = code at range
  refine ⟨digitValue (Char.ofNat code), ?_⟩
  rcases range with ⟨lower, upper⟩ | ⟨lower, upper⟩ | ⟨lower, upper⟩ <;>
    interval_cases code <;> decide

theorem digitValue_eq {c : Char} (digit : isHexDigit c = true) :
    digitValue c = digitNumber c := by
  obtain ⟨d, small, rfl | rfl⟩ := hexDigit_cases digit <;> interval_cases d <;> decide

theorem isNameChar_of_isHexDigit {c : Char} (digit : isHexDigit c = true) :
    isNameChar c = true := by
  obtain ⟨d, small, rfl | rfl⟩ := hexDigit_cases digit <;> interval_cases d <;> decide

theorem readDigits_eq_numeral (base : Nat) {digits : List Char}
    (all : ∀ c ∈ digits, isHexDigit c = true) : readDigits base digits = numeral base digits := by
  induction digits using List.reverseRecOn with
  | nil => rfl
  | append_singleton front last ih =>
      simp only [List.forall_mem_append, List.forall_mem_singleton] at all
      rw [readDigits_append, ih all.1, digitValue_eq all.2]
      simp only [numeral, List.reverse_append, List.reverse_singleton, List.singleton_append,
        List.map_cons, Nat.ofDigits_cons]
      ring

theorem mem_toDigits {base n : Nat} (some : 1 < base) {c : Char}
    (member : c ∈ Nat.toDigits base n) : ∃ d < base, c = d.digitChar := by
  induction n using Nat.strong_induction_on with
  | _ n ih =>
      rw [Nat.toDigits_eq_if some] at member
      split at member
      · next small => exact ⟨n, small, by simpa using member⟩
      · rcases List.mem_append.mp member with front | last
        · exact ih (n / base) (Nat.div_lt_self (by omega) some) front
        · exact ⟨n % base, Nat.mod_lt n (by omega), by simpa using last⟩

theorem numeral_toDigits (n : Nat) : numeral 16 (Nat.toDigits 16 n) = n := by
  rw [← readDigits_eq_numeral, readDigits_toDigits (by decide) (by decide)]
  intro c member
  obtain ⟨d, small, rfl⟩ := mem_toDigits (by decide) member
  interval_cases d <;> decide

end Text

namespace Source

/-! ## Literals and what they denote -/

/-- Characters of one class, at least one. -/
def IsRun (p : Char → Bool) (run : List Char) : Prop :=
  run ≠ [] ∧ ∀ c ∈ run, p c = true

/-- The texts of integer literals, and the integers that they denote. -/
inductive Denotes : List Char → Int → Prop where
  | hex {marker : Char} {digits : List Char} (marked : marker = 'x' ∨ marker = 'X')
      (run : IsRun isHexDigit digits) :
      Denotes ('0' :: marker :: digits) (Text.numeral 16 digits)
  | plain {digits : List Char} (run : IsRun Char.isDigit digits) :
      Denotes digits (Text.numeral 10 digits)
  | plus {digits : List Char} (run : IsRun Char.isDigit digits) :
      Denotes ('+' :: digits) (Text.numeral 10 digits)
  | minus {digits : List Char} (run : IsRun Char.isDigit digits) :
      Denotes ('-' :: digits) (-Text.numeral 10 digits)

/-- Wherever a literal with this spelling stands, it is read as the integer `n`, or refused with its
text if 64 bits cannot hold `n`. -/
def ReadExactly (spelling : Spelling) (text : List Char) (n : Int) : Prop :=
  ∀ source left,
    (-2 ^ 63 ≤ n ∧ n < 2 ^ 63 → ∃ v : Int64, v.toInt = n ∧
      (DraftExpr.literal left spelling).check source = .ok (.literal (.int v))) ∧
    (¬(-2 ^ 63 ≤ n ∧ n < 2 ^ 63) → (DraftExpr.literal left spelling).check source =
      .error (.parse (placeOf source left) (.outOfRange (String.ofList text))))

theorem readExactly_of_value {spelling : Spelling} {text : List Char} {n : Int}
    (value : spelling.value? = Spelling.integer? n)
    (written : spelling.written = String.ofList text) : ReadExactly spelling text n := by
  intro source left
  have range : Int64.minValue.toInt ≤ n ∧ n ≤ Int64.maxValue.toInt ↔
      -2 ^ 63 ≤ n ∧ n < 2 ^ 63 := by
    rw [Int64.toInt_minValue, Int64.toInt_maxValue]
    omega
  constructor
  · intro inside
    refine ⟨Int64.ofInt n, Int64.toInt_ofInt_of_le inside.1 inside.2, ?_⟩
    simp only [DraftExpr.check, value, Spelling.integer?, if_pos (range.mpr inside)]
  · intro outside
    simp only [DraftExpr.check, value, Spelling.integer?, if_neg (outside ∘ range.mp), written]

theorem isHexDigit_of_isDigit {c : Char} (digit : c.isDigit = true) : isHexDigit c = true := by
  simp [isHexDigit, digit]

theorem hex_readExactly (marker : Char) {digits : List Char} (run : IsRun isHexDigit digits) :
    ReadExactly (.hex marker (String.ofList digits)) ('0' :: marker :: digits)
      (Text.numeral 16 digits) := by
  apply readExactly_of_value
  · simp only [Spelling.value?, String.toList_ofList, Text.readDigits_eq_numeral 16 run.2]
  · apply String.toList_injective
    simp [Spelling.written]

theorem int_readExactly (sign : String) {digits : List Char} (run : IsRun Char.isDigit digits) :
    ReadExactly (.int sign (String.ofList digits)) (sign.toList ++ digits)
      (if sign = "-" then -(Text.numeral 10 digits : Int) else Text.numeral 10 digits) := by
  have all : ∀ c ∈ digits, isHexDigit c = true :=
    fun c member => isHexDigit_of_isDigit (run.2 c member)
  apply readExactly_of_value
  · simp only [Spelling.value?, String.toList_ofList, Text.readDigits_eq_numeral 10 all]
  · apply String.toList_injective
    simp [Spelling.written]

/-! ## What the lexers accept -/

theorem lexRun_ok {p : Char → Bool} {text rest : List Char} {run : String}
    (lexed : lexRun p text = some (run, rest)) :
    ∃ digits, run = String.ofList digits ∧ IsRun p digits ∧ text = digits ++ rest := by
  dsimp only [lexRun] at lexed
  split at lexed
  · cases lexed
  · next front nonempty =>
      cases lexed
      refine ⟨_, rfl, ⟨nonempty, fun c => List.mem_takeWhile_imp⟩, ?_⟩
      exact (List.takeWhile_append_dropWhile).symm

theorem lexHex_ok {text rest : List Char} {spelling : Spelling}
    (lexed : lexHex text = some (spelling, rest)) :
    ∃ token n, text = token ++ rest ∧ Denotes token n ∧ ReadExactly spelling token n := by
  unfold lexHex at lexed
  split at lexed
  · next marker behind =>
      split at lexed
      · next marked =>
          obtain ⟨⟨run, last⟩, digitsRead, same⟩ := Option.map_eq_some_iff.mp lexed
          cases same
          obtain ⟨digits, rfl, isRun, rfl⟩ := lexRun_ok digitsRead
          exact ⟨_, _, rfl, .hex marked isRun, hex_readExactly marker isRun⟩
      · cases lexed
  · cases lexed

theorem lexSign_cases (text : List Char) :
    ∃ sign rest, lexSign text = (sign, rest) ∧ text = sign.toList ++ rest ∧
      (sign = "" ∨ sign = "+" ∨ sign = "-") := by
  unfold lexSign
  split
  · exact ⟨_, _, rfl, rfl, by simp⟩
  · exact ⟨_, _, rfl, rfl, by simp⟩
  · exact ⟨_, _, rfl, rfl, by simp⟩

theorem lexInt_ok {text rest : List Char} {spelling : Spelling}
    (lexed : lexInt text = some (spelling, rest)) :
    ∃ token n, text = token ++ rest ∧ Denotes token n ∧ ReadExactly spelling token n := by
  obtain ⟨sign, behind, signed, rfl, signs⟩ := lexSign_cases text
  simp only [lexInt, signed] at lexed
  obtain ⟨⟨run, last⟩, digitsRead, same⟩ := Option.bind_eq_some_iff.mp lexed
  cases same
  obtain ⟨digits, rfl, isRun, rfl⟩ := lexRun_ok digitsRead
  refine ⟨sign.toList ++ digits, _, by simp, ?_, int_readExactly sign isRun⟩
  rcases signs with rfl | rfl | rfl
  · exact .plain isRun
  · exact .plus isRun
  · exact .minus isRun

/-! ## Literals in front of other text -/

theorem literal_reads_hex {text rest : List Char} {spelling : Spelling}
    (lexed : lexHex text = some (spelling, rest)) :
    Reads literal text (.literal text.length spelling) rest := by
  have read := ((reads_lexeme lexed).named .hex).orElse
    (q := named .real (lexeme lexReal) <|> named .int (lexeme lexInt)
      <|> named .string (lexeme lexText))
  exact Reads.named _ ((reads_left text).bind (read.bind
    (reads_pure (DraftExpr.literal text.length spelling) rest)))

theorem literal_reads_int {text rest : List Char} {spelling : Spelling}
    (noHex : lexHex text = none) (noReal : lexReal text = none)
    (lexed : lexInt text = some (spelling, rest)) :
    Reads literal text (.literal text.length spelling) rest := by
  have int := ((reads_lexeme lexed).named .int).orElse (q := named .string (lexeme lexText))
  have read := ((fails_lexeme noHex).named .hex).orElse_reads
    (((fails_lexeme noReal).named .real).orElse_reads int)
  exact Reads.named _ ((reads_left text).bind (read.bind
    (reads_pure (DraftExpr.literal text.length spelling) rest)))

/-- Whatever follows a literal without going on with it, the literal is read to its end. -/
theorem Denotes.reads {text rest : List Char} {n : Int} (denotes : Denotes text n)
    (ends : Ends isNameChar rest) :
    ∃ spelling, Reads literal (text ++ rest) (.literal (text ++ rest).length spelling) rest ∧
      ReadExactly spelling text n := by
  cases denotes with
  | @hex marker digits marked run =>
      have last : Ends isHexDigit rest := ends.mono fun _ => Text.isNameChar_of_isHexDigit
      refine ⟨_, literal_reads_hex ?_, hex_readExactly marker run⟩
      simp [lexHex, marked, lexRun_append run.1 run.2 last]
  | plain run =>
      have signed : lexSign (text ++ rest) = ("", text ++ rest) := lexSign_digits run.1 run.2
      refine ⟨_, literal_reads_int ?_ ?_ ?_, int_readExactly "" run⟩
      · exact lexHex_digits run.2 ends
      · exact lexReal_signed signed run.1 run.2 ends
      · exact lexInt_signed signed run.1 run.2 ends
  | @plus digits run =>
      refine ⟨_, literal_reads_int rfl ?_ ?_, int_readExactly "+" run⟩
      · exact lexReal_signed rfl run.1 run.2 ends
      · exact lexInt_signed rfl run.1 run.2 ends
  | @minus digits run =>
      refine ⟨_, literal_reads_int rfl ?_ ?_, int_readExactly "-" run⟩
      · exact lexReal_signed rfl run.1 run.2 ends
      · exact lexInt_signed rfl run.1 run.2 ends

/-! ## Integers in hexadecimal -/

/-- A lower-case hexadecimal digit. -/
def isLowerHexDigit (c : Char) : Bool :=
  "0123456789abcdef".toList.contains c

theorem hexInteger_denotes (v : Int64) :
    ∃ digits, IsRun isLowerHexDigit digits ∧
      (0 ≤ v.toInt ∧ (hexInteger v).toList = '0' :: 'x' :: digits ∧
          v.toInt = Text.numeral 16 digits ∨
        v.toInt < 0 ∧ (hexInteger v).toList = '-' :: '0' :: 'x' :: digits ∧
          v.toInt = -Text.numeral 16 digits) := by
  refine ⟨Nat.toDigits 16 v.toInt.natAbs, ⟨Nat.toDigits_ne_nil, ?_⟩, ?_⟩
  · intro c member
    obtain ⟨d, small, rfl⟩ := Text.mem_toDigits (by decide) member
    interval_cases d <;> decide
  · have sign : v < 0 ↔ v.toInt < 0 := Int64.lt_iff_toInt_lt
    rw [Text.numeral_toDigits]
    unfold hexInteger
    split
    · next negative =>
        have below := sign.mp negative
        exact .inr ⟨below, by simp [Text.hex], by omega⟩
    · next positive =>
        have above : 0 ≤ v.toInt := Int.not_lt.mp fun below => positive (sign.mpr below)
        exact .inl ⟨above, by simp [Text.hex], by omega⟩

/-- What the lexers of integer literals accept is read as the integer that it denotes, or refused if
64 bits cannot hold that integer; every literal that denotes an integer is accepted; and integers in
hexadecimal denote themselves. -/
theorem integer_literals_exact (text rest : List Char) (v : Int64) :
    (∀ spelling, lexHex text = some (spelling, rest) ∨ lexInt text = some (spelling, rest) →
      ∃ token n, text = token ++ rest ∧ Denotes token n ∧ ReadExactly spelling token n) ∧
    (∀ n, Denotes text n → Ends isNameChar rest →
      ∃ spelling, Reads literal (text ++ rest) (.literal (text ++ rest).length spelling) rest ∧
        ReadExactly spelling text n) ∧
    ∃ digits, IsRun isLowerHexDigit digits ∧
      (0 ≤ v.toInt ∧ (hexInteger v).toList = '0' :: 'x' :: digits ∧
          v.toInt = Text.numeral 16 digits ∨
        v.toInt < 0 ∧ (hexInteger v).toList = '-' :: '0' :: 'x' :: digits ∧
          v.toInt = -Text.numeral 16 digits) := by
  refine ⟨?_, ?_, hexInteger_denotes v⟩
  · rintro spelling (hex | int)
    · exact lexHex_ok hex
    · exact lexInt_ok int
  · intro n denotes ends
    exact denotes.reads ends

/-- The least integer, and the first one that is too large. -/
theorem integer_literals_exact_limits :
    (∃ spelling, Reads literal "-9223372036854775808;".toList (.literal 21 spelling) [';'] ∧
      ∀ source left, (DraftExpr.literal left spelling).check source =
        .ok (.literal (.int Int64.minValue))) ∧
    (∃ spelling, Reads literal "0x8000000000000000;".toList (.literal 19 spelling) [';'] ∧
      ∀ source left, (DraftExpr.literal left spelling).check source =
        .error (.parse (placeOf source left) (.outOfRange "0x8000000000000000"))) ∧
    ∃ token n, "+007;".toList = token ++ [';'] ∧ Denotes token n ∧
      ReadExactly (.int "+" "007") token n := by
  have ends : Ends isNameChar [';'] := ends_cons.mpr (by decide)
  refine ⟨?_, ?_, ?_⟩
  · have value : Text.numeral 10 "9223372036854775808".toList = 2 ^ 63 := by decide +kernel
    have denotes : Denotes "-9223372036854775808".toList (-(2 ^ 63 : Nat)) := by
      rw [← value]
      exact .minus ⟨by decide, List.all_eq_true.mp (by decide)⟩
    obtain ⟨spelling, read, exactly⟩ := (integer_literals_exact _ [';'] 0).2.1 _ denotes ends
    refine ⟨spelling, read, fun source left => ?_⟩
    obtain ⟨v, least, checked⟩ := (exactly source left).1 (by decide)
    rw [checked, Int64.toInt_inj.mp (least.trans rfl : v.toInt = Int64.minValue.toInt)]
  · have value : Text.numeral 16 "8000000000000000".toList = 2 ^ 63 := by decide +kernel
    have denotes : Denotes "0x8000000000000000".toList (2 ^ 63 : Nat) := by
      rw [← value]
      exact .hex (.inl rfl) ⟨by decide, List.all_eq_true.mp (by decide)⟩
    obtain ⟨spelling, read, exactly⟩ := (integer_literals_exact _ [';'] 0).2.1 _ denotes ends
    exact ⟨spelling, read, fun source left => (exactly source left).2 (by decide)⟩
  · exact (integer_literals_exact "+007;".toList [';'] 0).1 _ (.inr (by decide))

end Source

end EcatDevice
