import EcatDevice.Bytes.Listing
import Mathlib.Data.List.DropRight
import Mathlib.Data.List.Forall2
import Mathlib.Tactic

/-! # Listings read back

Readers for what the listings of bytes write: pairs of hexadecimal digits, and integer constants
of C between commas. Each listing reads back to the bytes it was written from.
-/

namespace EcatDevice

namespace Text

/-- The value of a digit of either case in a base up to sixteen. -/
def digit? (base : Nat) (c : Char) : Option Nat :=
  (List.range base).find? fun d => d.digitChar == c.toLower

/-- The number that digits stand for, most significant first; there has to be one. -/
def number? (base : Nat) (digits : List Char) : Option Nat :=
  if digits.isEmpty then none
  else digits.foldlM (fun value c => (digit? base c).map (value * base + ·)) 0

theorem digit?_digitChar : ∀ d < 16, digit? 16 d.digitChar = some d := by
  decide

theorem digit?_upper : ∀ d < 16, digit? 16 d.digitChar.toUpper = some d := by
  decide

theorem number?_pair {x y : Char} {d e : Nat} (high : digit? 16 x = some d)
    (low : digit? 16 y = some e) : number? 16 [x, y] = some (d * 16 + e) := by
  simp [number?, high, low]

theorem toDigits_byte {n : Nat} (small : n < 256) :
    List.replicate (2 - (Nat.toDigits 16 n).length) '0' ++ Nat.toDigits 16 n =
      [(n / 16).digitChar, (n % 16).digitChar] := by
  by_cases one : n < 16
  · rw [Nat.toDigits_of_lt_base one, Nat.div_eq_of_lt one, Nat.mod_eq_of_lt one]
    rfl
  · have high : n / 16 < 16 := by omega
    rw [Nat.toDigits_of_base_le (by decide) (by omega), Nat.toDigits_of_lt_base high]
    rfl

theorem toList_hexFill {n : Nat} (small : n < 256) :
    (hexFill 2 n).toList = [(n / 16).digitChar, (n % 16).digitChar] := by
  simpa [hexFill, zeroFill, hex] using toDigits_byte small

theorem toList_hexFillUpper {n : Nat} (small : n < 256) :
    (hexFillUpper 2 n).toList = [(n / 16).digitChar.toUpper, (n % 16).digitChar.toUpper] := by
  have upper := congrArg (List.map Char.toUpper) (toDigits_byte small)
  have zero : '0'.toUpper = '0' := rfl
  simpa [hexFillUpper, zeroFill, zero] using upper

end Text

namespace Bytes

/-- Reads bytes from pairs of hexadecimal digits. -/
def readHex : List Char → Option Bytes
  | [] => some []
  | [_] => none
  | high :: low :: rest => do
    let n ← Text.number? 16 [high, low]
    let bytes ← readHex rest
    return UInt8.ofNat n :: bytes

/-- Bytes are read back from any text that has a pair of digits for each of them. -/
theorem readHex_join {write : UInt8 → String}
    (pair : ∀ b, ∃ high low, (write b).toList = [high, low] ∧
      Text.number? 16 [high, low] = some b.toNat) (bytes : Bytes) :
    readHex (String.join (bytes.map write)).toList = some bytes := by
  induction bytes with
  | nil => rfl
  | cons b bytes ih =>
      obtain ⟨high, low, text, number⟩ := pair b
      simp only [String.toList_join] at ih
      simp [text, readHex, number, ih]

theorem readHex_hexUpper (bytes : Bytes) : readHex (hexUpper bytes).toList = some bytes := by
  apply readHex_join
  intro b
  have small := b.toNat_lt
  have pair := Text.number?_pair (Text.digit?_upper (b.toNat / 16) (by omega))
    (Text.digit?_upper (b.toNat % 16) (by omega))
  rw [Nat.div_add_mod'] at pair
  exact ⟨_, _, Text.toList_hexFillUpper small, pair⟩

theorem readHex_hexLower (bytes : Bytes) : readHex (hexLower bytes).toList = some bytes := by
  apply readHex_join
  intro b
  have small := b.toNat_lt
  have pair := Text.number?_pair (Text.digit?_digitChar (b.toNat / 16) (by omega))
    (Text.digit?_digitChar (b.toNat % 16) (by omega))
  rw [Nat.div_add_mod'] at pair
  exact ⟨_, _, Text.toList_hexFill small, pair⟩

/-! ## Cells -/

/-- Reads an integer constant of C: hexadecimal behind `0x`, octal behind another `0`, else
decimal. -/
def readConstant : List Char → Option Nat
  | '0' :: 'x' :: digits => Text.number? 16 digits
  | '0' :: 'X' :: digits => Text.number? 16 digits
  | '0' :: digits => Text.number? 8 ('0' :: digits)
  | digits => Text.number? 10 digits

/-- A cell without the blanks around it. -/
def strip (cell : List Char) : List Char :=
  (cell.dropWhile Char.isWhitespace).rdropWhile Char.isWhitespace

/-- Reads integer constants with commas between them. -/
def readCells (text : List Char) : Option (List Nat) :=
  (text.splitOn ',').mapM fun cell => readConstant (strip cell)

/-- A text is an integer constant without blanks and commas. -/
structure IsCell (cell : List Char) (n : Nat) : Prop where
  value : readConstant cell = some n
  solid : ∀ c ∈ cell, c.isWhitespace = false ∧ c ≠ ','

theorem isCell_zero : IsCell "0".toList 0 :=
  ⟨by decide, by simp⟩

theorem isCell_byte (b : UInt8) : IsCell (byteCell b).toList b.toNat := by
  have small := b.toNat_lt
  have text : (byteCell b).toList =
      ['0', 'x', (b.toNat / 16).digitChar, (b.toNat % 16).digitChar] := by
    simp [byteCell, Text.toList_hexFill small]
  have pair := Text.number?_pair (Text.digit?_digitChar (b.toNat / 16) (by omega))
    (Text.digit?_digitChar (b.toNat % 16) (by omega))
  have solid : ∀ d < 16, d.digitChar.isWhitespace = false ∧ d.digitChar ≠ ',' := by decide
  rw [text]
  constructor
  · rw [readConstant, pair, Nat.div_add_mod']
  · simp only [List.forall_mem_cons, List.not_mem_nil, false_implies, implies_true, and_true]
    exact ⟨by decide, by decide, solid _ (by omega), solid _ (by omega)⟩

section
variable {lead cell : List Char} {n : Nat} (blank : ∀ c ∈ lead, c.isWhitespace = true)
  (isCell : IsCell cell n)
include blank isCell

theorem strip_lead : strip (lead ++ cell) = cell := by
  have front : cell.dropWhile Char.isWhitespace = cell := by
    rw [List.dropWhile_eq_self_iff]
    intro more
    simp [(isCell.solid _ (List.getElem_mem more)).1]
  have back : cell.rdropWhile Char.isWhitespace = cell := by
    rw [List.rdropWhile_eq_self_iff]
    intro more
    simp [(isCell.solid _ (List.getLast_mem more)).1]
  rw [strip, List.dropWhile_append_of_pos blank, front, back]

theorem splitOn_lead : (lead ++ cell).splitOn ',' = [lead ++ cell] := by
  rw [List.splitOn_eq_splitOnP]
  apply List.splitOnP_eq_singleton
  intro c member
  rw [beq_eq_false_iff_ne]
  rcases List.mem_append.mp member with inLead | inCell
  · rintro rfl
    cases blank ',' inLead
  · exact (isCell.solid c inCell).2

theorem readCells_one : readCells (lead ++ cell) = some [n] := by
  simp [readCells, splitOn_lead blank isCell, strip_lead blank isCell, isCell.value]

theorem readCells_snoc {text : List Char} {front : List Nat} (read : readCells text = some front) :
    readCells (text ++ ',' :: (lead ++ cell)) = some (front ++ [n]) := by
  have last := readCells_one blank isCell
  simp only [readCells, List.splitOn_eq_splitOnP] at read last ⊢
  rw [List.splitOnP_append_cons _ _ (by simp), List.mapM_append, read, last]
  rfl

end

/-! ## Bodies of arrays -/

/-- Between two cells there are a comma and blanks. -/
theorem exists_lead {position : Nat} (behind : 0 < position) :
    ∃ lead : List Char, (cellLead position).toList = ',' :: lead ∧
      ∀ c ∈ lead, c.isWhitespace = true := by
  unfold cellLead
  rw [if_neg (by omega)]
  split
  · exact ⟨"\n    ".toList, rfl, by simp⟩
  · exact ⟨" ".toList, rfl, by simp⟩

theorem readCells_addCell {text : String × Nat} {cell : String} {front : List Nat} {n : Nat}
    (behind : 0 < text.2) (read : readCells text.1.toList = some front)
    (isCell : IsCell cell.toList n) :
    readCells (addCell text cell).1.toList = some (front ++ [n]) := by
  obtain ⟨lead, same, blank⟩ := exists_lead behind
  simpa [addCell, same] using readCells_snoc blank isCell read

/-- Each text is the integer constant of its number. -/
def AreCells (cells : List String) (values : List Nat) : Prop :=
  List.Forall₂ (fun cell n => IsCell cell.toList n) cells values

theorem readCells_foldl {cells : List String} {values front : List Nat} {text : String × Nat}
    (areCells : AreCells cells values) (behind : 0 < text.2)
    (read : readCells text.1.toList = some front) :
    readCells (cells.foldl addCell text).1.toList = some (front ++ values) := by
  induction areCells generalizing text front with
  | nil => simpa using read
  | cons isCell _ ih =>
      have step := readCells_addCell behind read isCell
      simpa using ih (Nat.succ_pos text.2) step

theorem areCells_bytes (bytes : Bytes) : AreCells (bytes.map byteCell) (bytes.map UInt8.toNat) := by
  apply List.forall₂_map_left_iff.mpr
  apply List.forall₂_map_right_iff.mpr
  exact List.forall₂_same.mpr fun b _ => isCell_byte b

theorem areCells_zeros (count : Nat) :
    AreCells (List.replicate count "0") (List.replicate count 0) := by
  induction count with
  | zero => exact .nil
  | succ count ih => exact .cons isCell_zero ih

theorem foldl_addCell_count (cells : List String) (text : String × Nat) :
    (cells.foldl addCell text).2 = text.2 + cells.length := by
  induction cells generalizing text with
  | nil => rfl
  | cons cell cells ih => simp [ih, addCell, Nat.add_assoc, Nat.add_comm 1]

/-- Number of zeros behind so many bytes up to a whole line. -/
def fillCount (length : Nat) : Nat :=
  (16 - length % 16) % 16

theorem initializer_eq (bytes : Bytes) :
    initializer bytes = ((bytes.map byteCell ++
      List.replicate (fillCount bytes.length) "0").foldl addCell ("", 0)).1 := by
  have written : bytes.foldl (fun text b => addCell text (byteCell b)) ("", 0) =
      (bytes.map byteCell).foldl addCell ("", 0) := by
    rw [List.foldl_map]
  simp [initializer, written, foldl_addCell_count, lineLength, fillCount]

/-- The body of an array reads back to its bytes and the zeros that fill its last line. -/
theorem readCells_initializer {bytes : Bytes} (more : bytes ≠ []) :
    readCells (initializer bytes).toList =
      some (bytes.map UInt8.toNat ++ List.replicate (fillCount bytes.length) 0) := by
  obtain ⟨b, rest, rfl⟩ := List.exists_cons_of_ne_nil more
  have first : readCells (addCell ("", 0) (byteCell b)).1.toList = some [b.toNat] := by
    have blank : ∀ c ∈ "    ".toList, c.isWhitespace = true := by simp
    simpa [addCell, cellLead] using readCells_one blank (isCell_byte b)
  have others := List.rel_append (areCells_bytes rest)
    (areCells_zeros (fillCount (b :: rest).length))
  rw [initializer_eq, List.map_cons, List.cons_append, List.foldl_cons]
  simpa using readCells_foldl others (by simp [addCell]) first

theorem fillCount_line (length : Nat) :
    fillCount length < 16 ∧ (length + fillCount length) % 16 = 0 := by
  unfold fillCount
  omega

end Bytes

end EcatDevice
