import EcatDevice.Proofs.Declarations
import EcatDevice.Proofs.DefaultEncoding
import EcatDevice.Proofs.Telegram
import Mathlib

/-! # Ranges of default values

A type of integers has two ranges: that of the bytes in which a default value is stored, and that of
the bits which process data carry. Insertion compares default values with the first one. The second
is the same for most types, but a bit field that is narrower than a byte is stored in a whole one:
its type also takes default values from which a telegram drops bits.
-/

namespace EcatDevice

namespace Encoding

def isInteger : Encoding → Bool
  | .unsigned _ => true
  | .signed _ => true
  | .real32 => false
  | .text _ => false

/-- Whether integers of so many bits can be `n`. -/
def InRange (bits : Nat) (n : Int) : Encoding → Prop
  | .unsigned _ => 0 ≤ n ∧ n < 2 ^ bits
  | .signed _ => -2 ^ (bits - 1) ≤ n ∧ n < 2 ^ (bits - 1)
  | _ => False

instance (bits : Nat) (n : Int) : (e : Encoding) → Decidable (e.InRange bits n)
  | .unsigned _ => inferInstanceAs (Decidable (_ ∧ _))
  | .signed _ => inferInstanceAs (Decidable (_ ∧ _))
  | .real32 => inferInstanceAs (Decidable False)
  | .text _ => inferInstanceAs (Decidable False)

/-- The integer that the low bits of a word stand for. -/
def ofBits (bits word : Nat) : Encoding → Int
  | .signed _ => Int.bmod word (2 ^ bits)
  | _ => (word : Int) % 2 ^ bits

end Encoding

/-- An integer in a word of 128 bits, the widest that a telegram carries. -/
def wordOf (n : Int) : Nat :=
  (n % 2 ^ 128).toNat

theorem wordOf_mod (n : Int) {bits : Nat} (narrow : bits ≤ 128) :
    ((wordOf n % 2 ^ bits : Nat) : Int) = n % 2 ^ bits := by
  have divides : (2 : Int) ^ bits ∣ 2 ^ 128 := pow_dvd_pow 2 narrow
  have word : (wordOf n : Int) = n % 2 ^ 128 :=
    Int.toNat_of_nonneg (Int.emod_nonneg n (by decide))
  push_cast
  rw [word, Int.emod_emod_of_dvd n divides]

/-- The low bits of an integer give it back just if it is in their range. -/
theorem Encoding.ofBits_wordOf {e : Encoding} (integer : e.isInteger = true) {bits : Nat}
    (positive : 0 < bits) (narrow : bits ≤ 128) (n : Int) :
    e.ofBits bits (wordOf n % 2 ^ bits) = n ↔ e.InRange bits n := by
  have whole : (0 : Int) < 2 ^ bits := by positivity
  cases e with
  | unsigned width =>
      simp only [ofBits, InRange, wordOf_mod n narrow, Int.emod_emod_of_dvd n (dvd_refl _)]
      constructor
      · intro same
        rw [← same]
        exact ⟨Int.emod_nonneg n whole.ne', Int.emod_lt_of_pos n whole⟩
      · rintro ⟨lower, upper⟩
        exact Int.emod_eq_of_lt lower upper
  | signed width =>
      obtain ⟨below, rfl⟩ : ∃ below, bits = below + 1 := ⟨bits - 1, by omega⟩
      have cast : ((2 ^ (below + 1) : Nat) : Int) = 2 ^ below * 2 := by
        push_cast
        exact pow_succ 2 below
      have low : ((wordOf n % 2 ^ (below + 1) : Nat) : Int) = n % (2 ^ (below + 1) : Nat) := by
        exact_mod_cast wordOf_mod n narrow
      rw [ofBits, low, Int.emod_bmod, Int.bmod_eq_iff (by positivity), cast, sub_self, InRange,
        Nat.add_sub_cancel]
      have half : (2 ^ below * 2 + 1 : Int) / 2 = 2 ^ below := by omega
      rw [Int.mul_ediv_cancel _ two_ne_zero, half]
      simp
  | _ => cases integer

/-! ## What insertion accepts -/

/-- An integer type encodes the integers in the range of its bytes, and nothing else. -/
theorem BasicType.encode_ok_iff {t : BasicType} (integer : t.encoding.isInteger = true)
    (sized : 0 < t.encoding.byteLength) (field : String) (value : Value) :
    (∃ bytes, t.encode field value = .ok bytes) ↔
      ∃ n : Int64, value = .int n ∧
        t.encoding.InRange (8 * t.encoding.byteLength) n.toInt := by
  have whole : ∀ width : Nat, (2 : Int) ^ (8 * width) = 256 ^ width := pow_mul 2 8
  rw [encode_takes]
  generalize t.encoding = e at integer sized ⊢
  cases e with
  | unsigned width =>
      cases value <;> simp [Encoding.Takes, Encoding.InRange, Encoding.byteLength, whole]
  | signed width =>
      have half : (256 ^ width : Int) / 2 = 2 ^ (8 * width - 1) := by
        obtain ⟨below, same⟩ : ∃ below, 8 * width = below + 1 :=
          ⟨8 * width - 1, by simp only [Encoding.byteLength] at sized; omega⟩
        rw [← whole, same, Nat.add_sub_cancel, pow_succ, Int.mul_ediv_cancel _ two_ne_zero]
      cases value <;> simp [Encoding.Takes, Encoding.InRange, Encoding.byteLength, half]
  | _ => cases integer

theorem Resolution.insert_ok_iff (r : Resolution) (object : Object) :
    (∃ next, r.insert object = .ok next) ↔
      r.dictionary.get? object.index = none ∧ object.Encodes := by
  constructor
  · rintro ⟨next, made⟩
    obtain ⟨all, encoded, made⟩ := Except.bind_eq_ok made
    obtain ⟨dictionary, inserted, -⟩ := Except.bind_eq_ok made
    refine ⟨?_, encodes_of_mapM encoded⟩
    unfold Dictionary.insert at inserted
    split at inserted
    · cases inserted
    · next absent => simpa using absent
  · rintro ⟨free, encodes⟩
    obtain ⟨all, encoded⟩ := mapM_total encodes
    refine ⟨{ r with
      dictionary := { objects := r.dictionary.objects ++ [object] }
      lastIndex := object.index }, ?_⟩
    rw [insert, encoded, Dictionary.insert, free]
    rfl

/-! ## Widths of integer types -/

/-- The bits of an integer type fill its bytes, or they are a part of one byte. -/
theorem BasicType.integer_widths : ∀ t ∈ catalog, t.encoding.isInteger = true →
    0 < t.encoding.byteLength ∧ 0 < t.pdoBits ∧
      (t.pdoBits = 8 * t.encoding.byteLength ∨ t.encoding = .unsigned 1 ∧ t.pdoBits < 8) := by
  decide

theorem BasicType.inRange_iff {t : BasicType} (listed : t ∈ catalog)
    (integer : t.encoding.isInteger = true) {n : Int}
    (stored : t.encoding.InRange (8 * t.encoding.byteLength) n) :
    t.encoding.InRange t.pdoBits n ↔ ¬(t.pdoBits < 8 ∧ 2 ^ t.pdoBits ≤ n) := by
  obtain ⟨sized, -, whole | ⟨byte, narrow⟩⟩ := integer_widths t listed integer
  · rw [whole]
    refine iff_of_true stored ?_
    omega
  · rw [byte] at stored ⊢
    obtain ⟨lower, -⟩ := stored
    simp [Encoding.InRange, lower, narrow]

namespace ProcessData

/-- A telegram gives an integer back just if it is in the range of its field. -/
theorem returned_iff {fields : List Field} {p : Packing} (made : pack fields = .ok p)
    (narrow : ∀ f ∈ fields, f.bits ≤ 128) {i : Nat} {field : Field}
    (found : fields[i]? = some field) (positive : 0 < field.bits) {e : Encoding}
    (integer : e.isInteger = true) {n : Int} {values : List Nat}
    (given : values[i]? = some (wordOf n)) (mode : Overflow) (rest : Bytes) :
    ∃ telegram live, p.collect mode values = some telegram ∧
      p.scatter mode (telegram ++ rest) = some live ∧
      (live[i]?.map (fun word => e.ofBits field.bits word) = some n ↔
        e.InRange field.bits n) := by
  refine ⟨_, _, collect_eq made narrow mode values, scatter_layout made narrow mode _, ?_⟩
  obtain ⟨start, slot⟩ := layout_getElem? found
  have value : values.getD i 0 = wordOf n := by simp [given]
  rw [List.getElem?_map, slot, Option.map_some, Option.map_some,
    read_telegram made narrow values slot rest, value, Option.some.injEq]
  exact Encoding.ofBits_wordOf integer positive (narrow field (List.mem_of_getElem? found)) n

end ProcessData

/-! ## Compiled programs -/

namespace SubObject

/-- The default value is an integer that its bytes can hold. -/
def Stores (sub : SubObject) (n : Int64) : Prop :=
  sub.default = .int n ∧
    sub.basicType.encoding.InRange (8 * sub.basicType.encoding.byteLength) n.toInt

/-- Process data can hold an integer for the sub-object. -/
def Fits (sub : SubObject) (n : Int64) : Prop :=
  sub.basicType.encoding.InRange sub.pdoBits n.toInt

theorem encodes_iff_stores {sub : SubObject} (listed : sub.basicType ∈ BasicType.catalog)
    (integer : sub.basicType.encoding.isInteger = true) : sub.Encodes ↔ ∃ n, sub.Stores n := by
  obtain ⟨sized, -⟩ := BasicType.integer_widths sub.basicType listed integer
  exact BasicType.encode_ok_iff integer sized sub.symbol sub.default

end SubObject

theorem compile_encodes {engine : Regex.Engine} {source : String} {c : Compiled}
    (made : compile engine source = .ok c) :
    ∀ o ∈ c.device.dictionary.objects, o.Typed ∧ o.Encodes := by
  have encodes := (compile_changes made).all_objects Object.encodes_unmarked
    (fun _ => And.right) (List.forall_mem_nil _)
  obtain ⟨statements, -, made⟩ := Except.bind_eq_ok made
  obtain ⟨r, steps, made⟩ := Except.bind_eq_ok made
  cases made
  intro o member
  exact ⟨Resolution.steps_typed steps o member, encodes o member⟩

/-- An integer in a compiled dictionary is one that the bytes of its type hold, and insertion asks
for no more. It fits its field in process data unless the field is narrower than a byte and the
number has more bits. Telegrams give back the numbers that fit, and only those. -/
theorem default_ranges {engine : Regex.Engine} {source : String} {c : Compiled}
    (made : compile engine source = .ok c) {o : Object}
    (member : o ∈ c.device.dictionary.objects) {sub : SubObject} (part : sub ∈ o.subs)
    (integer : sub.basicType.encoding.isInteger = true) :
    (∀ (r : Resolution) (object : Object),
      (∀ other ∈ object.subs, other.basicType = sub.basicType) →
      ((∃ next, r.insert object = .ok next) ↔
        r.dictionary.get? object.index = none ∧ ∀ other ∈ object.subs, ∃ n, other.Stores n)) ∧
    ∃ n, sub.Stores n ∧
      (sub.Fits n ↔ ¬(sub.pdoBits < 8 ∧ 2 ^ sub.pdoBits ≤ n.toInt)) ∧
      ∀ (fields : List ProcessData.Field) (p : ProcessData.Packing),
        ProcessData.pack fields = .ok p → (∀ f ∈ fields, f.bits ≤ 128) →
        ∀ (i : Nat) (field : ProcessData.Field), fields[i]? = some field →
        field.bits = sub.pdoBits → ∀ values : List Nat, values[i]? = some (wordOf n.toInt) →
        ∀ (mode : ProcessData.Overflow) (rest : Bytes),
          ∃ telegram live, p.collect mode values = some telegram ∧
            p.scatter mode (telegram ++ rest) = some live ∧
            (live[i]?.map (fun word => sub.basicType.encoding.ofBits sub.pdoBits word) =
              some n.toInt ↔ sub.Fits n) := by
  obtain ⟨typed, encodes⟩ := compile_encodes made o member
  have listed := typed sub part
  constructor
  · intro r object same
    have each : ∀ other ∈ object.subs, (other.Encodes ↔ ∃ n, other.Stores n) := by
      intro other present
      rw [← same other present] at listed integer
      exact SubObject.encodes_iff_stores listed integer
    rw [Resolution.insert_ok_iff, Object.Encodes, forall₂_congr each]
  · obtain ⟨n, stores⟩ := (SubObject.encodes_iff_stores listed integer).mp (encodes sub part)
    refine ⟨n, stores, BasicType.inRange_iff listed integer stores.2, ?_⟩
    intro fields p packed narrow i field found width values given mode rest
    obtain ⟨-, positive, -⟩ := BasicType.integer_widths sub.basicType listed integer
    have returned :=
      ProcessData.returned_iff packed narrow found (width ▸ positive) integer given mode rest
    rw [width] at returned
    exact returned

/-- A truth value with a default value of two bits. -/
def wideFlag : List Statement :=
  [.variable
    { place := ⟨1, 1⟩, typeName := "BOOL", access := Access.empty, symbol := "flag",
      index := some (.literal (.int 0x2000)), default := some (.literal (.int 2)),
      description := none, properties := [] }]

theorem parse_wideFlag : Source.parse "BOOL flag @0x2000 = 2;" = .ok wideFlag := by
  cbv

def wideFlagSub : SubObject :=
  { index := 0x2000, subindex := 0, access := Access.empty,
    basicType := BasicType.bitField "BOOL" 1 "BOOLEAN" 1, symbol := "flag", default := .int 2,
    description := "Index 0x2000" }

theorem default_ranges_wideFlag :
    ∃ c o p, compile .plain "BOOL flag @0x2000 = 2;" = .ok c ∧ o ∈ c.device.dictionary.objects ∧
      o.subs = [wideFlagSub] ∧ (∃ next, Resolution.insert { engine := .plain } o = .ok next) ∧
      wideFlagSub.Stores 2 ∧ ¬wideFlagSub.Fits 2 ∧
      ProcessData.pack [⟨"flag", 1, false⟩] = .ok p ∧
      ∃ telegram live, p.collect .trap [2] = some telegram ∧
        p.scatter .trap (telegram ++ []) = some live ∧
        live[0]?.map (fun word =>
          wideFlagSub.basicType.encoding.ofBits wideFlagSub.pdoBits word) ≠ some 2 := by
  have given : (resolve .plain wideFlag).toOption.map
      (·.device.dictionary.objects.map Object.subs) = some [[wideFlagSub]] := by
    decide +kernel
  obtain ⟨c, made, objects⟩ := Option.map_eq_some_iff.mp given
  obtain ⟨o, alone, subs⟩ := List.map_eq_singleton_iff.mp objects
  have same : compile .plain "BOOL flag @0x2000 = 2;" = .ok c := by
    rw [compile, parse_wideFlag]
    exact Except.eq_ok_of_toOption made
  have member : o ∈ c.device.dictionary.objects := by simp [alone]
  have part : wideFlagSub ∈ o.subs := by simp [subs]
  have stores : wideFlagSub.Stores 2 := ⟨rfl, by decide⟩
  have wide : ¬wideFlagSub.Fits 2 := by
    unfold SubObject.Fits
    decide
  obtain ⟨p, packed⟩ : ∃ p, ProcessData.pack [⟨"flag", 1, false⟩] = .ok p := ⟨_, rfl⟩
  obtain ⟨accepts, n, ⟨default, -⟩, -, returns⟩ := default_ranges same member part rfl
  cases default
  refine ⟨c, o, p, same, member, subs, ?_, stores, wide, packed, ?_⟩
  · apply (accepts { engine := .plain } o (by simp [subs])).mpr
    exact ⟨rfl, by simpa [subs] using ⟨2, stores⟩⟩
  · obtain ⟨telegram, live, collected, scattered, returned⟩ :=
      returns _ p packed (by decide) 0 _ rfl rfl [2] (by decide) .trap []
    exact ⟨telegram, live, collected, scattered, fun same => wide (returned.mp same)⟩

end EcatDevice
