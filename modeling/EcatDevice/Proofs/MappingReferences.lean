import EcatDevice.Proofs.SortingPermutes
import EcatDevice.Proofs.SymbolTable

/-! # Mapping references

The reference to a sub-object of a well-formed dictionary finds that sub-object, and no reference is
zero, because every type of the catalog has a width. All values that `&` stands for in an
initializer are such references.
-/

namespace EcatDevice

namespace MapRef

theorem toNat_pack (r : MapRef) :
    r.pack.toNat = r.index.toNat * 65536 + r.subindex.toNat * 256 + r.bits.toNat := by
  have index := r.index.toNat_lt
  have subindex := r.subindex.toNat_lt
  have bits := r.bits.toNat_lt
  have low := (Nat.shiftLeft_add_eq_or_of_lt bits r.subindex.toNat).symm
  have small : r.subindex.toNat <<< 8 + r.bits.toNat < 2 ^ 16 := by
    rw [Nat.shiftLeft_eq]
    omega
  have high := (Nat.shiftLeft_add_eq_or_of_lt small r.index.toNat).symm
  have whole : r.index.toNat <<< 16 < 2 ^ 32 ∧ r.subindex.toNat <<< 8 < 2 ^ 32 := by
    rw [Nat.shiftLeft_eq, Nat.shiftLeft_eq]
    omega
  calc r.pack.toNat
      = r.index.toNat <<< 16 % 2 ^ 32 ||| r.subindex.toNat <<< 8 % 2 ^ 32 ||| r.bits.toNat := by
        simp only [pack, UInt32.toNat_or, UInt32.toNat_shiftLeft, UInt16.toNat_toUInt32,
          UInt8.toNat_toUInt32]
        rfl
    _ = r.index.toNat <<< 16 + (r.subindex.toNat <<< 8 + r.bits.toNat) := by
        rw [Nat.mod_eq_of_lt whole.1, Nat.mod_eq_of_lt whole.2, Nat.or_assoc, low, high]
    _ = r.index.toNat * 65536 + r.subindex.toNat * 256 + r.bits.toNat := by
        rw [Nat.shiftLeft_eq, Nat.shiftLeft_eq]
        omega

theorem unpack_pack (r : MapRef) : unpack r.pack = r := by
  obtain ⟨index, subindex, bits⟩ := r
  have number := toNat_pack ⟨index, subindex, bits⟩
  dsimp only at number
  have smallIndex := index.toNat_lt
  have smallSubindex := subindex.toNat_lt
  have smallBits := bits.toNat_lt
  rw [unpack, MapRef.mk.injEq]
  refine ⟨UInt16.toNat_inj.mp ?_, UInt8.toNat_inj.mp ?_, UInt8.toNat_inj.mp ?_⟩
  · simp [Nat.shiftRight_eq_div_pow]
    omega
  · simp [Nat.shiftRight_eq_div_pow]
    omega
  · simp
    omega

theorem ofInt?_ofNat (n : UInt32) : ofInt? (Int64.ofNat n.toNat) = some n := by
  have small := n.toNat_lt
  have value : (Int64.ofNat n.toNat).toInt = n.toNat := Int64.toInt_ofNat_of_lt (by omega)
  rw [ofInt?, value, if_pos (by omega), Int.toNat_natCast, UInt32.ofNat_toNat]

end MapRef

/-- Every type has a width that a reference can state, and those that lie on byte boundaries take
whole bytes. -/
theorem BasicType.widths : ∀ t ∈ catalog,
    0 < t.pdoBits ∧ t.pdoBits < 256 ∧ (t.isByteAligned = true → t.pdoBits % 8 = 0) := by
  decide

/-- The reference to a sub-object as a value of an initializer. -/
def SubObject.referenceValue (sub : SubObject) : Value :=
  .int (Int64.ofNat sub.reference.toNat)

theorem SubObject.reference_ne_zero {sub : SubObject} (listed : sub.basicType ∈ BasicType.catalog) :
    sub.reference ≠ 0 := by
  obtain ⟨positive, small, -⟩ := BasicType.widths sub.basicType listed
  intro zero
  have number : sub.reference.toNat = sub.index.toNat * 65536 + sub.subindex.toNat * 256 +
      (UInt8.ofNat sub.basicType.pdoBits).toNat := MapRef.toNat_pack _
  rw [zero, UInt8.toNat_ofNat_of_lt' small, UInt32.toNat_zero] at number
  omega

namespace Dictionary

theorem find?_reference {d : Dictionary} (formed : d.WellFormed) {o : Object}
    (member : o ∈ d.objects) {sub : SubObject} (part : sub ∈ o.subs) :
    d.find? sub.reference = some sub := by
  have home := (formed.objects o member).home sub part
  have object := get?_of_mem formed.distinct member
  rw [find?, SubObject.reference, MapRef.unpack_pack]
  simp only [home, object, Option.bind_eq_bind, Option.bind_some]
  exact (formed.objects o member).sub?_of_mem part

theorem mem_of_sub? {d : Dictionary} {e : Entity} {sub : SubObject}
    (found : e.sub? d.get? = some sub) : ∃ o ∈ d.objects, sub ∈ o.subs := by
  cases e with
  | literal value => cases found
  | object index =>
      obtain ⟨o, object, found⟩ := Option.bind_eq_some_iff.mp found
      split at found
      · exact ⟨o, (mem_of_get? object).1, (Object.mem_of_sub? found).1⟩
      · cases found
  | sub index subindex =>
      obtain ⟨o, object, found⟩ := Option.bind_eq_some_iff.mp found
      exact ⟨o, (mem_of_get? object).1, (Object.mem_of_sub? found).1⟩

end Dictionary

/-! ## Expansion -/

/-- A value that refers to a sub-object which the finder knows. -/
def Finder.Refers (find : Finder) (value : Value) : Prop :=
  ∃ e sub, Entity.sub? find e = some sub ∧ value = sub.referenceValue

theorem Entity.view_reference {e : Entity} {find : Finder} {name : String} {value : Value}
    (viewed : e.view find .reference name = .ok value) :
    ∃ sub, e.sub? find = some sub ∧ value = sub.referenceValue := by
  obtain ⟨reference, made, viewed⟩ := Except.bind_eq_ok viewed
  cases viewed
  unfold referenceOf at made
  split at made
  · next sub found =>
      cases made
      exact ⟨sub, found, rfl⟩
  · cases made

namespace Scope

theorem look_reference {scope : Scope} {name : String} {value : Value}
    (looked : scope.look .reference name = .ok value) : scope.find.Refers value := by
  unfold look at looked
  split at looked
  · exact ⟨_, Entity.view_reference looked⟩
  · cases looked

/-- What a name adds to the values of a pattern is its own value. -/
theorem pick_some {scope : Scope} {view : View} {name : String} {e : Entity} {value : Value}
    (picked : scope.pick view name e = .ok (some value)) :
    e.view scope.find view name = .ok value := by
  unfold pick at picked
  split at picked
  · next viewed =>
      cases picked
      exact viewed
  · cases picked
  · cases picked

theorem matching_reference {scope : Scope} {test : String → Bool} {values : List Value}
    (made : scope.matching .reference test = .ok values) :
    ∀ value ∈ values, scope.find.Refers value := by
  obtain ⟨picked, each, made⟩ := Except.bind_eq_ok made
  cases made
  intro value member
  obtain ⟨one, listed, rfl⟩ := List.mem_filterMap.mp member
  obtain ⟨⟨name, e⟩, -, given⟩ := mapM_mem each listed
  exact ⟨e, Entity.view_reference (pick_some given)⟩

theorem expand_reference {scope : Scope} {name : String} {values : List Value}
    {warnings : List Warning}
    (made : scope.expand (.symbol .reference name) = .ok (values, warnings)) :
    ∀ value ∈ values, scope.find.Refers value := by
  dsimp only [expand] at made
  split at made
  · obtain ⟨sorted, pattern, made⟩ := Except.bind_eq_ok made
    cases made
    obtain ⟨test, -, pattern⟩ := Except.bind_eq_ok pattern
    obtain ⟨found, matched, pattern⟩ := Except.bind_eq_ok pattern
    split at pattern
    · next ordered =>
        cases pattern
        intro value member
        -- Sorting may fail, but it never invents a value.
        rw [(Sorting.sort_perm ordered).mem_iff] at member
        exact matching_reference matched value member
    · cases pattern
  · obtain ⟨value, looked, made⟩ := Except.bind_eq_ok made
    cases made
    exact List.forall_mem_singleton.mpr (look_reference looked)

/-- An initializer of references has only values that refer to something. -/
theorem expandAll_reference {scope : Scope} {items : List Expr}
    (references : ∀ item ∈ items, ∃ name, item = .symbol .reference name) {values : List Value}
    {warnings : List Warning} (made : scope.expandAll items = .ok (values, warnings)) :
    ∀ value ∈ values, scope.find.Refers value := by
  obtain ⟨parts, each, made⟩ := Except.bind_eq_ok made
  cases made
  intro value member
  obtain ⟨part, listed, member⟩ := List.mem_flatMap.mp member
  obtain ⟨item, present, expanded⟩ := mapM_mem each listed
  obtain ⟨name, rfl⟩ := references item present
  exact expand_reference expanded value member

end Scope

end EcatDevice
