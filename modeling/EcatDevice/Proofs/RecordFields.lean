import EcatDevice.Proofs.DictionaryShape

/-! # Records field by field

A record with one more field has all sub-objects of the record without it, at the subindices they
had; only the count in front changes. The subindices ascend, so the last sub-object has the largest,
and a sub-object is found at its own subindex.
-/

namespace EcatDevice

/-- An element is found by a key that no other element has. -/
theorem find?_of_nodup {α β : Type} [BEq β] [LawfulBEq β] (key : α → β) {items : List α}
    (distinct : (items.map key).Nodup) {a : α} (member : a ∈ items) :
    items.find? (fun other => key other == key a) = some a := by
  induction items with
  | nil => cases member
  | cons first rest ih =>
      obtain ⟨absent, distinct⟩ := List.nodup_cons.mp distinct
      rcases List.mem_cons.mp member with rfl | later
      · exact List.find?_cons_of_pos (beq_self_eq_true _)
      · have other : ¬(key first == key a) = true := by
          intro same
          rw [eq_of_beq same] at absent
          exact absent (List.mem_map_of_mem later)
        rw [List.find?_cons, Bool.eq_false_iff.mpr other]
        exact ih distinct later

namespace Object

theorem WellFormed.sub?_of_mem {o : Object} (formed : o.WellFormed) {sub : SubObject}
    (member : sub ∈ o.subs) : o.sub? sub.subindex = some sub := by
  refine find?_of_nodup SubObject.subindex ?_ member
  refine List.pairwise_map.mpr (formed.ascending.imp ?_)
  intro left right less same
  exact UInt8.lt_irrefl _ (same ▸ less)

theorem mem_of_sub? {o : Object} {subindex : UInt8} {sub : SubObject}
    (found : o.sub? subindex = some sub) : sub ∈ o.subs ∧ sub.subindex = subindex :=
  ⟨List.mem_of_find?_eq_some found,
    eq_of_beq (List.find?_some (p := fun sub : SubObject => sub.subindex == subindex) found)⟩

/-! ## Fields -/

/-- The sub-object of a field at the subindex it was given. -/
def fieldSub (index : UInt16) (field : FieldSpec) (subindex : UInt8) : SubObject :=
  { index, subindex, access := field.access, basicType := field.basicType, symbol := field.symbol,
    default := field.default,
    description := field.description.getD (SubObject.defaultDescription subindex) }

/-- The subindex behind which the next field goes. -/
def lastSubindex : UInt8 → List SubObject → UInt8
  | previous, [] => previous
  | _, sub :: rest => lastSubindex sub.subindex rest

theorem fieldSubs_cons {index : UInt16} {symbol : String} {previous : UInt8} {field : FieldSpec}
    {rest : List FieldSpec} {all : List SubObject} :
    fieldSubs index symbol previous (field :: rest) = .ok all ↔
      ∃ subindex others, fieldSubindex symbol previous field = .ok subindex ∧
        fieldSubs index symbol subindex rest = .ok others ∧
        all = fieldSub index field subindex :: others := by
  rw [fieldSubs]
  constructor
  · intro made
    obtain ⟨subindex, first, made⟩ := Except.bind_eq_ok made
    obtain ⟨others, later, made⟩ := Except.bind_eq_ok made
    cases made
    exact ⟨subindex, others, first, later, rfl⟩
  · rintro ⟨subindex, others, first, later, rfl⟩
    simp only [first, later, bind, Except.bind]
    rfl

theorem fieldSubs_append {index : UInt16} {symbol : String} {previous : UInt8}
    {fields more : List FieldSpec} {all : List SubObject}
    (made : fieldSubs index symbol previous (fields ++ more) = .ok all) :
    ∃ subs rest, fieldSubs index symbol previous fields = .ok subs ∧
      fieldSubs index symbol (lastSubindex previous subs) more = .ok rest ∧ all = subs ++ rest := by
  induction fields generalizing previous all with
  | nil => exact ⟨[], all, rfl, made, rfl⟩
  | cons field fields ih =>
      obtain ⟨subindex, others, first, later, rfl⟩ := fieldSubs_cons.mp made
      obtain ⟨subs, rest, before, behind, rfl⟩ := ih later
      exact ⟨fieldSub index field subindex :: subs, rest,
        fieldSubs_cons.mpr ⟨subindex, subs, first, before, rfl⟩, behind, rfl⟩

/-- One more field adds one sub-object behind the others. -/
theorem record_snoc {index : UInt16} {symbol description : String} {fields : List FieldSpec}
    {field : FieldSpec} {o next : Object} (made : record index symbol description fields = .ok o)
    (more : record index symbol description (fields ++ [field]) = .ok next) :
    ∃ subs subindex, o.subs = countSub index fields.length :: subs ∧
      next.subs = countSub index (fields.length + 1) :: subs ++ [fieldSub index field subindex] ∧
      0 < subindex := by
  obtain ⟨-, subs, each, rfl⟩ := record_ok made
  obtain ⟨-, _, eachMore, rfl⟩ := record_ok more
  have spec := fieldSubs_spec eachMore
  obtain ⟨before, rest, first, behind, rfl⟩ := fieldSubs_append eachMore
  obtain rfl : before = subs := Except.ok.inj (first.symm.trans each)
  obtain ⟨subindex, others, _, last, rfl⟩ := fieldSubs_cons.mp behind
  cases last
  refine ⟨before, subindex, rfl, ?_, spec.above (fieldSub index field subindex) (by simp)⟩
  rw [List.length_append, List.length_singleton, List.cons_append]

/-! ## The largest subindex -/

theorem foldl_max_le {subs : List SubObject} {start bound : UInt8} (low : start ≤ bound)
    (all : ∀ sub ∈ subs, sub.subindex ≤ bound) :
    subs.foldl (fun largest sub => max largest sub.subindex) start ≤ bound := by
  induction subs generalizing start with
  | nil => exact low
  | cons sub rest ih =>
      refine ih ?_ fun other member => all other (List.mem_cons_of_mem _ member)
      change (if start ≤ sub.subindex then sub.subindex else start) ≤ bound
      split
      · exact all sub List.mem_cons_self
      · exact low

theorem maxSubindex_snoc {o : Object} (formed : o.WellFormed) {front : List SubObject}
    {last : SubObject} (subs : o.subs = front ++ [last]) : o.maxSubindex = last.subindex := by
  have ascending := formed.ascending
  rw [subs, List.pairwise_append] at ascending
  have below : front.foldl (fun largest sub => max largest sub.subindex) 0 ≤ last.subindex := by
    refine foldl_max_le (UInt8.le_iff_toNat_le.mpr (Nat.zero_le _)) ?_
    intro sub member
    exact UInt8.le_of_lt (ascending.2.2 sub member last List.mem_cons_self)
  rw [maxSubindex, subs, List.foldl_append]
  exact if_pos below

end Object

namespace Dictionary

theorem get?_of_mem {d : Dictionary} (distinct : (d.objects.map Object.index).Nodup) {o : Object}
    (member : o ∈ d.objects) : d.get? o.index = some o :=
  find?_of_nodup Object.index distinct member

theorem mem_of_get? {d : Dictionary} {index : UInt16} {o : Object} (found : d.get? index = some o) :
    o ∈ d.objects ∧ o.index = index :=
  ⟨List.mem_of_find?_eq_some found,
    eq_of_beq (List.find?_some (p := fun o : Object => o.index == index) found)⟩

end Dictionary

end EcatDevice
