import EcatDevice.Proofs.MapSynthesis
import Mathlib

/-! # The memory of an object

The offset of a subindex counts the bits of all sub-objects with smaller subindices. Since
subindices ascend, these are the sub-objects in front, so the sub-objects lie one behind the other
from bit zero up to the size of the object, and a subindex that is not there has the offset of the
next one that is. The size exceeds that of the data by the count, which is stored in sixteen bits,
and by the eight bits that each further sub-object of the type of a count takes in memory alone.
All sums stay far below what a 32-bit word holds.
-/

namespace EcatDevice

/-! ## Sums in a machine word -/

/-- Adds numbers to a 32-bit word one after the other; there is no result if a sum does not fit. -/
def wordSum (sum : UInt32) : List Nat → Option UInt32
  | [] => some sum
  | n :: rest =>
    if sum.toNat + n < UInt32.size then wordSum (sum + UInt32.ofNat n) rest else none

/-- Since no number is negative, a total that fits has no sum on the way that does not. -/
theorem wordSum_total {α : Type} (measure : α → Nat) (items : List α) (sum : UInt32)
    (fits : sum.toNat + totalOf measure items < UInt32.size) :
    (wordSum sum (items.map measure)).map UInt32.toNat =
      some (sum.toNat + totalOf measure items) := by
  induction items generalizing sum with
  | nil => simp [wordSum, totalOf]
  | cons a rest ih =>
      simp only [totalOf] at fits ⊢
      have small : sum.toNat + measure a < UInt32.size := by omega
      have next : (sum + UInt32.ofNat (measure a)).toNat = sum.toNat + measure a := by
        simp only [UInt32.toNat_add, UInt32.toNat_ofNat', UInt32.size] at small ⊢
        omega
      rw [List.map_cons, wordSum, if_pos small, ih _ (by omega), next, Nat.add_assoc]

/-! ## Widths -/

/-- The two widths of a type differ for the count alone. -/
theorem BasicType.sdoBits_eq : ∀ t ∈ catalog,
    t.sdoBits = t.pdoBits + if t = subindex0 then 8 else 0 := by
  decide

theorem BasicType.sdoBits_le : ∀ t ∈ catalog, t.pdoBits ≤ t.sdoBits ∧ t.sdoBits ≤ 80 := by
  decide

theorem totalOf_sdoBits {subs : List SubObject}
    (typed : ∀ sub ∈ subs, sub.basicType ∈ BasicType.catalog) :
    totalOf SubObject.sdoBits subs =
      totalOf SubObject.pdoBits subs + 8 * subs.countP (·.basicType = BasicType.subindex0) := by
  induction subs with
  | nil => rfl
  | cons sub rest ih =>
      obtain ⟨listed, others⟩ := List.forall_mem_cons.mp typed
      have here : sub.sdoBits =
          sub.pdoBits + if sub.basicType = BasicType.subindex0 then 8 else 0 :=
        BasicType.sdoBits_eq sub.basicType listed
      simp only [totalOf, ih others, here, List.countP_cons, decide_eq_true_eq]
      split <;> omega

namespace Object

/-! ## Offsets -/

/-- Where a subindex splits the sub-objects, the smaller ones are those in front. -/
theorem filter_below {subs front back : List SubObject} {next : SubObject} {subindex : UInt8}
    (ascending : subs.Pairwise fun left right => left.subindex < right.subindex)
    (split : subs = front ++ next :: back) (lower : ∀ sub ∈ front, sub.subindex < subindex)
    (upper : subindex ≤ next.subindex) : subs.filter (·.subindex < subindex) = front := by
  subst split
  have later := (List.pairwise_cons.mp (List.pairwise_append.mp ascending).2.1).1
  have kept : front.filter (·.subindex < subindex) = front := by
    simpa [List.filter_eq_self] using lower
  have dropped : (next :: back).filter (·.subindex < subindex) = [] := by
    simp only [List.filter_eq_nil_iff, decide_eq_true_eq, UInt8.not_lt, List.forall_mem_cons]
    exact ⟨upper, fun sub member => UInt8.le_trans upper (UInt8.le_of_lt (later sub member))⟩
  rw [List.filter_append, kept, dropped, List.append_nil]

variable {o : Object}

theorem WellFormed.sdoOffset_split (formed : o.WellFormed) {front back : List SubObject}
    {sub : SubObject} (split : o.subs = front ++ sub :: back) :
    o.sdoOffset sub.subindex = totalOf SubObject.sdoBits front := by
  have ascending := formed.ascending
  rw [split] at ascending
  have lower : ∀ other ∈ front, other.subindex < sub.subindex := fun other member =>
    (List.pairwise_append.mp ascending).2.2 other member sub List.mem_cons_self
  rw [sdoOffset, filter_below formed.ascending split lower (UInt8.le_refl _)]

/-- The offset of a sub-object is the size of those before its position. -/
theorem WellFormed.sdoOffset_at (formed : o.WellFormed) {k : Nat} {sub : SubObject}
    (place : o.subs[k]? = some sub) :
    o.sdoOffset sub.subindex = totalOf SubObject.sdoBits (o.subs.take k) := by
  obtain ⟨inside, rfl⟩ := List.getElem?_eq_some_iff.mp place
  apply formed.sdoOffset_split
  rw [List.getElem_cons_drop, List.take_append_drop]

theorem WellFormed.sdoOffset_succ (formed : o.WellFormed) {k : Nat} {sub next : SubObject}
    (place : o.subs[k]? = some sub) (behind : o.subs[k + 1]? = some next) :
    o.sdoOffset next.subindex = o.sdoOffset sub.subindex + sub.sdoBits := by
  rw [formed.sdoOffset_at behind, formed.sdoOffset_at place, List.take_add_one, place,
    totalOf_append]
  simp [totalOf]

theorem WellFormed.sdoOffset_last (formed : o.WellFormed) {last : SubObject}
    (place : o.subs.getLast? = some last) :
    o.sdoOffset last.subindex + last.sdoBits = o.sdoBits := by
  obtain ⟨front, split⟩ := List.getLast?_eq_some_iff.mp place
  rw [formed.sdoOffset_split split, sdoBits, split, totalOf_append]
  simp [totalOf]

/-- The sub-object with the smallest subindex above another one. -/
structure IsNext (o : Object) (subindex : UInt8) (next : SubObject) : Prop where
  member : next ∈ o.subs
  above : subindex < next.subindex
  least : ∀ sub ∈ o.subs, subindex < sub.subindex → next.subindex ≤ sub.subindex

/-- A subindex that is not there has the offset of the next one, or lies behind all others. -/
theorem WellFormed.sdoOffset_gap (formed : o.WellFormed) {subindex : UInt8}
    (gap : o.sub? subindex = none) :
    (∃ next, o.IsNext subindex next ∧ o.sdoOffset subindex = o.sdoOffset next.subindex) ∨
      (∀ sub ∈ o.subs, sub.subindex < subindex) ∧ o.sdoOffset subindex = o.sdoBits := by
  have absent : ∀ sub ∈ o.subs, ¬subindex < sub.subindex → sub.subindex < subindex := by
    simp only [sub?, List.find?_eq_none, beq_iff_eq] at gap
    intro sub member above
    exact UInt8.lt_of_le_of_ne (UInt8.not_lt.mp above) (gap sub member)
  cases found : o.subs.find? (subindex < ·.subindex) with
  | some next =>
      obtain ⟨above, front, back, split, below⟩ := List.find?_eq_some_iff_append.mp found
      simp only [decide_eq_true_eq, Bool.not_eq_true', decide_eq_false_iff_not] at above below
      have inside : ∀ sub ∈ front, sub ∈ o.subs := by simp +contextual [split]
      have lower : ∀ sub ∈ front, sub.subindex < subindex := fun sub member =>
        absent sub (inside sub member) (below sub member)
      left
      refine ⟨next, ⟨by simp [split], above, ?_⟩, ?_⟩
      · have ascending := formed.ascending
        rw [split] at ascending ⊢
        have later := (List.pairwise_cons.mp (List.pairwise_append.mp ascending).2.1).1
        intro sub member larger
        rcases List.mem_append.mp member with before | here
        · exact absurd larger (below sub before)
        · rcases List.mem_cons.mp here with rfl | behind
          · exact UInt8.le_refl _
          · exact UInt8.le_of_lt (later sub behind)
      · rw [formed.sdoOffset_split split, sdoOffset,
          filter_below formed.ascending split lower (UInt8.le_of_lt above)]
  | none =>
      have all : ∀ sub ∈ o.subs, sub.subindex < subindex := by
        simp only [List.find?_eq_none, decide_eq_true_eq] at found
        exact fun sub member => absent sub member (found sub member)
      have kept : o.subs.filter (·.subindex < subindex) = o.subs := by
        simpa [List.filter_eq_self] using all
      right
      exact ⟨all, by rw [sdoOffset, kept, sdoBits]⟩

/-! ## Sizes -/

theorem WellFormed.nonempty (formed : o.WellFormed) : o.subs ≠ [] := by
  have shape := formed.shape
  intro none
  rw [none] at shape
  cases kind : o.kind <;> simp [kind, Shape, Counted] at shape

/-- The data of an array or a record follow its count. -/
theorem WellFormed.subs_counted (formed : o.WellFormed) (many : o.kind ≠ .variable) :
    ∃ count, o.subs = count :: o.payload ∧ count.subindex = 0 ∧
      count.basicType = BasicType.subindex0 := by
  obtain ⟨counted, payload⟩ : Counted o.subs ∧ o.payload = o.subs.drop 1 := by
    have shape := formed.shape
    cases kind : o.kind with
    | «variable» => exact absurd kind many
    | array =>
        rw [kind] at shape
        exact ⟨shape.1, by simp [Object.payload, kind]⟩
    | record =>
        rw [kind] at shape
        exact ⟨shape, by simp [Object.payload, kind]⟩
  cases subs : o.subs with
  | nil => simp [subs, Counted] at counted
  | cons count rest =>
      rw [subs] at counted payload
      exact ⟨count, by simp [payload], counted.1, counted.2.1⟩

theorem WellFormed.pdoDataBits_eq (formed : o.WellFormed) (many : o.kind ≠ .variable) :
    o.pdoDataBits = totalOf SubObject.pdoBits o.payload := by
  obtain ⟨count, split, zero, -⟩ := formed.subs_counted many
  have ascending := formed.ascending
  rw [split] at ascending
  have positive : ∀ sub ∈ o.payload, 0 < sub.subindex :=
    zero ▸ (List.pairwise_cons.mp ascending).1
  have kept : o.payload.filter (0 < ·.subindex) = o.payload := by
    simpa [List.filter_eq_self] using positive
  have dropped : ¬0 < count.subindex := by simp [zero]
  rw [pdoDataBits, split, List.filter_cons_of_neg (by simpa using dropped), kept]

theorem WellFormed.sdoBits_eq (formed : o.WellFormed) (typed : o.Typed)
    (many : o.kind ≠ .variable) :
    o.sdoBits =
      16 + o.pdoDataBits + 8 * o.payload.countP (·.basicType = BasicType.subindex0) := by
  obtain ⟨count, split, -, type⟩ := formed.subs_counted many
  have sixteen : count.sdoBits = 16 := by
    rw [SubObject.sdoBits, type]
    rfl
  have payload := totalOf_sdoBits fun sub member => typed sub (mem_subs_of_mem_payload member)
  rw [sdoBits, split, totalOf, sixteen, payload, formed.pdoDataBits_eq many, Nat.add_assoc]

/-- No sum over some of the sub-objects of an object overflows. -/
theorem WellFormed.wordSum_subs (formed : o.WellFormed) {measure : SubObject → Nat}
    (narrow : ∀ sub ∈ o.subs, measure sub ≤ 80) {part : List SubObject}
    (inside : part.Sublist o.subs) :
    (wordSum 0 (part.map measure)).map UInt32.toNat = some (totalOf measure part) := by
  have total : totalOf measure part ≤ 80 * part.length :=
    totalOf_le fun sub member => narrow sub (inside.subset member)
  have few := inside.length_le
  have all := formed.length_le
  have sum := wordSum_total measure part 0
  simp only [UInt32.toNat_zero, Nat.zero_add] at sum
  apply sum
  simp only [UInt32.size]
  omega

end Object

namespace Dictionary

/-- The sub-objects of an object tile its memory in order: the first one is at offset zero, each
one begins where the one before ends, and the last one ends with the object. A subindex that is not
there has the offset of the next one, or the size of the object if none follows. The sizes of
memory and data of an array or a record differ by what the counts take. All of this holds as well
if the sums are taken in 32 bits. -/
theorem memory_tiled {d : Dictionary} (reachable : Reachable d) {o : Object}
    (member : o ∈ d.objects) :
    (∃ first last, o.subs.head? = some first ∧ o.subs.getLast? = some last ∧
      o.sdoOffset first.subindex = 0 ∧
      o.sdoOffset last.subindex + last.sdoBits = o.sdoBits) ∧
    (∀ k sub next, o.subs[k]? = some sub → o.subs[k + 1]? = some next →
      o.sdoOffset next.subindex = o.sdoOffset sub.subindex + sub.sdoBits) ∧
    (∀ subindex, o.sub? subindex = none →
      (∃ next, o.IsNext subindex next ∧ o.sdoOffset subindex = o.sdoOffset next.subindex) ∨
        (∀ sub ∈ o.subs, sub.subindex < subindex) ∧ o.sdoOffset subindex = o.sdoBits) ∧
    (o.kind ≠ .variable →
      o.sdoBits =
        16 + o.pdoDataBits + 8 * o.payload.countP (·.basicType = BasicType.subindex0)) ∧
    (wordSum 0 (o.subs.map SubObject.sdoBits)).map UInt32.toNat = some o.sdoBits ∧
    (∀ subindex, (wordSum 0 ((o.subs.filter (·.subindex < subindex)).map SubObject.sdoBits)).map
      UInt32.toNat = some (o.sdoOffset subindex)) ∧
    (wordSum 0 ((o.subs.filter (0 < ·.subindex)).map SubObject.pdoBits)).map
      UInt32.toNat = some o.pdoDataBits := by
  obtain ⟨formed, typed⟩ := reachable.sound
  replace formed := formed.objects o member
  replace typed := typed o member
  have memoryBits : ∀ sub ∈ o.subs, sub.sdoBits ≤ 80 := fun sub inside =>
    (BasicType.sdoBits_le _ (typed sub inside)).2
  have dataBits : ∀ sub ∈ o.subs, sub.pdoBits ≤ 80 := fun sub inside =>
    (BasicType.sdoBits_le _ (typed sub inside)).1.trans (memoryBits sub inside)
  refine ⟨?_, fun _ _ _ => formed.sdoOffset_succ, fun _ => formed.sdoOffset_gap,
    formed.sdoBits_eq typed, formed.wordSum_subs memoryBits (.refl _),
    fun _ => formed.wordSum_subs memoryBits List.filter_sublist,
    formed.wordSum_subs dataBits List.filter_sublist⟩
  obtain ⟨first, rest, split⟩ := List.exists_cons_of_ne_nil formed.nonempty
  have front : o.subs[0]? = some first := by simp [split]
  obtain ⟨last, back⟩ := Option.ne_none_iff_exists'.mp
    (List.getLast?_eq_none_iff.not.mpr formed.nonempty)
  exact ⟨first, last, by simp [split], back, formed.sdoOffset_at front, formed.sdoOffset_last back⟩

/-- A record with gaps between its subindices and a second sub-object of the type of a count. -/
def memorySource : String :=
  "record read in @0x6000 { UINT level @5 = 7; SUBINDEX0 more; BOOL on @9; };"

def memoryField (column : Nat) (typeName symbol : String) (subindex default : Option Expr) :
    FieldDecl :=
  { place := ⟨1, column⟩, typeName, access := Access.empty, symbol, subindex, default,
    description := none }

def memoryStatements : List Statement := [
  .record {
    place := ⟨1, 1⟩, access := Access.read, symbol := "in", instances := [],
    index := some (.literal (.int 0x6000)), description := none, properties := [],
    fields := [
      memoryField 26 "UINT" "level" (some (.literal (.int 5))) (some (.literal (.int 7))),
      memoryField 45 "SUBINDEX0" "more" none none,
      memoryField 61 "BOOL" "on" (some (.literal (.int 9))) none] }]

theorem parse_memory : Source.parse memorySource = .ok memoryStatements := by
  cbv

/-- Offsets and sizes of the sub-objects. The subindex seven lies in a gap. -/
theorem memory_tiled_gaps :
    ∃ c o, compile .plain memorySource = .ok c ∧ o ∈ c.device.dictionary.objects ∧
      o.subs.map (fun sub => (sub.subindex, o.sdoOffset sub.subindex, sub.sdoBits)) =
        [(0, 0, 16), (5, 16, 16), (6, 32, 16), (9, 48, 1)] ∧
      o.sub? 7 = none ∧ (∃ next, o.IsNext 7 next ∧ o.sdoOffset 7 = o.sdoOffset next.subindex) ∧
      o.kind ≠ .variable ∧ o.sdoBits = 16 + o.pdoDataBits + 8 * 1 := by
  have shown : (resolve .plain memoryStatements).toOption.bind (fun c =>
      c.device.dictionary.objects.head?.map fun o =>
        (o.subs.map (fun sub => (sub.subindex, o.sdoOffset sub.subindex, sub.sdoBits)),
          (o.sub? 7).isNone, o.kind,
          o.payload.countP (·.basicType = BasicType.subindex0))) =
      some ([(0, 0, 16), (5, 16, 16), (6, 32, 16), (9, 48, 1)], true, .record, 1) := by
    decide +kernel
  obtain ⟨c, resolved, shown⟩ := Option.bind_eq_some_iff.mp shown
  obtain ⟨o, head, shown⟩ := Option.map_eq_some_iff.mp shown
  simp only [Prod.mk.injEq, Option.isNone_iff_eq_none] at shown
  obtain ⟨tiles, gap, kind, counts⟩ := shown
  have same : compile .plain memorySource = .ok c := by
    rw [compile, parse_memory]
    exact Except.eq_ok_of_toOption resolved
  have member := List.mem_of_head? head
  have many : o.kind ≠ .variable := by simp [kind]
  obtain ⟨-, -, gaps, sizes, -⟩ := memory_tiled (.start (.compiled same)) member
  have last : ∃ sub ∈ o.subs, ¬sub.subindex < 7 := by
    have listed : ((9, 48, 1) : UInt8 × Nat × Nat) ∈
        o.subs.map fun sub => (sub.subindex, o.sdoOffset sub.subindex, sub.sdoBits) := by
      simp [tiles]
    obtain ⟨sub, inside, nine⟩ := List.mem_map.mp listed
    exact ⟨sub, inside, by simp [(Prod.mk.inj nine).1]⟩
  refine ⟨c, o, same, member, tiles, gap, ?_, many, counts ▸ sizes many⟩
  obtain ⟨sub, inside, above⟩ := last
  exact (gaps 7 gap).resolve_right fun past => above (past.1 sub inside)

end Dictionary

end EcatDevice
