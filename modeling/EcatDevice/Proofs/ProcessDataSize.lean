import EcatDevice.Proofs.Layout
import EcatDevice.Proofs.MappingAgreement
import EcatDevice.Proofs.SettingsStages
import Mathlib

/-! # Sizes of process data

The derived size of the process data of a direction is the number of bytes that all mapped bits
would fill without gaps. The telegrams themselves have gaps: before fields that start on a byte
boundary, and behind the last field of each telegram. The size therefore falls short of the
telegrams by one byte for each eight bits of gaps, and covers them if the program declares the
padding itself.
-/

namespace EcatDevice

theorem totalOf_le {α : Type} {measure : α → Nat} {bound : Nat} {items : List α}
    (each : ∀ a ∈ items, measure a ≤ bound) : totalOf measure items ≤ bound * items.length := by
  induction items with
  | nil => exact Nat.zero_le _
  | cons a rest ih =>
      obtain ⟨here, later⟩ := List.forall_mem_cons.mp each
      have others := ih later
      rw [totalOf, List.length_cons, Nat.mul_succ]
      omega

theorem totalOf_flatten {α : Type} (measure : α → Nat) (parts : List (List α)) :
    totalOf measure parts.flatten = totalOf (totalOf measure) parts := by
  induction parts with
  | nil => rfl
  | cons part rest ih => rw [List.flatten_cons, totalOf_append, ih, totalOf]

/-! ## Gaps -/

namespace ProcessData

/-- Bits that belong to no field, from the bit `cursor` to the byte boundary behind the last
field. -/
def gapsFrom : Nat → List Field → Nat
  | cursor, [] => (cursor + 7) / 8 * 8 - cursor
  | cursor, field :: rest =>
    (field.start cursor - cursor) + gapsFrom (field.start cursor + field.bits) rest

/-- Bits of a telegram that belong to no field. -/
def Packing.padding (p : Packing) : Nat :=
  gapsFrom 0 (p.fields.map PackedField.field)

theorem gapsFrom_add (cursor : Nat) (fields : List Field) :
    cursor + totalOf Field.bits fields + gapsFrom cursor fields =
      8 * ((endFrom cursor fields + 7) / 8) := by
  induction fields generalizing cursor with
  | nil =>
      simp only [totalOf, gapsFrom, endFrom]
      omega
  | cons field rest ih =>
      have forward := field.le_start cursor
      have others := ih (field.start cursor + field.bits)
      simp only [totalOf, gapsFrom, endFrom]
      omega

theorem Laid.fields {cursor pointer : Nat} {fields : List Field} {packed : List PackedField}
    (laid : Laid cursor pointer fields packed) : packed.map PackedField.field = fields := by
  induction laid with
  | nil => rfl
  | cons _ _ _ ih => rw [List.map_cons, ih]

theorem pack_padding {fields : List Field} {p : Packing} (made : pack fields = .ok p) :
    totalOf Field.bits fields + p.padding = 8 * p.byteLength := by
  have whole := gapsFrom_add 0 fields
  rw [pack_byteLength made, Packing.padding, (pack_laid made).fields, ← whole, Nat.zero_add]

theorem fieldOf_bits {d : Dictionary} {sub : SubObject} {field : Field}
    (made : fieldOf d sub = .ok field) : field.bits = sub.pdoBits := by
  unfold fieldOf at made
  split at made
  · cases made
  · cases made
    rfl

theorem mapM_fieldOf_bits {d : Dictionary} {entries : List SubObject} {fields : List Field}
    (made : entries.mapM (fieldOf d) = .ok fields) :
    totalOf Field.bits fields = totalOf SubObject.pdoBits entries := by
  have each := mapM_forall₂ made
  clear made
  induction each with
  | nil => rfl
  | cons here _ ih => rw [totalOf, totalOf, fieldOf_bits here, ih]

/-- The bits of a telegram are those of its entries and the gaps. -/
theorem packMap_padding {d : Dictionary} {map : Object} {entries : List SubObject} {p : Packing}
    (read : d.mapEntries map = .ok entries) (made : packMap d map = .ok p) :
    totalOf SubObject.pdoBits entries + p.padding = 8 * p.byteLength := by
  obtain ⟨fields, given, made⟩ := Except.bind_eq_ok made
  obtain ⟨_, same, given⟩ := Except.bind_eq_ok given
  cases read.symm.trans same
  rw [← mapM_fieldOf_bits given, pack_padding made]

theorem packMaps_padding {d : Dictionary} {maps : List Object} {parts : List (List SubObject)}
    {packings : List Packing} (read : maps.mapM d.mapEntries = .ok parts)
    (packed : maps.mapM (packMap d) = .ok packings) :
    totalOf SubObject.pdoBits parts.flatten + totalOf Packing.padding packings =
      8 * totalOf Packing.byteLength packings := by
  induction maps generalizing parts packings with
  | nil =>
      cases read
      cases packed
      rfl
  | cons map rest ih =>
      rw [List.mapM_cons] at read packed
      obtain ⟨entries, first, read⟩ := Except.bind_eq_ok read
      obtain ⟨others, later, read⟩ := Except.bind_eq_ok read
      cases read
      obtain ⟨p, one, packed⟩ := Except.bind_eq_ok packed
      obtain ⟨more, rest, packed⟩ := Except.bind_eq_ok packed
      cases packed
      have here := packMap_padding first one
      have behind := ih later rest
      simp only [List.flatten_cons, totalOf_append, totalOf]
      omega

end ProcessData

/-! ## Bounds -/

theorem length_le_of_distinct {α : Type} {key : α → Nat} {bound : Nat} {items : List α}
    (distinct : (items.map key).Nodup) (small : ∀ a ∈ items, key a < bound) :
    items.length ≤ bound := by
  have inside : items.map key ⊆ List.range bound := by
    intro n member
    obtain ⟨a, present, rfl⟩ := List.mem_map.mp member
    exact List.mem_range.mpr (small a present)
  have shorter := (distinct.subperm inside).length_le
  rwa [List.length_map, List.length_range] at shorter

theorem Object.WellFormed.length_le {o : Object} (formed : o.WellFormed) : o.subs.length ≤ 256 := by
  have distinct : (o.subs.map fun sub => sub.subindex.toNat).Nodup := by
    refine List.pairwise_map.mpr (formed.ascending.imp ?_)
    intro left right before
    exact Nat.ne_of_lt (UInt8.lt_iff_toNat_lt.mp before)
  exact length_le_of_distinct distinct fun sub _ => sub.subindex.toNat_lt

namespace Dictionary

theorem WellFormed.length_le {d : Dictionary} (formed : d.WellFormed) :
    d.objects.length ≤ 65536 := by
  have distinct := formed.distinct.map fun _ _ same => UInt16.toNat_inj.mp same
  rw [List.map_map] at distinct
  exact length_le_of_distinct distinct fun o _ => o.index.toNat_lt

theorem length_entriesFrom {d : Dictionary} {map : Object} {entries found : List SubObject}
    (read : d.entriesFrom map entries = .ok found) : found.length ≤ entries.length := by
  induction entries generalizing found with
  | nil =>
      cases read
      exact Nat.le_refl 0
  | cons entry rest ih =>
      rw [entriesFrom] at read
      obtain ⟨reference, -, read⟩ := Except.bind_eq_ok read
      split at read
      · exact Nat.le_succ_of_le (ih read)
      · split at read
        · obtain ⟨others, later, read⟩ := Except.bind_eq_ok read
          cases read
          exact Nat.succ_le_succ (ih later)
        · cases read

/-- The mapped bits of all objects together fit a machine word by far. -/
theorem mapped_bits_lt {d : Dictionary} (formed : d.WellFormed)
    (typed : ∀ o ∈ d.objects, o.Typed) {direction : Direction} {subs : List SubObject}
    (mapped : d.mapped direction = .ok subs) : totalOf SubObject.pdoBits subs < 2 ^ 32 := by
  obtain ⟨parts, each, mapped⟩ := Except.bind_eq_ok mapped
  cases mapped
  have widths : ∀ part ∈ parts, totalOf SubObject.pdoBits part ≤ 255 * 256 := by
    intro part member
    obtain ⟨map, listed, read⟩ := mapM_mem each member
    have narrow : ∀ sub ∈ part, sub.pdoBits ≤ 255 := by
      intro sub inside
      obtain ⟨reference, -, -, found⟩ := (mem_mapEntries read).mp inside
      obtain ⟨o, object, place⟩ := Option.bind_eq_some_iff.mp found
      have type := typed o (mem_of_get? object).1 sub (Object.mem_of_sub? place).1
      exact Nat.le_of_lt_succ (BasicType.widths sub.basicType type).2.1
    have few : part.length ≤ 256 := by
      have entries := length_entriesFrom read
      have whole := (formed.objects map (List.mem_of_mem_filter listed)).length_le
      have payload : map.payload.length ≤ map.subs.length := by
        unfold Object.payload
        split <;> simp
      omega
    exact (totalOf_le narrow).trans (Nat.mul_le_mul_left 255 few)
  have count : parts.length ≤ 65536 := by
    have same := (mapM_forall₂ each).length_eq
    have fewer := List.length_filter_le
      (fun object : Object => object.direction? == some direction) d.objects
    have all := formed.length_le
    omega
  have total := totalOf_le widths
  rw [totalOf_flatten]
  omega

end Dictionary

/-! ## Derivation -/

/-- The setting that holds the size of the process data. -/
def Direction.sizeKey : Direction → String
  | .receive => "MAX_PD_OUTPUT_SIZE"
  | .transmit => "MAX_PD_INPUT_SIZE"

namespace Settings

theorem processDataStage_get? {d : Dictionary} {s t : Settings}
    (made : processDataStage d s = .ok t) {direction : Direction}
    (unset : s.get? direction.sizeKey = none) :
    ∃ size, processDataBytes d direction = .ok size ∧
      t.get? direction.sizeKey = some (.int size) := by
  obtain ⟨received, receives, made⟩ := Except.bind_eq_ok made
  obtain ⟨transmitted, transmits, made⟩ := Except.bind_eq_ok made
  cases made
  rw [get?_propose, unset]
  cases direction with
  | receive => exact ⟨received, receives, rfl⟩
  | transmit => exact ⟨transmitted, transmits, rfl⟩

/-- The stages before that of the process data leave its sizes as they are. -/
theorem early_keep_sizeKey (direction : Direction) :
    ∀ stage ∈ [fallbackStage, sizeStage, portStage, protocolStage, detailStage, mailboxStage,
      lengthStage], ∀ s t, stage s = .ok t →
        t.get? direction.sizeKey = s.get? direction.sizeKey := by
  have apart : ∀ {stage : Stage} {keys : List String}, stage.Changes keys →
      direction.sizeKey ∉ keys → ∀ s t, stage s = .ok t →
        t.get? direction.sizeKey = s.get? direction.sizeKey :=
    fun changes absent s t made => changes s t made _ absent
  simp only [List.forall_mem_cons]
  refine ⟨apart fallbackStage_changes ?_, apart sizeStage_changes ?_, apart portStage_changes ?_,
    apart protocolStage_changes ?_, apart detailStage_changes ?_, apart mailboxStage_changes ?_,
    apart lengthStage_changes ?_, List.forall_mem_nil _⟩ <;>
    cases direction <;> decide +kernel

/-- The derived size of process data that has none given. -/
theorem derived_sizeKey {d : Dictionary} {s t : Settings} {direction : Direction}
    (made : derived d s = .ok t) (unset : s.get? direction.sizeKey = none) :
    ∃ size, processDataBytes d direction = .ok size ∧
      t.get? direction.sizeKey = some (.int size) := by
  have row : stages d = [fallbackStage, sizeStage, portStage, protocolStage, detailStage,
      mailboxStage, lengthStage] ++ [processDataStage d, interruptStage] := rfl
  have run := derived_ok.mp made
  rw [row, List.foldlM_append] at run
  obtain ⟨before, front, run⟩ := Except.bind_eq_ok run
  rw [List.foldlM_cons] at run
  obtain ⟨sized, stage, run⟩ := Except.bind_eq_ok run
  rw [List.foldlM_cons] at run
  obtain ⟨last, behind, run⟩ := Except.bind_eq_ok run
  cases run
  have absent : before.get? direction.sizeKey = none := by
    refine foldlM_keeps (P := fun s => s.get? direction.sizeKey = none) ?_ unset front
    intro s stage next member none stepped
    exact (early_keep_sizeKey direction stage member s next stepped).trans none
  obtain ⟨size, bytes, given⟩ := processDataStage_get? stage absent
  refine ⟨size, bytes, ?_⟩
  rw [interruptStage_changes sized t behind _ (by cases direction <;> decide), given]

end Settings

open ProcessData (Packing packMap)

/-- The mapping objects of a direction. -/
def Dictionary.mapsOf (d : Dictionary) (direction : Direction) : List Object :=
  d.objects.filter fun object => object.direction? == some direction

/-- The derived size falls short of the telegrams by the whole bytes of their gaps. -/
theorem derived_process_data_size {engine : Regex.Engine} {source : String} {c : Compiled}
    (made : compile engine source = .ok c) {direction : Direction}
    (unset : c.device.settings.get? direction.sizeKey = none) {s : Settings}
    (derived : Settings.derived c.device.dictionary c.device.settings = .ok s)
    {packings : List Packing}
    (packed : (c.device.dictionary.mapsOf direction).mapM (packMap c.device.dictionary) =
      .ok packings) :
    ∃ size : Int64, s.get? direction.sizeKey = some (.int size) ∧
      size.toInt + (totalOf Packing.padding packings / 8 : Nat) =
        totalOf Packing.byteLength packings ∧
      (totalOf Packing.byteLength packings ≤ size.toInt ↔
        totalOf Packing.padding packings < 8) := by
  obtain ⟨statements, -, made⟩ := Except.bind_eq_ok made
  obtain ⟨r, steps, made⟩ := Except.bind_eq_ok made
  cases made
  obtain ⟨size, bytes, given⟩ := Settings.derived_sizeKey derived unset
  obtain ⟨subs, mapped, bytes⟩ := Except.bind_eq_ok bytes
  cases bytes
  have small := Dictionary.mapped_bits_lt (Resolution.steps_wellFormed steps)
    (Resolution.steps_typed steps) mapped
  obtain ⟨parts, read, mapped⟩ := Except.bind_eq_ok mapped
  cases mapped
  have whole := ProcessData.packMaps_padding read packed
  refine ⟨_, given, ?_⟩
  rw [Int64.toInt_ofNat_of_lt (by omega)]
  omega

/-- Two receive mappings of one bit each. -/
def switchesSource : String :=
  "BOOL a @0x2000; BOOL b; UDINT m[] @0x1600 = { &a }; UDINT n[] = { &b };"

def switchVariable (column : Nat) (symbol : String) (index : Option Expr) : Statement :=
  .variable
    { place := ⟨1, column⟩, typeName := "BOOL", access := Access.empty, symbol, index,
      default := none, description := none, properties := [] }

def switchMapping (column : Nat) (symbol : String) (index : Option Expr) (mapped : String) :
    Statement :=
  .array
    { place := ⟨1, column⟩, typeName := "UDINT", access := Access.empty, symbol, size := none,
      index, description := none, properties := [], values := [.symbol .reference mapped] }

def switchesStatements : List Statement :=
  [switchVariable 1 "a" (some (.literal (.int 0x2000))), switchVariable 17 "b" none,
   switchMapping 25 "m" (some (.literal (.int 0x1600))) "a", switchMapping 53 "n" none "b"]

theorem parse_switches : Source.parse switchesSource = .ok switchesStatements := by
  cbv

theorem switches_sizes :
    ∃ c s packings, compile .plain switchesSource = .ok c ∧
      c.device.settings.get? "MAX_PD_OUTPUT_SIZE" = none ∧
      c.device.settings.get? "MAX_PD_INPUT_SIZE" = none ∧
      Settings.derived c.device.dictionary c.device.settings = .ok s ∧
      s.get? "MAX_PD_OUTPUT_SIZE" = some (.int 1) ∧
      (c.device.dictionary.mapsOf .receive).mapM (packMap c.device.dictionary) = .ok packings ∧
      (c.device.dictionary.mapsOf .transmit).mapM (packMap c.device.dictionary) = .ok [] ∧
      totalOf Packing.byteLength packings = 2 ∧ totalOf Packing.padding packings = 14 := by
  have unset : (resolve .plain switchesStatements).toOption.map (fun c =>
      (c.device.settings.get? "MAX_PD_OUTPUT_SIZE", c.device.settings.get? "MAX_PD_INPUT_SIZE")) =
      some (none, none) := by
    decide +kernel
  have derives : (resolve .plain switchesStatements).toOption.map (fun c =>
      (Settings.derived c.device.dictionary c.device.settings).toOption.map
        (·.get? "MAX_PD_OUTPUT_SIZE")) = some (some (some (.int 1))) := by
    decide +kernel
  have packs : (resolve .plain switchesStatements).toOption.map (fun c =>
      ((c.device.dictionary.mapsOf .receive).mapM (packMap c.device.dictionary)).toOption.map
        (fun packings =>
          (totalOf Packing.byteLength packings, totalOf Packing.padding packings))) =
      some (some (2, 14)) := by
    decide +kernel
  have others : (resolve .plain switchesStatements).toOption.map (fun c =>
      ((c.device.dictionary.mapsOf .transmit).mapM (packMap c.device.dictionary)).toOption) =
      some (some []) := by
    decide +kernel
  obtain ⟨c, made, unset⟩ := Option.map_eq_some_iff.mp unset
  simp only [made, Option.map_some, Option.some.injEq] at derives packs others
  obtain ⟨unsetOutput, unsetInput⟩ := Prod.mk.inj unset
  obtain ⟨s, derived, size⟩ := Option.map_eq_some_iff.mp derives
  obtain ⟨packings, packed, sizes⟩ := Option.map_eq_some_iff.mp packs
  obtain ⟨bytes, gaps⟩ := Prod.mk.inj sizes
  have same : compile .plain switchesSource = .ok c := by
    rw [compile, parse_switches]
    exact Except.eq_ok_of_toOption made
  exact ⟨c, s, packings, same, unsetOutput, unsetInput, Except.eq_ok_of_toOption derived, size,
    Except.eq_ok_of_toOption packed, Except.eq_ok_of_toOption others, bytes, gaps⟩

theorem derived_process_data_size_switches :
    ∃ c s packings, ∃ size : Int64, compile .plain switchesSource = .ok c ∧
      c.device.settings.get? "MAX_PD_OUTPUT_SIZE" = none ∧
      Settings.derived c.device.dictionary c.device.settings = .ok s ∧
      (c.device.dictionary.mapsOf .receive).mapM (packMap c.device.dictionary) = .ok packings ∧
      s.get? "MAX_PD_OUTPUT_SIZE" = some (.int size) ∧
      size.toInt + 1 = totalOf Packing.byteLength packings := by
  obtain ⟨c, s, packings, made, unset, -, derived, -, packed, -, -, gaps⟩ := switches_sizes
  have sizeUnset : c.device.settings.get? Direction.receive.sizeKey = none := unset
  obtain ⟨size, given, short, -⟩ := derived_process_data_size made sizeUnset derived packed
  rw [gaps] at short
  exact ⟨c, s, packings, size, made, unset, derived, packed, given, short⟩

/-- The derived sizes do not cover the telegrams of every program. -/
theorem derived_size_short :
    ¬ ∀ (source : String) (c : Compiled) (s : Settings) (direction : Direction)
      (packings : List Packing), compile .plain source = .ok c →
      c.device.settings.get? "MAX_PD_OUTPUT_SIZE" = none →
      c.device.settings.get? "MAX_PD_INPUT_SIZE" = none →
      Settings.derived c.device.dictionary c.device.settings = .ok s →
      (∀ other, ∃ all, (c.device.dictionary.mapsOf other).mapM (packMap c.device.dictionary) =
        .ok all) →
      (c.device.dictionary.mapsOf direction).mapM (packMap c.device.dictionary) = .ok packings →
      ∃ size : Int64, s.get? direction.sizeKey = some (.int size) ∧
        totalOf Packing.byteLength packings ≤ size.toInt := by
  intro covers
  obtain ⟨c, s, packings, made, unset, unsetInput, derived, short, packed, others, bytes, -⟩ :=
    switches_sizes
  have all : ∀ other, ∃ all, (c.device.dictionary.mapsOf other).mapM
      (packMap c.device.dictionary) = .ok all := by
    intro other
    cases other with
    | receive => exact ⟨packings, packed⟩
    | transmit => exact ⟨[], others⟩
  obtain ⟨size, given, enough⟩ :=
    covers switchesSource c s .receive packings made unset unsetInput derived all packed
  cases short.symm.trans given
  rw [bytes] at enough
  exact absurd enough (by decide)

end EcatDevice
