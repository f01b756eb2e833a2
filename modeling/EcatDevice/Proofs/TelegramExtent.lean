import EcatDevice.Proofs.MappingArrays
import EcatDevice.Proofs.Telegram

/-! # Extent of telegrams

A telegram exists unless a field has to be copied bytewise and does not fill whole bytes. It then
ends with the byte that the bit cursor of the layout reaches, so it is as short as its fields allow
just when no field has to be moved to a byte boundary. Encoding fills it, but overflow checks stop a
run that shifts a live value by its whole width, as integers of more than 128 bits do. Of a received
buffer a telegram carries the bits that belong to a field and nothing else: decoding and encoding
again keeps these and clears the gaps, whether the buffer was too short, too long or filled with
something in between.
-/

namespace EcatDevice.ProcessData

/-! ## Synthesis -/

theorem fieldOps_whole {cursor next : Nat} {field : Field} {ops : List Op}
    (made : fieldOps cursor field = .ok (ops, next)) (aligned : field.byteAligned = true)
    (several : field.bits ≠ 1) : field.bits % 8 = 0 := by
  rcases fieldOps_cases made with ⟨single, -⟩ | ⟨-, -, whole, -⟩ | ⟨-, loose, -⟩
  · exact absurd single several
  · exact whole
  · simp [loose] at aligned

theorem packFrom_whole {cursor : Nat} {fields : List Field} {packed : List PackedField}
    (made : packFrom cursor fields = .ok packed) :
    ∀ field ∈ fields, field.byteAligned = true → field.bits ≠ 1 → field.bits % 8 = 0 := by
  induction fields generalizing cursor packed with
  | nil => simp
  | cons field rest ih =>
      obtain ⟨ops, next, tail, first, others, -⟩ := packFrom_cons made
      intro f member
      rcases List.mem_cons.mp member with rfl | later
      · exact fieldOps_whole first
      · exact ih others f later

theorem pack_total (fields : List Field)
    (whole : ∀ field ∈ fields, field.byteAligned = true → field.bits ≠ 1 → field.bits % 8 = 0) :
    ∃ p, pack fields = .ok p := by
  obtain ⟨packed, made⟩ := packFrom_total 0 whole
  simp only [pack, made, bind, Except.bind]
  exact ⟨_, rfl⟩

/-- Fields have no telegram just when one of them would have to be copied in parts of bytes. -/
theorem pack_error_iff (fields : List Field) :
    (∃ e, pack fields = .error e) ↔
      ∃ field ∈ fields, field.byteAligned = true ∧ field.bits ≠ 1 ∧ field.bits % 8 ≠ 0 := by
  constructor
  · rintro ⟨e, failed⟩
    by_contra none
    obtain ⟨p, made⟩ := pack_total fields (by
      intro field member aligned several
      by_contra part
      exact none ⟨field, member, aligned, several, part⟩)
    simp [failed] at made
  · rintro ⟨field, member, aligned, several, part⟩
    cases made : pack fields with
    | error e => exact ⟨e, rfl⟩
    | ok p => exact absurd (packFrom_whole (pack_fields made) field member aligned several) part

/-! ## Length -/

/-- The amount by which a step shifts a live value. -/
def Op.shift : Op → Nat
  | .bit shift _ => shift
  | .byte shift => shift
  | _ => 0

/-- An integer with a step that shifts a live value by its whole width. The last step is the one
that shifts most: by seven bits less if it moves a whole byte, up to a byte boundary. -/
def Field.Overruns (field : Field) (start : Nat) : Prop :=
  field.byteAligned = false ∧
    liveBits + (if (start + field.bits) % 8 = 0 then 7 else 0) < field.bits

theorem liveBits_pos : 0 < liveBits := by
  decide

theorem nextBit_shift (cursor : Nat) : ∀ op ∈ (nextBit cursor).1, op.shift < liveBits := by
  unfold nextBit
  split
  · exact List.forall_mem_nil _
  · exact List.forall_mem_singleton.mpr liveBits_pos

/-- The bits of an integer from `shift` on are moved within the width of a live value just if they
lie in it, or end less than a byte behind it and with a whole byte. -/
theorem integerOps_shift (remaining shift : Nat) {cursor : Nat} (inside : cursor < 8) :
    (∀ op ∈ (integerOps remaining shift cursor).1, op.shift < liveBits) ↔
      remaining = 0 ∨ shift + remaining ≤ liveBits ∨
        ((cursor + remaining) % 8 = 0 ∧ (cursor + 7) / 8 * 8 + 8 ≤ cursor + remaining ∧
          shift + remaining ≤ liveBits + 7) := by
  induction remaining using Nat.strong_induction_on generalizing shift cursor with
  | _ remaining ih =>
      by_cases none : remaining = 0
      · subst none
        simp [integerOps_zero]
      · by_cases whole : 8 ≤ remaining ∧ cursor = 0
        · obtain ⟨whole, rfl⟩ := whole
          rw [integerOps_byte whole, List.forall_mem_cons, ih (remaining - 8) (by omega) _ inside,
            Op.shift]
          omega
        · have next : (nextBit cursor).2 = if cursor = 7 then 0 else cursor + 1 := by
            unfold nextBit
            split <;> split <;> omega
          rw [integerOps_bit none whole, List.cons_append, List.forall_mem_cons,
            List.forall_mem_append, ih (remaining - 1) (by omega) _ (nextBit_lt cursor), Op.shift,
            next, and_iff_right (nextBit_shift cursor)]
          split <;> omega

theorem fieldOps_shift {cursor next : Nat} {field : Field} {ops : List Op} (inside : cursor < 8)
    (made : fieldOps cursor field = .ok (ops, next)) (pointer : Nat) :
    (∀ op ∈ ops, op.shift < liveBits) ↔
      ¬field.Overruns (field.start (8 * pointer + cursor)) := by
  rcases fieldOps_cases made with ⟨single, rfl, -⟩ | ⟨-, aligned, -, rfl, -⟩ | ⟨-, loose, rfl, -⟩
  · refine iff_of_true (List.forall_mem_cons.mpr ⟨liveBits_pos, nextBit_shift cursor⟩) ?_
    rintro ⟨-, wide⟩
    have one := liveBits_pos
    omega
  · refine iff_of_true ?_ ?_
    · split <;> simp [Op.shift, liveBits_pos]
    · rintro ⟨loose, -⟩
      simp [loose] at aligned
  · rw [integerOps_shift field.bits 0 inside, Field.start_of_loose loose, Field.Overruns,
      and_iff_right loose, Nat.add_assoc]
    unfold liveBits liveBytes
    split <;> omega

/-- No step of a telegram shifts too far just if no integer is too wide for its place. -/
theorem packFrom_shift {cursor : Nat} {fields : List Field} {packed : List PackedField}
    (inside : cursor < 8) (made : packFrom cursor fields = .ok packed) (pointer : Nat) :
    (∀ p ∈ packed, ∀ op ∈ p.ops, op.shift < liveBits) ↔
      ∀ slot ∈ layoutFrom (8 * pointer + cursor) fields, ¬slot.2.Overruns slot.1 := by
  induction fields generalizing cursor packed pointer with
  | nil =>
      cases made
      simp [layoutFrom]
  | cons field rest ih =>
      obtain ⟨ops, next, tail, first, others, rfl⟩ := packFrom_cons made
      have closing : (∀ op ∈ (if rest.isEmpty ∧ next ≠ 0 then ops ++ [.align] else ops),
          op.shift < liveBits) ↔ ∀ op ∈ ops, op.shift < liveBits := by
        split
        · rw [List.forall_mem_append]
          exact and_iff_left (List.forall_mem_singleton.mpr liveBits_pos)
        · rfl
      rw [layoutFrom, List.forall_mem_cons, List.forall_mem_cons, closing,
        fieldOps_shift inside first pointer, ih (fieldOps_lt inside first) others _,
        (fieldOps_carries inside first pointer).reach]

theorem pack_shift {fields : List Field} {p : Packing} (made : pack fields = .ok p) :
    (∀ q ∈ p.fields, ∀ op ∈ q.ops, op.shift < liveBits) ↔
      ∀ slot ∈ layout fields, ¬slot.2.Overruns slot.1 :=
  packFrom_shift (by decide) (pack_fields made) 0

/-! ## Encoding -/

/-- A run ends with what `post` says unless overflow checks stop it, and they do so just if its
shifts are not all short. -/
inductive Overflow.Ends {α : Type} (mode : Overflow) (short : Prop) (post : α → Prop) :
    Option α → Prop where
  | stops (trap : mode = .trap) (far : ¬short) : Ends mode short post none
  | goes {result : α} (near : mode = .trap → short) (holds : post result) :
      Ends mode short post (some result)

section
variable {α β : Type} {mode : Overflow} {short others : Prop} {post : α → Prop} {after : β → Prop}

/-- Two runs after each other stop if the shifts of either one are not all short. -/
theorem Overflow.Ends.bind {run : Option α} {next : α → Option β} (first : mode.Ends short post run)
    (later : ∀ result, post result → mode.Ends others after (next result)) :
    mode.Ends (short ∧ others) after (run >>= next) := by
  cases first with
  | stops trap far => exact .stops trap fun all => far all.1
  | @goes result near holds =>
      have second := later result holds
      rw [Option.bind_eq_bind, Option.bind_some]
      generalize next result = ended at second ⊢
      cases second with
      | stops trap far => exact .stops trap fun all => far all.2
      | goes nearLater held => exact .goes (fun trap => ⟨near trap, nearLater trap⟩) held

theorem Overflow.Ends.map {run : Option α} (first : mode.Ends short post run) (f : α → β)
    (keeps : ∀ result, post result → after (f result)) :
    mode.Ends short after (do return f (← run)) := by
  cases first with
  | stops trap far => exact .stops trap far
  | goes near holds => exact .goes near (keeps _ holds)

end

theorem Overflow.shift?_ends (mode : Overflow) (amount : Nat) :
    mode.Ends (amount < liveBits) (fun _ => True) (mode.shift? amount) := by
  unfold Overflow.shift?
  split
  · next small => exact .goes (fun _ => small) trivial
  · next large =>
      cases mode with
      | trap => exact .stops rfl large
      | wrap => exact .goes nofun trivial

/-- No step changes the length of the buffer. -/
theorem Op.collect_ends (op : Op) (mode : Overflow) (value position : Nat) (buffer : Bytes) :
    mode.Ends (op.shift < liveBits) (fun after => after.length = buffer.length)
      (op.collect mode value position buffer) := by
  cases op with
  | bit shift i => exact (mode.shift?_ends shift).map _ fun _ _ => List.length_modify _ _ _
  | byte shift => exact (mode.shift?_ends shift).map _ fun _ _ => List.length_set
  | bool i => exact .goes (fun _ => liveBits_pos) (List.length_modify _ _ _)
  | bytes count => exact .goes (fun _ => liveBits_pos) (length_overwrite _ _ _)
  | advance | align => exact .goes (fun _ => liveBits_pos) rfl

theorem PackedField.collect_ends (p : PackedField) (mode : Overflow) (value : Nat)
    (state : Bytes × Nat) :
    mode.Ends (∀ op ∈ p.ops, op.shift < liveBits)
      (fun after => after.1.length = state.1.length) (p.collect mode value state) := by
  obtain ⟨field, ops⟩ := p
  unfold PackedField.collect
  induction ops generalizing state with
  | nil => exact .goes (fun _ => List.forall_mem_nil _) rfl
  | cons op rest ih =>
      simp only [List.forall_mem_cons, List.foldlM_cons] at ih ⊢
      have step : mode.Ends (op.shift < liveBits)
          (fun next : Bytes × Nat => next.1.length = state.1.length)
          (do return (← op.collect mode value state.2 state.1, state.2 + op.stride)) :=
        (op.collect_ends mode value state.2 state.1).map _ fun _ length => length
      refine step.bind fun next length => ?_
      rw [← length]
      exact ih next

theorem collectFrom_ends (packed : List PackedField) (mode : Overflow) (values : List Nat)
    (state : Bytes × Nat) :
    mode.Ends (∀ p ∈ packed, ∀ op ∈ p.ops, op.shift < liveBits)
      (fun after => after.1.length = state.1.length)
      (Packing.collectFrom mode packed values state) := by
  induction packed generalizing values state with
  | nil => exact .goes (fun _ => List.forall_mem_nil _) rfl
  | cons p rest ih =>
      rw [List.forall_mem_cons, Packing.collectFrom]
      refine (p.collect_ends mode (values.headD 0) state).bind fun next length => ?_
      rw [← length]
      exact ih values.tail next

/-- Encoding fills the telegram, unless overflow checks meet an integer that is too wide. -/
theorem collect_ends {fields : List Field} {p : Packing} (made : pack fields = .ok p)
    (mode : Overflow) (values : List Nat) :
    mode.Ends (∀ slot ∈ layout fields, ¬slot.2.Overruns slot.1)
      (fun telegram => telegram.length = p.byteLength) (p.collect mode values) := by
  rw [← pack_shift made]
  refine (collectFrom_ends p.fields mode values _).map Prod.fst fun _ length => ?_
  rw [length, List.length_replicate]

section
variable {fields : List Field} {p : Packing}

theorem Covers.inside {i n : Nat} (covers : Covers fields i n) (made : pack fields = .ok p) :
    n < 8 * p.byteLength := by
  obtain ⟨start, field, slot, -, upper⟩ := covers
  exact slot_inside made slot upper

/-- A bit of a field goes out of the buffer and back to its place. -/
theorem bit_telegram_read (made : pack fields = .ok p) (narrow : ∀ f ∈ fields, f.bits ≤ 128)
    {i n : Nat} (covers : Covers fields i n) (buffer : Bytes) :
    Bytes.bit (p.telegram ((layout fields).map fun slot =>
      Bytes.read buffer slot.1 slot.2.bits)) n = Bytes.bit buffer n := by
  obtain ⟨start, field, slot, lower, upper⟩ := covers
  have inside : n - start < field.bits := by omega
  rw [telegram_field made narrow _ slot lower upper, List.getD_eq_getElem?_getD,
    List.getElem?_map, slot, Option.map_some, Option.getD_some, Bytes.testBit_read, if_pos inside,
    Nat.add_sub_cancel' lower]

/-- Encoding undoes decoding on the bits of the fields and clears all others, for every buffer. -/
theorem collect_scatter (made : pack fields = .ok p) (narrow : ∀ f ∈ fields, f.bits ≤ 128)
    (mode : Overflow) (buffer : Bytes) :
    ∃ live telegram, p.scatter mode buffer = some live ∧ p.collect mode live = some telegram ∧
      telegram.length = p.byteLength ∧
      (∀ i n, Covers fields i n → n < 8 * p.byteLength ∧
        Bytes.bit telegram n = Bytes.bit buffer n) ∧
      (∀ n, (∀ i, ¬Covers fields i n) → Bytes.bit telegram n = false) := by
  refine ⟨_, _, scatter_layout made narrow mode buffer, collect_eq made narrow mode _,
    telegram_length p _, ?_, ?_⟩
  · intro i n covers
    exact ⟨covers.inside made, bit_telegram_read made narrow covers buffer⟩
  · intro n free
    exact telegram_gap made narrow _ free

end

/-- A buffer that lacks the text, with a gap full of ones. -/
theorem collect_scatter_short :
    pack sampleFields = .ok samplePacking ∧ (∀ f ∈ sampleFields, f.bits ≤ 128) ∧
    ∃ live telegram, samplePacking.scatter .trap [0xff, 0xff, 0xff] = some live ∧
      samplePacking.collect .trap live = some telegram ∧ telegram.length = 5 ∧
      Bytes.bit telegram 18 = true ∧ Bytes.bit telegram 20 = false ∧
      Bytes.bit telegram 24 = false := by
  have level : Covers sampleFields 1 18 :=
    ⟨1, ⟨"level", 18, false⟩, by decide, by decide, by decide⟩
  have name : Covers sampleFields 2 24 :=
    ⟨24, ⟨"name", 16, true⟩, by decide, by decide, by decide⟩
  obtain ⟨live, telegram, scattered, collected, length, covered, gaps⟩ :=
    collect_scatter pack_sample sample_narrow .trap [0xff, 0xff, 0xff]
  exact ⟨pack_sample, sample_narrow, live, telegram, scattered, collected, length,
    (covered 1 18 level).2.trans (by decide), gaps 20 sample_gap,
    (covered 2 24 name).2.trans (by decide)⟩

end EcatDevice.ProcessData
