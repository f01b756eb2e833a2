import EcatDevice.Proofs.ProcessDataSize

/-! # The derivation repeated

Every stage of the derivation keeps what is there: a key that has a value keeps it, and the two keys
that collect bits lose none. A stage that has run has nothing left to do: wherever all of its keys
are there and the bits it adds are set, it gives back the settings it was given. Both properties
pass from the stages to the derivation, so that a second one changes nothing.
-/

namespace EcatDevice.Settings

/-- The keys whose integers gain bits. -/
def bitKeys : List String :=
  ["mbx_protocol", "coe_details"]

/-- What the value of a key may become: it stays, or it gains bits. -/
inductive Becomes (key : String) : Value → Value → Prop where
  | same (value : Value) : Becomes key value value
  | more (old bits : Int64) : key ∈ bitKeys → Becomes key (.int old) (.int (old ||| bits))

/-- All keys are still there with what their values became. -/
def Inflates (s t : Settings) : Prop :=
  ∀ key value, s.get? key = some value → ∃ next, t.get? key = some next ∧ Becomes key value next

theorem Becomes.trans {key : String} {first second third : Value}
    (before : Becomes key first second) (behind : Becomes key second third) :
    Becomes key first third := by
  cases before with
  | same => exact behind
  | more old bits listed =>
      cases behind with
      | same => exact .more old bits listed
      | more _ others =>
          rw [Int64.or_assoc]
          exact .more old (bits ||| others) listed

theorem Becomes.eq {key : String} {value next : Value} (becomes : Becomes key value next)
    (plain : key ∉ bitKeys) : next = value := by
  cases becomes with
  | same => rfl
  | more old bits listed => exact absurd listed plain

theorem Becomes.int {key : String} {n : Int64} {next : Value}
    (becomes : Becomes key (.int n) next) : ∃ bits, next = .int (n ||| bits) := by
  cases becomes with
  | same => exact ⟨0, by rw [Int64.or_zero]⟩
  | more _ bits => exact ⟨bits, rfl⟩

namespace Inflates

variable {s middle t : Settings}

theorem refl (s : Settings) : Inflates s s :=
  fun _ value found => ⟨value, found, .same value⟩

theorem trans (first : Inflates s middle) (second : Inflates middle t) : Inflates s t := by
  intro key value found
  obtain ⟨next, foundNext, before⟩ := first key value found
  obtain ⟨last, foundLast, behind⟩ := second key next foundNext
  exact ⟨last, foundLast, before.trans behind⟩

theorem ne_none (grown : Inflates s t) {key : String} (present : s.get? key ≠ none) :
    t.get? key ≠ none := by
  obtain ⟨value, found⟩ := Option.ne_none_iff_exists'.mp present
  obtain ⟨next, foundNext, -⟩ := grown key value found
  simp [foundNext]

theorem get? (grown : Inflates s t) {key : String} (plain : key ∉ bitKeys)
    (present : s.get? key ≠ none) : t.get? key = s.get? key := by
  obtain ⟨value, found⟩ := Option.ne_none_iff_exists'.mp present
  obtain ⟨next, foundNext, becomes⟩ := grown key value found
  rw [foundNext, found, becomes.eq plain]

theorem int (grown : Inflates s t) {key : String} (plain : key ∉ bitKeys) {n : Int64}
    (given : s.int key = .ok n) : t.int key = .ok n := by
  have present : s.get? key ≠ none := by
    intro missing
    simp [Settings.int, missing] at given
  rw [← given]
  simp only [Settings.int, grown.get? plain present]

end Inflates

/-! ## Proposals -/

theorem inflates_propose (s : Settings) (entries : List (String × Value)) :
    Inflates s (s.propose entries) := by
  intro key value found
  refine ⟨value, ?_, .same value⟩
  rw [get?_propose, found, Option.some_or]

theorem propose_ne_none {s : Settings} {entries : List (String × Value)} {key : String}
    (listed : key ∈ entries.map Prod.fst) : (s.propose entries).get? key ≠ none := by
  obtain ⟨entry, member, rfl⟩ := List.mem_map.mp listed
  rw [get?_propose, Ne, Option.or_eq_none_iff, List.lookup_eq_none_iff]
  intro absent
  simpa using absent.2 entry member

theorem propose_of_present {t : Settings} {entries : List (String × Value)}
    (present : ∀ key ∈ entries.map Prod.fst, t.get? key ≠ none) : t.propose entries = t := by
  apply ext_get?
  intro key
  by_cases listed : key ∈ entries.map Prod.fst
  · obtain ⟨value, found⟩ := Option.ne_none_iff_exists'.mp (present key listed)
    rw [get?_propose, found, Option.some_or]
  · exact get?_propose_absent listed t

/-- Keys that were proposed once are there, whatever is proposed for them again. -/
theorem Inflates.propose {s t : Settings} {entries : List (String × Value)}
    (grown : Inflates (s.propose entries) t) {others : List (String × Value)}
    (keys : others.map Prod.fst = entries.map Prod.fst) : t.propose others = t := by
  apply propose_of_present
  rw [keys]
  intro key listed
  exact grown.ne_none (propose_ne_none listed)

/-! ## Bits -/

theorem gather_eq (s : Settings) (switches : List (String × Int64)) (bits : Int64) :
    s.gather switches bits = bits ||| s.gather switches 0 := by
  induction switches generalizing bits with
  | nil => exact Int64.or_zero.symm
  | cons switch rest ih =>
      have step : ∀ bits, s.gather (switch :: rest) bits =
          s.gather rest (if s.flag switch.1 then bits ||| switch.2 else bits) := fun _ => rfl
      rw [step, step, ih]
      split
      · rw [ih (0 ||| switch.2), Int64.zero_or, Int64.or_assoc]
      · rfl

theorem gather_congr {s t : Settings} {switches : List (String × Int64)}
    (same : ∀ switch ∈ switches, t.flag switch.1 = s.flag switch.1) (bits : Int64) :
    t.gather switches bits = s.gather switches bits := by
  induction switches generalizing bits with
  | nil => rfl
  | cons switch rest ih =>
      obtain ⟨here, later⟩ := List.forall_mem_cons.mp same
      simp only [gather, List.foldl_cons, here] at ih ⊢
      exact ih later _

theorem insert_self {t : Settings} {key : String} {value : Value}
    (found : t.get? key = some value) : t.insert key value = t := by
  apply ext_get?
  intro other
  rw [get?_insert]
  split
  · next same => rw [← same, found]
  · rfl

/-- Settings behind a stage that adds the bits of switches to a key. -/
def gathered (s : Settings) (key : String) (switches : List (String × Int64)) (old : Int64)
    (entries : List (String × Value)) : Settings :=
  (s.insert key (.int (s.gather switches old))).propose entries

section
variable {s t : Settings} {key : String} {switches : List (String × Int64)} {old : Int64}
  {entries : List (String × Value)} (listed : key ∈ bitKeys)

include listed in
theorem inflates_gathered (given : s.intOr key 0 = .ok old) :
    Inflates s (s.gathered key switches old entries) := by
  refine Inflates.trans ?_ (inflates_propose _ entries)
  intro other value found
  rw [get?_insert]
  split
  · next same =>
      subst same
      refine ⟨_, rfl, ?_⟩
      rcases intOr_ok.mp given with here | ⟨missing, -⟩
      · cases found.symm.trans here
        rw [gather_eq]
        exact .more old _ listed
      · simp [missing] at found
  · exact ⟨value, found, .same value⟩

/-- The bits that a stage has added are still there, so that it adds none again. -/
theorem Inflates.gathered (grown : Inflates (s.gathered key switches old entries) t)
    (same : ∀ switch ∈ switches, t.flag switch.1 = s.flag switch.1) :
    ∃ new, t.intOr key 0 = .ok new ∧ t.insert key (.int (t.gather switches new)) = t := by
  have start : Inflates (s.insert key (.int (s.gather switches old))) t :=
    (inflates_propose _ entries).trans grown
  obtain ⟨next, found, becomes⟩ := start key (.int (s.gather switches old)) (by simp [get?_insert])
  obtain ⟨bits, rfl⟩ := becomes.int
  refine ⟨_, intOr_ok.mpr (Or.inl found), ?_⟩
  -- The switches are what they were, so their bits are among those that the key has by now.
  have absorbed : t.gather switches (s.gather switches old ||| bits) =
      s.gather switches old ||| bits := by
    rw [gather_congr same, gather_eq, gather_eq s switches old, Int64.or_assoc old, Int64.or_assoc,
      Int64.or_assoc, Int64.or_comm bits, ← Int64.or_assoc (s.gather switches 0), Int64.or_self]
  rw [absorbed, insert_self found]

theorem gathered_int : ∃ n, (s.gathered key switches old entries).get? key = some (.int n) := by
  obtain ⟨next, found, becomes⟩ := inflates_propose (s.insert key (.int (s.gather switches old)))
    entries key (.int (s.gather switches old)) (by simp [get?_insert])
  obtain ⟨bits, rfl⟩ := becomes.int
  exact ⟨_, found⟩

end

/-! ## Stages -/

/-- All fallbacks are filled in. -/
def Filled (s : Settings) : Prop :=
  ∀ key ∈ fallbacks.map Prod.fst, s.get? key ≠ none

theorem fallbacks_plain : ∀ key ∈ fallbacks.map Prod.fst, key ∉ bitKeys := by
  have unlisted : ∀ key ∈ bitKeys, key ∉ fallbacks.map Prod.fst := by
    simp [bitKeys, fallbacks, integerFallbacks, textFallbacks]
  exact fun key listed gathers => unlisted key gathers listed

theorem Filled.grown {s t : Settings} (filled : s.Filled) (grown : Inflates s t) : t.Filled :=
  fun key listed => grown.ne_none (filled key listed)

theorem Filled.get? {s t : Settings} (filled : s.Filled) (grown : Inflates s t) {key : String}
    (listed : key ∈ fallbacks.map Prod.fst) : t.get? key = s.get? key :=
  grown.get? (fallbacks_plain key listed) (filled key listed)

/-- A stage keeps what is there, and behind the fallbacks it has nothing to do once it has run. -/
structure Stage.Stable (stage : Stage) : Prop where
  inflates : ∀ {s next : Settings}, stage s = .ok next → Inflates s next
  settles : ∀ {s next t : Settings}, s.Filled → stage s = .ok next → Inflates next t →
    stage t = .ok t

/-- Stages that only propose values for their keys need no more than to succeed again. -/
theorem Stage.stable_of_proposes {stage : Stage} (keys : List String)
    (proposes : ∀ {s next : Settings}, stage s = .ok next →
      ∃ entries, entries.map Prod.fst = keys ∧ next = s.propose entries)
    (again : ∀ {s next t : Settings}, s.Filled → stage s = .ok next → Inflates s t →
      ∃ last, stage t = .ok last) : stage.Stable where
  inflates made := by
    obtain ⟨entries, -, rfl⟩ := proposes made
    exact inflates_propose _ entries
  settles {s next t} filled made grown := by
    obtain ⟨entries, listed, rfl⟩ := proposes made
    obtain ⟨last, repeated⟩ := again filled made ((inflates_propose s entries).trans grown)
    obtain ⟨others, same, rfl⟩ := proposes repeated
    rw [repeated, grown.propose (same.trans listed.symm)]

theorem sizeStage_stable : Stage.Stable sizeStage := by
  apply Stage.stable_of_proposes ["sii.size"]
  · intro s next made
    obtain ⟨bytes, -, made⟩ := Except.bind_eq_ok made
    cases made
    exact ⟨_, rfl, rfl⟩
  · intro s next t _ made grown
    obtain ⟨bytes, given, -⟩ := Except.bind_eq_ok made
    simp only [sizeStage, grown.int (by decide) given]
    exact ⟨_, rfl⟩

theorem portStage_stable : Stage.Stable portStage := by
  apply Stage.stable_of_proposes ["sii.phys_port"]
  · intro s next made
    obtain ⟨word, -, made⟩ := Except.bind_eq_ok made
    cases made
    exact ⟨_, rfl, rfl⟩
  · intro s next t filled made grown
    obtain ⟨word, given, -⟩ := Except.bind_eq_ok made
    have listed : "physics" ∈ fallbacks.map Prod.fst := by simp [fallbacks, textFallbacks]
    have physics : t.str? "physics" = s.str? "physics" := by
      rw [str?, filled.get? grown listed, str?]
    simp only [portStage, physics, given]
    exact ⟨_, rfl⟩

theorem mailboxStage_stable : Stage.Stable mailboxStage := by
  apply Stage.stable_of_proposes ((mailbox "bs" 0 0 ++ mailbox "std" 0 0).map Prod.fst)
  · intro s next made
    obtain ⟨writeAddress, -, made⟩ := Except.bind_eq_ok made
    obtain ⟨readAddress, -, made⟩ := Except.bind_eq_ok made
    cases made
    exact ⟨mailbox "bs" writeAddress readAddress ++ mailbox "std" writeAddress readAddress,
      rfl, rfl⟩
  · intro s next t _ made grown
    obtain ⟨writeAddress, writes, made⟩ := Except.bind_eq_ok made
    obtain ⟨readAddress, reads, -⟩ := Except.bind_eq_ok made
    simp only [mailboxStage, grown.int (by decide) writes, grown.int (by decide) reads]
    exact ⟨_, rfl⟩

theorem lengthStage_stable : Stage.Stable lengthStage := by
  apply Stage.stable_of_proposes
    ["DEVICE_NAME_LEN", "DEVICE_HW_VERSION_LEN", "DEVICE_SW_VERSION_LEN"]
  · intro s next made
    exact ⟨_, rfl, (Except.ok.inj made).symm⟩
  · intro s next t _ _ _
    exact ⟨_, rfl⟩

theorem processDataStage_stable (d : Dictionary) : Stage.Stable (processDataStage d) := by
  apply Stage.stable_of_proposes ["MAX_PD_OUTPUT_SIZE", "MAX_PD_INPUT_SIZE"]
  · intro s next made
    obtain ⟨received, -, made⟩ := Except.bind_eq_ok made
    obtain ⟨transmitted, -, made⟩ := Except.bind_eq_ok made
    cases made
    exact ⟨_, rfl, rfl⟩
  · intro s next t _ made _
    obtain ⟨received, receives, made⟩ := Except.bind_eq_ok made
    obtain ⟨transmitted, transmits, -⟩ := Except.bind_eq_ok made
    simp only [processDataStage, receives, transmits]
    exact ⟨_, rfl⟩

theorem interruptStage_stable : Stage.Stable interruptStage := by
  apply Stage.stable_of_proposes ["INTERRUPTS_SUPPORTED"]
  · intro s next made
    exact ⟨_, rfl, (Except.ok.inj made).symm⟩
  · intro s next t _ _ _
    exact ⟨_, rfl⟩

/-- Stages that add the bits of switches find all of them set, because the switches stand among the
fallbacks and stay as they were. -/
theorem Stage.stable_of_gathers {stage : Stage} (key : String) (switches : List (String × Int64))
    (entries : Settings → Int64 → List (String × Value))
    (shape : ∀ s, stage s = do
      let old ← s.intOr key 0
      return s.gathered key switches old (entries s (s.gather switches old)))
    (keys : ∀ s t m n, (entries s m).map Prod.fst = (entries t n).map Prod.fst)
    (listed : key ∈ bitKeys)
    (fallen : ∀ name ∈ switches.map Prod.fst, name ∈ fallbacks.map Prod.fst) : stage.Stable where
  inflates {s next} made := by
    rw [shape] at made
    obtain ⟨old, given, made⟩ := Except.bind_eq_ok made
    cases made
    exact inflates_gathered listed given
  settles {s next t} filled made grown := by
    rw [shape] at made
    obtain ⟨old, given, made⟩ := Except.bind_eq_ok made
    cases made
    have start := (inflates_gathered listed given).trans grown
    have same : ∀ switch ∈ switches, t.flag switch.1 = s.flag switch.1 := by
      intro switch member
      exact flag_congr (filled.get? start (fallen switch.1 (List.mem_map_of_mem member)))
    obtain ⟨new, again, kept⟩ := Inflates.gathered grown same
    rw [shape, again]
    refine congrArg Except.ok ?_
    rw [Settings.gathered, kept]
    exact grown.propose (keys _ _ _ _)

theorem protocolStage_stable : Stage.Stable protocolStage :=
  Stage.stable_of_gathers "mbx_protocol" mailboxProtocols
    (fun _ new => [("MAILBOX_SUPPORTED", bit (new != 0))])
    (fun _ => rfl) (fun _ _ _ _ => rfl) (by decide)
    (by simp [mailboxProtocols, fallbacks, integerFallbacks])

theorem detailStage_stable : Stage.Stable detailStage :=
  Stage.stable_of_gathers "coe_details"
    [("COE_SUPPORTED", 0x03), ("COMPLETE_ACCESS_SUPPORTED", 0x20)]
    (fun s _ => [("foe_details", bit (s.flag "FOE_SUPPORTED")),
      ("eoe_details", bit (s.flag "EOE_SUPPORTED"))])
    (fun _ => rfl) (fun _ _ _ _ => rfl) (by decide) (by simp [fallbacks, integerFallbacks])

/-! ## The whole derivation -/

theorem fallbackStage_fills {s next t : Settings} (made : fallbackStage s = .ok next)
    (grown : Inflates next t) : Inflates s next ∧ next.Filled ∧ fallbackStage t = .ok t := by
  rw [← Except.ok.inj made] at grown ⊢
  exact ⟨inflates_propose s fallbacks, fun key => propose_ne_none,
    congrArg Except.ok (grown.propose rfl)⟩

theorem run_stable {stages : List Stage} (each : ∀ stage ∈ stages, Stage.Stable stage)
    {s t : Settings} (filled : s.Filled)
    (run : stages.foldlM (fun s stage => stage s) s = .ok t) :
    Inflates s t ∧ ∀ stage ∈ stages, stage t = .ok t := by
  induction stages generalizing s with
  | nil =>
      cases run
      exact ⟨.refl _, List.forall_mem_nil _⟩
  | cons stage rest ih =>
      obtain ⟨stable, others⟩ := List.forall_mem_cons.mp each
      rw [List.foldlM_cons] at run
      obtain ⟨next, made, run⟩ := Except.bind_eq_ok run
      have first := stable.inflates made
      obtain ⟨later, settled⟩ := ih others (filled.grown first) run
      -- What the first stage has done is still done behind all others, which only inflate.
      have here := stable.settles filled made later
      exact ⟨first.trans later, List.forall_mem_cons.mpr ⟨here, settled⟩⟩

theorem run_settled {stages : List Stage} {t : Settings}
    (settled : ∀ stage ∈ stages, stage t = .ok t) :
    stages.foldlM (fun s stage => stage s) t = .ok t := by
  induction stages with
  | nil => rfl
  | cons stage rest ih =>
      obtain ⟨here, others⟩ := List.forall_mem_cons.mp settled
      rw [List.foldlM_cons, here]
      exact ih others

/-- All stages but the first one, which fills in what they rely on. -/
def laterStages (d : Dictionary) : List Stage :=
  [sizeStage, portStage, protocolStage, detailStage, mailboxStage, lengthStage, processDataStage d,
    interruptStage]

theorem laterStages_stable (d : Dictionary) : ∀ stage ∈ laterStages d, Stage.Stable stage := by
  simp only [laterStages, List.forall_mem_cons]
  exact ⟨sizeStage_stable, portStage_stable, protocolStage_stable, detailStage_stable,
    mailboxStage_stable, lengthStage_stable, processDataStage_stable d, interruptStage_stable,
    List.forall_mem_nil _⟩

theorem derive_ok {d : Dictionary} {s t : Settings} (made : derive d s = (.ok (), t)) :
    ∃ next, fallbackStage s = .ok next ∧
      (laterStages d).foldlM (fun s stage => stage s) next = .ok t := by
  have run := runStages_ok.mp made
  rw [stages, List.foldlM_cons] at run
  exact Except.bind_eq_ok run

/-- A derivation keeps what is there, and leaves all its stages with nothing to do. -/
theorem derive_stable {d : Dictionary} {s t : Settings} (made : derive d s = (.ok (), t)) :
    Inflates s t ∧ ∀ stage ∈ stages d, stage t = .ok t := by
  obtain ⟨next, first, run⟩ := derive_ok made
  obtain ⟨start, filled, -⟩ := fallbackStage_fills first (.refl next)
  obtain ⟨later, settled⟩ := run_stable (laterStages_stable d) filled run
  obtain ⟨-, -, again⟩ := fallbackStage_fills first later
  exact ⟨start.trans later, List.forall_mem_cons.mpr ⟨again, settled⟩⟩

theorem bitKeys_int {d : Dictionary} {t : Settings}
    (settled : ∀ stage ∈ stages d, stage t = .ok t) :
    ∀ key ∈ bitKeys, ∃ n, t.get? key = some (.int n) := by
  have protocols := settled protocolStage (by simp [stages])
  have details := settled detailStage (by simp [stages])
  obtain ⟨_, -, protocols⟩ := Except.bind_eq_ok protocols
  obtain ⟨_, -, details⟩ := Except.bind_eq_ok details
  simp only [bitKeys, List.forall_mem_cons]
  refine ⟨?_, ?_, List.forall_mem_nil _⟩
  · rw [← Except.ok.inj protocols]
    exact gathered_int
  · rw [← Except.ok.inj details]
    exact gathered_int

/-- Derived settings have all that was there: every value stays, except that two integers gain bits.
A second derivation changes nothing. -/
theorem derive_inflationary_idempotent {d : Dictionary} {s t : Settings}
    (made : derive d s = (.ok (), t)) :
    (∀ key value, s.get? key = some value → key ≠ "mbx_protocol" → key ≠ "coe_details" →
      t.get? key = some value) ∧
    (∀ key, key = "mbx_protocol" ∨ key = "coe_details" →
      ∃ old bits : Int64, s.intOr key 0 = .ok old ∧ t.get? key = some (.int (old ||| bits))) ∧
    derive d t = (.ok (), t) := by
  obtain ⟨grown, settled⟩ := derive_stable made
  refine ⟨?_, ?_, runStages_ok.mpr (run_settled settled)⟩
  · intro key value found noProtocol noDetail
    have plain : key ∉ bitKeys := by simp [bitKeys, noProtocol, noDetail]
    rw [grown.get? plain (by simp [found]), found]
  · intro key special
    obtain ⟨new, given⟩ := bitKeys_int settled key (by simpa [bitKeys] using special)
    cases found : s.get? key with
    | none => exact ⟨0, new, intOr_ok.mpr (.inr ⟨found, rfl⟩), by rw [given, Int64.zero_or]⟩
    | some value =>
        obtain ⟨next, same, becomes⟩ := grown key value found
        cases given.symm.trans same
        cases becomes with
        | same => exact ⟨new, 0, intOr_ok.mpr (.inl found), by rw [given, Int64.or_zero]⟩
        | more old bits => exact ⟨old, bits, intOr_ok.mpr (.inl found), given⟩

/-- A switch that is a text, one that is off, ports that are no text, and a protocol of its own. -/
def unusualSettings : Settings :=
  ofList [("AOE_SUPPORTED", .str "yes"), ("COE_SUPPORTED", .int 0), ("physics", .int 3),
    ("mbx_protocol", .int 0x40)]

theorem derive_inflationary_idempotent_unusual :
    ∃ c t, resolve .plain switchesStatements = .ok c ∧
      derive c.device.dictionary unusualSettings = (.ok (), t) ∧
      t.get? "physics" = some (.int 3) ∧ t.get? "mbx_protocol" = some (.int 0x41) ∧
      t.get? "coe_details" = some (.int 0x20) ∧ t.get? "MAX_PD_OUTPUT_SIZE" = some (.int 1) ∧
      derive c.device.dictionary t = (.ok (), t) := by
  have values : (resolve .plain switchesStatements).toOption.bind (fun c =>
      (derived c.device.dictionary unusualSettings).toOption.map fun t =>
        ["mbx_protocol", "coe_details", "MAX_PD_OUTPUT_SIZE"].map t.get?) =
      some [some (.int 0x41), some (.int 0x20), some (.int 1)] := by
    decide +kernel
  obtain ⟨c, resolved, values⟩ := Option.bind_eq_some_iff.mp values
  obtain ⟨t, run, values⟩ := Option.map_eq_some_iff.mp values
  have made : derive c.device.dictionary unusualSettings = (.ok (), t) :=
    runStages_ok.mpr (derived_ok.mp (Except.eq_ok_of_toOption run))
  obtain ⟨kept, -, again⟩ := derive_inflationary_idempotent made
  have ports : unusualSettings.get? "physics" = some (.int 3) := by decide +kernel
  simp only [List.map_cons, List.map_nil, List.cons.injEq, and_true] at values
  exact ⟨c, t, Except.eq_ok_of_toOption resolved, made,
    kept _ _ ports (by decide) (by decide), values.1, values.2.1, values.2.2, again⟩

end EcatDevice.Settings
