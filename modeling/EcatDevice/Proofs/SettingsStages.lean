import EcatDevice.Proofs.Checked
import EcatDevice.Proofs.SettingsLookup
import EcatDevice.Settings.Derive

/-! # Stages of the derivation

What a key has behind a list of proposals, and the keys that each stage may change.
-/

namespace EcatDevice.Settings

theorem get?_setDefault (s : Settings) (key other : String) (value : Value) :
    (s.setDefault key value).get? other =
      (s.get? other).or (if key = other then some value else none) := by
  unfold setDefault
  rw [contains_eq]
  by_cases same : key = other
  · subst same
    cases found : s.get? key <;> simp [found, get?_insert]
  · split <;> simp [get?_insert, same]

/-- A key keeps the value it has, and takes the first one proposed otherwise. -/
theorem get?_propose (s : Settings) (entries : List (String × Value)) (key : String) :
    (s.propose entries).get? key = (s.get? key).or (entries.lookup key) := by
  unfold propose
  induction entries generalizing s with
  | nil => simp
  | cons entry rest ih =>
      rw [List.foldl_cons, ih, get?_setDefault, Option.or_assoc, List.lookup_cons]
      by_cases same : entry.1 = key
      · simp [same]
      · simp [same, beq_eq_false_iff_ne.mpr (Ne.symm same)]

theorem get?_propose_absent {entries : List (String × Value)} {key : String}
    (absent : key ∉ entries.map Prod.fst) (s : Settings) :
    (s.propose entries).get? key = s.get? key := by
  have none : entries.lookup key = none := by
    rw [List.lookup_eq_none_iff]
    intro entry member
    have apart : key ≠ entry.1 := fun same => absent (same ▸ List.mem_map_of_mem member)
    simp [apart]
  rw [get?_propose, none, Option.or_none]

theorem get?_insert_propose_absent {entries : List (String × Value)} {lead key : String}
    (absent : key ∉ lead :: entries.map Prod.fst) (s : Settings) (value : Value) :
    ((s.insert lead value).propose entries).get? key = s.get? key := by
  rw [List.mem_cons, not_or] at absent
  rw [get?_propose_absent absent.2, get?_insert, if_neg (Ne.symm absent.1)]

theorem runStages_ok {stages : List Stage} {s t : Settings} :
    runStages stages s = (.ok (), t) ↔ stages.foldlM (fun s stage => stage s) s = .ok t := by
  induction stages generalizing s with
  | nil => simp [runStages, pure, Except.pure]
  | cons stage rest ih =>
      rw [runStages, List.foldlM_cons]
      cases stage s with
      | error e => simp [bind, Except.bind]
      | ok next => exact ih

theorem derived_ok {d : Dictionary} {s t : Settings} :
    derived d s = .ok t ↔ (stages d).foldlM (fun s stage => stage s) s = .ok t := by
  refine Iff.trans ?_ runStages_ok
  unfold derived derive
  generalize runStages (stages d) s = run
  obtain ⟨outcome, last⟩ := run
  cases outcome <;> simp

/-- A stage changes no other keys than these. -/
def Stage.Changes (stage : Stage) (keys : List String) : Prop :=
  ∀ s t, stage s = .ok t → ∀ key ∉ keys, t.get? key = s.get? key

theorem fallbackStage_changes : Stage.Changes fallbackStage (fallbacks.map Prod.fst) := by
  intro s t made key absent
  rw [← Except.ok.inj made]
  exact get?_propose_absent absent s

theorem sizeStage_changes : Stage.Changes sizeStage ["sii.size"] := by
  intro s t made key absent
  obtain ⟨bytes, -, made⟩ := Except.bind_eq_ok made
  cases made
  exact get?_propose_absent absent s

theorem portStage_changes : Stage.Changes portStage ["sii.phys_port"] := by
  intro s t made key absent
  obtain ⟨word, -, made⟩ := Except.bind_eq_ok made
  cases made
  exact get?_propose_absent absent s

theorem protocolStage_changes :
    Stage.Changes protocolStage ["mbx_protocol", "MAILBOX_SUPPORTED"] := by
  intro s t made key absent
  obtain ⟨old, -, made⟩ := Except.bind_eq_ok made
  cases made
  exact get?_insert_propose_absent absent s _

theorem detailStage_changes :
    Stage.Changes detailStage ["coe_details", "foe_details", "eoe_details"] := by
  intro s t made key absent
  obtain ⟨old, -, made⟩ := Except.bind_eq_ok made
  cases made
  exact get?_insert_propose_absent absent s _

theorem mailboxStage_changes :
    Stage.Changes mailboxStage ["bs_mbx_rx_off", "bs_mbx_rx_size", "bs_mbx_tx_off",
      "bs_mbx_tx_size", "std_mbx_rx_off", "std_mbx_rx_size", "std_mbx_tx_off",
      "std_mbx_tx_size"] := by
  intro s t made key absent
  obtain ⟨writeAddress, -, made⟩ := Except.bind_eq_ok made
  obtain ⟨readAddress, -, made⟩ := Except.bind_eq_ok made
  cases made
  exact get?_propose_absent absent s

theorem lengthStage_changes :
    Stage.Changes lengthStage
      ["DEVICE_NAME_LEN", "DEVICE_HW_VERSION_LEN", "DEVICE_SW_VERSION_LEN"] := by
  intro s t made key absent
  cases made
  exact get?_propose_absent absent s

theorem interruptStage_changes : Stage.Changes interruptStage ["INTERRUPTS_SUPPORTED"] := by
  intro s t made key absent
  cases made
  exact get?_propose_absent absent s

end EcatDevice.Settings
