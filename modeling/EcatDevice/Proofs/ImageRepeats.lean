import EcatDevice.Proofs.ImageReadBack

/-! # Building again

An image depends only on settings that no image publishes: the others are overwritten before they
are read. So what an image has published can go back into the settings, and the same image is built
again.
-/

namespace EcatDevice.Eeprom

/-! ## What each category reads -/

section
variable {s other : Settings}

theorem fmmuCategory_congr
    (same : ∀ unit < 8, other.get? (unitLead "fmmu" unit ++ "mode") =
      s.get? (unitLead "fmmu" unit ++ "mode")) :
    fmmuCategory other = fmmuCategory s := by
  have modes : ∀ unit ∈ List.range unitCount, fmmuMode other unit = fmmuMode s unit := by
    intro unit member
    simp only [fmmuMode, Settings.intOr_congr (same unit (List.mem_range.mp member))]
  simp only [fmmuCategory, mapM_congr modes]

theorem syncManagerCount_le (s : Settings) : syncManagerCount s ≤ 8 := by
  have counted := foldl_range_last (fun unit => s.flag (unitLead "sm" unit ++ "enable")) 8
  rcases counted with ⟨none, -⟩ | ⟨last, count, greatest⟩
  · exact none.trans_le (Nat.zero_le 8)
  · exact count.trans_le greatest.1.1

theorem syncManagerCategory_congr
    (same : ∀ unit < 8, ∀ key ∈ syncManagerSlots.filterMap Slot.key?,
      other.get? (unitLead "sm" unit ++ key) = s.get? (unitLead "sm" unit ++ key)) :
    syncManagerCategory other = syncManagerCategory s := by
  have count : syncManagerCount other = syncManagerCount s := by
    apply List.foldl_ext
    intro found unit member
    rw [Settings.flag_congr (same unit (List.mem_range.mp member) "enable" (by decide))]
  have entries : ∀ unit ∈ List.range (syncManagerCount s),
      packLayout other (unitLead "sm" unit) syncManagerSlots =
        packLayout s (unitLead "sm" unit) syncManagerSlots := by
    intro unit member
    have few := Nat.lt_of_lt_of_le (List.mem_range.mp member) (syncManagerCount_le s)
    apply packLayout_congr
    intro key fallback format slot
    exact same unit few key (Slot.mem_keys slot)
  simp only [syncManagerCategory, count, mapM_congr entries]

theorem namedClocks_congr (supported : other.get? "DC_SUPPORTED" = s.get? "DC_SUPPORTED")
    (same : ∀ unit < 8, other.get? (unitLead "dc" unit ++ "name") =
      s.get? (unitLead "dc" unit ++ "name")) :
    namedClocks other = namedClocks s := by
  have names : ∀ unit ∈ List.range unitCount,
      other.flag (unitLead "dc" unit ++ "name") = s.flag (unitLead "dc" unit ++ "name") := by
    intro unit member
    exact Settings.flag_congr (same unit (List.mem_range.mp member))
  simp only [namedClocks, Settings.flag_congr supported, List.filter_congr names]

theorem clockCategory_congr (units : namedClocks other = namedClocks s)
    (same : ∀ unit ∈ namedClocks s, ∀ key ∈ clockSlots.filterMap Slot.key?,
      other.get? (unitLead "dc" unit ++ key) = s.get? (unitLead "dc" unit ++ key)) :
    clockCategory other = clockCategory s := by
  have entries : ∀ unit ∈ namedClocks s,
      packLayout other (unitLead "dc" unit) clockSlots =
        packLayout s (unitLead "dc" unit) clockSlots := by
    intro unit member
    apply packLayout_congr
    intro key fallback format slot
    exact same unit member key (Slot.mem_keys slot)
  simp only [clockCategory, units, mapM_congr entries]

end

/-! ## Keys that an image publishes -/

/-- The keys that an image can publish. -/
def outputKeys : List String :=
  placeKeys ++ listingKeys

/-- All keys that no image publishes have one value in both. -/
def SameInputs (s other : Settings) : Prop :=
  ∀ key ∉ outputKeys, other.get? key = s.get? key

/-- The keys that only the configuration area reads from the given settings, if any part does. -/
def asideKeys : List String :=
  "sii.size" :: outputKeys

/-- All keys that the other parts of an image read have one value in both. -/
def SameContent (s other : Settings) : Prop :=
  ∀ key ∉ asideKeys, other.get? key = s.get? key

theorem SameInputs.content {s other : Settings} (same : SameInputs s other) :
    SameContent s other := by
  intro key input
  exact same key fun output => input (List.mem_cons_of_mem _ output)

theorem config_inputs : ∀ key ∈ configSlots.filterMap Slot.key?,
    "sii.checksum" = "" ++ key ∨ "" ++ key ∉ outputKeys := by
  decide

theorem head_inputs : ∀ key ∈ headSlots.filterMap Slot.key?, "" ++ key ∉ asideKeys := by
  decide

theorem name_inputs : ∀ keys ∈ allNameKeys, keys.1 ∉ asideKeys := by
  decide

theorem general_inputs : ∀ key ∈ generalSlots.filterMap Slot.key?,
    "" ++ key ∈ namedStrings.map Prod.snd ∨ "" ++ key ∉ asideKeys := by
  decide

theorem switch_inputs : "DC_SUPPORTED" ∉ asideKeys ∧ "ESC_EEPROM_SIZE" ∉ asideKeys := by
  decide

/-- Of the keys of a unit an image publishes only the place of its name. -/
theorem unit_inputs : ∀ unit < 8, unitLead "fmmu" unit ++ "mode" ∉ asideKeys ∧
    (∀ key ∈ syncManagerSlots.filterMap Slot.key?, unitLead "sm" unit ++ key ∉ asideKeys) ∧
    ∀ key ∈ clockSlots.filterMap Slot.key?,
      unitLead "dc" unit ++ key = (clockKeys unit).2 ∨ unitLead "dc" unit ++ key ∉ asideKeys := by
  decide

/-! ## The image depends on its inputs only -/

section
variable {s other : Settings} (same : SameContent s other)
include same

theorem SameContent.get?_merge (published : Settings) {key : String}
    (fixed : key ∉ asideKeys ∨ published.get? key ≠ none) :
    (other.merge published).get? key = (s.merge published).get? key := by
  rw [Settings.get?_merge, Settings.get?_merge]
  rcases fixed with input | given
  · rw [same key input]
  · obtain ⟨value, given⟩ := Option.ne_none_iff_exists'.mp given
    rw [given]
    rfl

theorem SameContent.head_eq : packLayout other "" headSlots = packLayout s "" headSlots := by
  apply packLayout_congr
  intro key fallback format slot
  exact same _ (head_inputs key (Slot.mem_keys slot))

theorem SameContent.nameKeys_eq : nameKeys other = nameKeys s := by
  have present : ∀ keys ∈ (List.range unitCount).map clockKeys,
      other.contains keys.1 = s.contains keys.1 := by
    intro keys member
    have input := name_inputs keys (List.mem_append_right _ member)
    rw [Settings.contains_eq, Settings.contains_eq, same _ input]
  simp only [nameKeys, Settings.flag_congr (same _ switch_inputs.1), List.filter_congr present]

theorem SameContent.names_eq (found : Found) :
    (nameKeys other).foldlM (place other) found = (nameKeys s).foldlM (place s) found := by
  rw [same.nameKeys_eq]
  apply foldlM_congr
  intro found keys asked
  have input := name_inputs keys ((nameKeys_sublist s).subset asked)
  simp only [place, nameOf, Settings.contains_eq, Settings.str, same _ input]

/-- Categories read no place that was not published before. -/
theorem SameContent.allCategories_eq {head : Bytes} {found : Found}
    (collects : (nameKeys s).foldlM (place s) (firstFound head) = .ok found) :
    allCategories (other.merge found.2) found.1 = allCategories (s.merge found.2) found.1 := by
  obtain ⟨strings, published⟩ := found
  have fixes := nameKeys_fixes collects
  have placed : ∀ keys ∈ nameKeys s, published.get? keys.2 ≠ none := by
    intro keys asked
    obtain ⟨j, here, -⟩ := nameKeys_placed collects asked
    simp [here]
  have general : packLayout (other.merge published) "" generalSlots =
      packLayout (s.merge published) "" generalSlots := by
    apply packLayout_congr
    intro key fallback format slot
    apply same.get?_merge
    rcases general_inputs key (Slot.mem_keys slot) with isPlace | input
    · obtain ⟨keys, named, whole⟩ := List.mem_map.mp isPlace
      rw [← whole]
      exact .inr (placed keys (List.mem_append_left _ named))
    · exact .inl input
  have units : fmmuCategory (other.merge published) = fmmuCategory (s.merge published) := by
    apply fmmuCategory_congr
    intro unit few
    exact same.get?_merge published (.inl (unit_inputs unit few).1)
  have managers : syncManagerCategory (other.merge published) =
      syncManagerCategory (s.merge published) := by
    apply syncManagerCategory_congr
    intro unit few key slot
    exact same.get?_merge published (.inl ((unit_inputs unit few).2.1 key slot))
  have named : namedClocks (other.merge published) = namedClocks (s.merge published) := by
    apply namedClocks_congr
    · exact same.get?_merge published (.inl switch_inputs.1)
    · intro unit few
      exact same.get?_merge published (.inl (name_inputs _ (clockKeys_mem few)))
  have clocks : clockCategory (other.merge published) = clockCategory (s.merge published) := by
    apply clockCategory_congr named
    intro unit member key slot
    apply same.get?_merge
    -- A record is written only for a unit whose name was collected.
    obtain ⟨few, supported, on⟩ :=
      ((fixes.agree s).clock_iff unit).mp ((mem_namedClocks _ unit).mp member)
    rcases (unit_inputs unit few).2.2 key slot with isPlace | input
    · rw [isPlace]
      exact .inr (placed _ (clockKeys_asked few supported (Settings.ne_none_of_flag on)))
    · exact .inl input
  simp only [allCategories, general, units, managers, clocks]

theorem SameContent.fillImage_eq (published : Settings) (content : Bytes) :
    fillImage (other.merge published) content = fillImage (s.merge published) content := by
  have size := same.get?_merge published (.inl switch_inputs.2)
  simp only [fillImage, Settings.intOr_congr size]

end

theorem SameInputs.config_eq {s other : Settings} (same : SameInputs s other)
    (checksum : Value) :
    packLayout (other.insert "sii.checksum" checksum) "" configSlots =
      packLayout (s.insert "sii.checksum" checksum) "" configSlots := by
  apply packLayout_congr
  intro key fallback format slot
  rw [Settings.get?_insert, Settings.get?_insert]
  rcases config_inputs key (Slot.mem_keys slot) with checksum | input
  · simp only [checksum, if_true]
  · rw [same _ input]

/-- Settings that differ only in what images publish give the same image, or the same error. -/
theorem SameInputs.build_eq {s other : Settings} (same : SameInputs s other) :
    build other = build s := by
  have content := same.content
  rw [Eeprom.build_eq, Eeprom.build_eq, content.head_eq]
  apply Except.bind_congr_ok
  intro head _
  rw [same.config_eq]
  apply Except.bind_congr_ok
  intro config _
  rw [content.names_eq]
  apply Except.bind_congr_ok
  intro found collects
  simp only [content.allCategories_eq collects, content.fillImage_eq]

/-- Nothing else is published. -/
theorem Parts.published_output {s : Settings} (parts : Parts s) {key : String}
    (input : key ∉ outputKeys) : parts.image.published.get? key = none := by
  simp only [outputKeys, List.mem_append, not_or] at input
  exact (get?_listed input.2 _ _ _ _).trans (parts.fixes key input.1)

theorem merge_merge (s published : Settings) :
    (s.merge published).merge published = s.merge published := by
  apply Settings.ext_get?
  intro key
  simp only [Settings.get?_merge]
  cases published.get? key <;> rfl

/-- Settings into which an image was published give the same image again, and publishing it a second
time changes nothing. -/
theorem build_merge_published {s : Settings} {image : Image} (made : build s = .ok image) :
    build (s.merge image.published) = .ok image ∧
      (s.merge image.published).merge image.published = s.merge image.published := by
  have same : SameInputs s (s.merge image.published) := by
    obtain ⟨parts, rfl⟩ := build_ok_iff.mp made
    intro key input
    rw [Settings.get?_merge, parts.published_output input]
    rfl
  exact ⟨by rw [same.build_eq, made], merge_merge s image.published⟩

/-- Settings that give places and a checksum of their own, which do not belong to their names. -/
def staleSettings : Settings :=
  sampleSettings.merge (Settings.ofList [
    ("sii.checksum", .str "none"), ("DEVICE_IDX", .int 77), ("TYPE_IDX", .int 3),
    ("dc1.name_idx", .str "first"), ("config_data", .int 5)])

theorem build_merge_published_stale :
    ∃ image, build staleSettings = .ok image ∧
      (build (staleSettings.merge image.published) = .ok image ∧
        (staleSettings.merge image.published).merge image.published =
          staleSettings.merge image.published) ∧
      staleSettings.get? "DEVICE_IDX" = some (.int 77) ∧
      image.published.get? "DEVICE_IDX" = some (.int 1) ∧
      image.published.get? "TYPE_IDX" = some (.int 0) ∧
      image.published.get? "dc1.name_idx" = some (.int 2) := by
  have stale : staleSettings.get? "DEVICE_IDX" = some (.int 77) := by
    decide +kernel
  have shown : (build staleSettings).toOption.map (fun image =>
      (image.published.get? "DEVICE_IDX", image.published.get? "TYPE_IDX",
        image.published.get? "dc1.name_idx")) =
      some (some (.int 1), some (.int 0), some (.int 2)) := by
    decide +kernel
  obtain ⟨image, made, shown⟩ := Except.exists_ok_of_shown shown
  simp only [Prod.mk.injEq] at shown
  exact ⟨image, made, build_merge_published made, stale, shown⟩

end EcatDevice.Eeprom
