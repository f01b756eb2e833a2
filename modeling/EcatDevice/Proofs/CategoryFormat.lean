import EcatDevice.Eeprom.Category
import EcatDevice.Proofs.ByteNumbers
import EcatDevice.Proofs.Checked

/-! # The format of categories

Categories that are written one behind the other are read back as they were, each filled to whole
words; and whatever is read from an image was written there in this way. The reader stops at an end
mark or where no header fits, and fails just at a header that promises more than the image holds.
-/

namespace EcatDevice.Eeprom

/-- The bytes of categories, one behind the other. -/
def writeCategories (blocks : List (UInt16 × Bytes)) : Except Error Bytes :=
  joined (fun block => category block.1 block.2) blocks

/-- What the reader takes for the end of the categories: no room for a header, or an end mark. -/
def Ended (tail : Bytes) : Prop :=
  tail.length < 4 ∨ [0xff, 0xff] <+: tail

/-- The kind and the number of words in front of the data. -/
def header (kind : UInt16) (words : Nat) : Bytes :=
  Bytes.littleEndian 2 kind.toNat ++ Bytes.littleEndian 2 words

/-- The failure at a header that promises too much. -/
def promiseError (position : Nat) (kind : UInt16) (words : Nat) : Error :=
  .overflow ("category " ++ Text.decimal kind.toNat ++ " at 0x"
    ++ Text.hexFillUpper 4 position) (2 * words : Nat)

/-- A header is read, and fewer words follow than it promises. -/
def Promised (kind : UInt16) (words : Nat) (rest bytes : Bytes) : Prop :=
  kind ≠ endKind ∧ words < 0x10000 ∧ rest.length < 2 * words ∧ bytes = header kind words ++ rest

/-! ## Writing -/

theorem evenLength_even (data : Bytes) : (evenLength data).length % 2 = 0 := by
  unfold evenLength
  split
  · assumption
  · rw [List.length_append, List.length_singleton]
    omega

theorem evenLength_of_even {data : Bytes} (even : data.length % 2 = 0) : evenLength data = data :=
  if_pos even

theorem category_ok {kind : UInt16} {data bytes : Bytes} (made : category kind data = .ok bytes) :
    ∃ words, words < 0x10000 ∧ (evenLength data).length = 2 * words ∧
      bytes = header kind words ++ evenLength data := by
  have even := evenLength_even data
  dsimp only [category] at made
  split at made
  · next few =>
      cases made
      exact ⟨_, few, by omega, rfl⟩
  · cases made

theorem category_words {kind : UInt16} {words : Nat} {data : Bytes} (few : words < 0x10000)
    (length : data.length = 2 * words) : category kind data = .ok (header kind words ++ data) := by
  have half : data.length / 2 = words := by omega
  have whole : evenLength data = data := evenLength_of_even (by omega)
  simp only [category, whole, half, if_pos few, header]

/-! ## Reading -/

theorem categoriesFrom_short {position : Nat} {bytes : Bytes} (short : bytes.length < 4) :
    categoriesFrom position bytes = .ok [] := by
  unfold categoriesFrom
  split
  · simp only [List.length_cons] at short
    omega
  · rfl

/-- Every row of bytes with room for a header starts with one. -/
theorem exists_header {bytes : Bytes} (room : ¬bytes.length < 4) :
    ∃ kind words rest, words < 0x10000 ∧ bytes = header kind words ++ rest := by
  match bytes with
  | [] | [_] | [_, _] | [_, _, _] => exact absurd (by simp) room
  | k0 :: k1 :: n0 :: n1 :: rest =>
      have count : Bytes.valueCount 2 = 0x10000 := rfl
      have kind : Bytes.toNat [k0, k1] < Bytes.valueCount 2 := Bytes.toNat_lt [k0, k1]
      have words : Bytes.toNat [n0, n1] < Bytes.valueCount 2 := Bytes.toNat_lt [n0, n1]
      rw [count] at kind words
      refine ⟨UInt16.ofNat (Bytes.toNat [k0, k1]), Bytes.toNat [n0, n1], rest, words, ?_⟩
      rw [header, UInt16.toNat_ofNat', Nat.mod_eq_of_lt kind]
      exact congrArg₂ (· ++ · ++ rest) (Bytes.littleEndian_toNat [k0, k1]).symm
        (Bytes.littleEndian_toNat [n0, n1]).symm

theorem categoriesFrom_header (position : Nat) (kind : UInt16) {words : Nat}
    (few : words < 0x10000) (rest : Bytes) :
    categoriesFrom position (header kind words ++ rest) =
      if kind = endKind then .ok []
      else if rest.length < 2 * words then .error (promiseError position kind words)
      else do
        let others ← categoriesFrom (position + 4 + 2 * words) (rest.drop (2 * words))
        return (kind, rest.take (2 * words)) :: others := by
  have first : UInt16.ofNat (Bytes.toNat (Bytes.littleEndian 2 kind.toNat)) = kind := by
    rw [Bytes.toNat_littleEndian_of_lt kind.toNat_lt, UInt16.ofNat_toNat]
  have second : Bytes.toNat (Bytes.littleEndian 2 words) = words :=
    Bytes.toNat_littleEndian_of_lt few
  have split : header kind words ++ rest =
      UInt8.ofNat kind.toNat :: UInt8.ofNat (kind.toNat / 256) ::
        UInt8.ofNat words :: UInt8.ofNat (words / 256) :: rest := rfl
  simp only [Bytes.littleEndian] at first second
  rw [split, categoriesFrom]
  simp only [first, second]
  rfl

theorem length_header (kind : UInt16) (words : Nat) : (header kind words).length = 4 := by
  rw [header, List.length_append, Bytes.length_littleEndian, Bytes.length_littleEndian]

theorem categoriesFrom_ended {position : Nat} {tail : Bytes} (ended : Ended tail) :
    categoriesFrom position tail = .ok [] := by
  rcases ended with short | ⟨rest, rfl⟩
  · exact categoriesFrom_short short
  · by_cases short : ([0xff, 0xff] ++ rest).length < 4
    · exact categoriesFrom_short short
    · obtain ⟨kind, words, more, few, same⟩ := exists_header short
      have mark : kind = endKind := by
        have front := congrArg (List.take 2) same
        have kindBytes : Bytes.littleEndian 2 kind.toNat = [0xff, 0xff] := front.symm
        have number : Bytes.toNat (Bytes.littleEndian 2 kind.toNat) = kind.toNat :=
          Bytes.toNat_littleEndian_of_lt kind.toNat_lt
        apply UInt16.toNat_inj.mp
        rw [← number, kindBytes]
        rfl
      rw [same, categoriesFrom_header _ _ few, if_pos mark]

theorem categoriesFrom_promised {position : Nat} {kind : UInt16} {words : Nat} {rest bytes : Bytes}
    (promised : Promised kind words rest bytes) :
    categoriesFrom position bytes = .error (promiseError position kind words) := by
  obtain ⟨more, few, short, rfl⟩ := promised
  rw [categoriesFrom_header _ _ few, if_neg more, if_pos short]

/-- The reader passes over written categories and goes on behind them. -/
theorem categoriesFrom_written {blocks : List (UInt16 × Bytes)} {content : Bytes} (position : Nat)
    (rest : Bytes) (kinds : ∀ block ∈ blocks, block.1 ≠ endKind)
    (written : writeCategories blocks = .ok content) :
    categoriesFrom position (content ++ rest) = do
      let others ← categoriesFrom (position + content.length) rest
      return blocks.map (fun block => (block.1, evenLength block.2)) ++ others := by
  induction blocks generalizing position content with
  | nil =>
      obtain rfl := joined_nil written
      exact (bind_pure (categoriesFrom position rest)).symm
  | cons block blocks ih =>
      obtain ⟨first, later, made, writtenLater, rfl⟩ := joined_cons.mp written
      obtain ⟨words, few, length, rfl⟩ := category_ok made
      have kind := kinds block List.mem_cons_self
      have place : position + 4 + 2 * words + later.length =
          position + (header block.1 words ++ evenLength block.2 ++ later).length := by
        simp only [List.length_append, length_header, length]
        omega
      have taken : (evenLength block.2 ++ (later ++ rest)).take (2 * words) =
          evenLength block.2 := by
        rw [← length, List.take_left]
      have dropped : (evenLength block.2 ++ (later ++ rest)).drop (2 * words) = later ++ rest := by
        rw [← length, List.drop_left]
      have enough : ¬(evenLength block.2 ++ (later ++ rest)).length < 2 * words := by
        rw [List.length_append]
        omega
      have step := ih (position + 4 + 2 * words)
        (fun block member => kinds block (List.mem_cons_of_mem _ member)) writtenLater
      rw [place] at step
      rw [List.append_assoc, List.append_assoc, categoriesFrom_header _ _ few, if_neg kind,
        if_neg enough, taken, dropped, step]
      cases categoriesFrom (position + (header block.1 words ++ evenLength block.2
        ++ later).length) rest <;> rfl

/-- Every row of bytes is a row of written categories, up to an end or a promise too large. -/
theorem exists_written (bytes : Bytes) :
    ∃ blocks content rest, (∀ block ∈ blocks, block.1 ≠ endKind ∧ block.2.length % 2 = 0) ∧
      writeCategories blocks = .ok content ∧ bytes = content ++ rest ∧
      (Ended rest ∨ ∃ kind words more, Promised kind words more rest) := by
  by_cases short : bytes.length < 4
  · exact ⟨[], [], bytes, by simp, rfl, rfl, .inl (.inl short)⟩
  · obtain ⟨kind, words, more, few, split⟩ := exists_header short
    by_cases mark : kind = endKind
    · refine ⟨[], [], bytes, by simp, rfl, rfl, .inl (.inr ?_)⟩
      rw [split, mark]
      exact ⟨Bytes.littleEndian 2 words ++ more, rfl⟩
    · by_cases missing : more.length < 2 * words
      · exact ⟨[], [], bytes, by simp, rfl, rfl,
          .inr ⟨kind, words, more, mark, few, missing, split⟩⟩
      · have room : (more.take (2 * words)).length = 2 * words := by
          rw [List.length_take]
          omega
        obtain ⟨blocks, content, rest, good, written, behind, stop⟩ :=
          exists_written (more.drop (2 * words))
        refine ⟨(kind, more.take (2 * words)) :: blocks,
          header kind words ++ more.take (2 * words) ++ content, rest, ?_, ?_, ?_, stop⟩
        · exact List.forall_mem_cons.mpr ⟨⟨mark, by rw [room, Nat.mul_mod_right]⟩, good⟩
        · exact joined_cons.mpr ⟨_, _, category_words few room, written, rfl⟩
        · rw [split, List.append_assoc, ← behind, List.append_assoc, List.take_append_drop]
termination_by bytes.length
decreasing_by
  rw [List.length_drop, split, List.length_append, length_header]
  omega

/-! ## Images -/

theorem categories_written {area content : Bytes} {blocks : List (UInt16 × Bytes)} (tail : Bytes)
    (whole : area.length = configLength) (kinds : ∀ block ∈ blocks, block.1 ≠ endKind)
    (written : writeCategories blocks = .ok content) :
    categories (area ++ content ++ tail) = do
      let others ← categoriesFrom (configLength + content.length) tail
      return blocks.map (fun block => (block.1, evenLength block.2)) ++ others := by
  rw [categories, List.append_assoc, ← whole, List.drop_left]
  exact categoriesFrom_written _ tail kinds written

theorem categories_ended {area content tail : Bytes} {blocks : List (UInt16 × Bytes)}
    (whole : area.length = configLength) (kinds : ∀ block ∈ blocks, block.1 ≠ endKind)
    (written : writeCategories blocks = .ok content) (ended : Ended tail) :
    categories (area ++ content ++ tail) =
      .ok (blocks.map fun block => (block.1, evenLength block.2)) := by
  rw [categories_written tail whole kinds written, categoriesFrom_ended ended]
  exact congrArg Except.ok (List.append_nil _)

theorem map_evenLength {blocks : List (UInt16 × Bytes)}
    (even : ∀ block ∈ blocks, block.2.length % 2 = 0) :
    blocks.map (fun block => (block.1, evenLength block.2)) = blocks := by
  refine (List.map_congr_left ?_).trans (List.map_id blocks)
  intro block member
  rw [evenLength_of_even (even block member)]
  rfl

/-- What any image holds, and what reading it gives. -/
theorem categories_cases (image : Bytes) :
    ∃ blocks content tail, (∀ block ∈ blocks, block.1 ≠ endKind) ∧
      writeCategories blocks = .ok content ∧ image = image.take configLength ++ content ++ tail ∧
      (Ended tail ∧ categories image = .ok blocks ∨
        ∃ kind words rest, Promised kind words rest tail ∧
          categories image = .error (promiseError (configLength + content.length) kind words)) := by
  obtain ⟨blocks, content, tail, good, written, split, stop⟩ :=
    exists_written (image.drop configLength)
  have kinds : ∀ block ∈ blocks, block.1 ≠ endKind := fun block member => (good block member).1
  have same := map_evenLength fun block member => (good block member).2
  have read := categoriesFrom_written configLength tail kinds written
  rw [← split, same] at read
  refine ⟨blocks, content, tail, kinds, written, ?_, ?_⟩
  · rw [List.append_assoc, ← split, List.take_append_drop]
  · rcases stop with ended | ⟨kind, words, rest, promised⟩
    · rw [categoriesFrom_ended ended] at read
      exact .inl ⟨ended, read.trans (congrArg Except.ok (List.append_nil blocks))⟩
    · rw [categoriesFrom_promised promised] at read
      exact .inr ⟨kind, words, rest, promised, read⟩

/-- The configuration area is whole if something lies behind it. -/
theorem area_whole {image rest : Bytes} (split : image = image.take configLength ++ rest)
    (some : rest ≠ []) : (image.take configLength).length = configLength := by
  have length := congrArg List.length split
  have more := List.length_pos_iff.mpr some
  simp only [List.length_append, List.length_take] at length ⊢
  omega

/-- Writing and reading categories agree: what is written is read back, what is read was written,
and reading fails just where a header promises more than there is. -/
theorem categories_format :
    (∀ (area : Bytes) (blocks : List (UInt16 × Bytes)) (content tail : Bytes),
      area.length = 128 → (∀ block ∈ blocks, block.1 ≠ 0xffff) →
      writeCategories blocks = .ok content → Ended tail →
      categories (area ++ content ++ tail) =
        .ok (blocks.map fun block => (block.1, evenLength block.2))) ∧
    (∀ (image : Bytes) (blocks : List (UInt16 × Bytes)), categories image = .ok blocks →
      (image.length < 132 → blocks = []) ∧
      ∃ content tail, (∀ block ∈ blocks, block.1 ≠ 0xffff) ∧
        writeCategories blocks = .ok content ∧ Ended tail ∧
        image = image.take 128 ++ content ++ tail) ∧
    ∀ (image : Bytes) (e : Error), categories image = .error e ↔
      ∃ blocks content kind words rest tail, (∀ block ∈ blocks, block.1 ≠ 0xffff) ∧
        writeCategories blocks = .ok content ∧ Promised kind words rest tail ∧
        image = image.take 128 ++ content ++ tail ∧
        e = promiseError (128 + content.length) kind words := by
  refine ⟨fun area blocks content tail => categories_ended, ?_, ?_⟩
  · intro image blocks read
    constructor
    · intro short
      have none : categories image = .ok [] := by
        refine categoriesFrom_short ?_
        rw [List.length_drop]
        unfold configLength
        omega
      exact Except.ok.inj (read.symm.trans none)
    · obtain ⟨found, content, tail, kinds, written, split, outcome⟩ := categories_cases image
      rcases outcome with ⟨ended, same⟩ | ⟨_, _, _, _, failed⟩
      · obtain rfl : blocks = found := Except.ok.inj (read.symm.trans same)
        exact ⟨content, tail, kinds, written, ended, split⟩
      · cases read.symm.trans failed
  · intro image e
    constructor
    · intro failed
      obtain ⟨found, content, tail, kinds, written, split, outcome⟩ := categories_cases image
      rcases outcome with ⟨_, read⟩ | ⟨kind, words, rest, promised, same⟩
      · cases read.symm.trans failed
      · exact ⟨found, content, kind, words, rest, tail, kinds, written, promised, split,
          Except.error.inj (failed.symm.trans same)⟩
    · rintro ⟨blocks, content, kind, words, rest, tail, kinds, written, promised, split, rfl⟩
      have whole : (image.take configLength).length = configLength := by
        refine area_whole (split.trans (List.append_assoc _ _ _)) ?_
        obtain ⟨-, -, -, rfl⟩ := promised
        exact List.append_ne_nil_of_right_ne_nil _ (List.cons_ne_nil _ _)
      have read := categories_written tail whole kinds written
      rw [categoriesFrom_promised promised] at read
      exact (congrArg categories split).trans read

/-- Two categories, one of them filled, and an end mark. -/
def sampleBlocks : List (UInt16 × Bytes) :=
  [(10, [1, 2, 0x6f]), (40, [1, 2])]

theorem categories_format_sample :
    categories (List.replicate 128 0 ++
        [10, 0, 2, 0, 1, 2, 0x6f, 0, 40, 0, 1, 0, 1, 2] ++ [0xff, 0xff, 0xff, 0xff, 0xff]) =
      .ok [(10, [1, 2, 0x6f, 0]), (40, [1, 2])] ∧
    categories (List.replicate 128 0 ++ [40, 0, 1, 0, 1, 2] ++ [41, 0, 4, 0, 7]) =
      .error (promiseError 134 41 4) := by
  constructor
  · exact categories_format.1 (List.replicate 128 0) sampleBlocks _ _ List.length_replicate
      (by decide) rfl (.inr ⟨_, rfl⟩)
  · exact (categories_format.2.2 _ _).mpr ⟨[(40, [1, 2])], [40, 0, 1, 0, 1, 2], 41, 4, [7],
      [41, 0, 4, 0, 7], by decide, rfl, ⟨by decide, by decide, by decide, rfl⟩, rfl, rfl⟩

end EcatDevice.Eeprom
