import EcatDevice.Proofs.SortingPermutes
import Mathlib.Order.Basic

/-! # Sorting ascends

Where the comparison of the elements of a list is a comparison of keys, sorting always gives an
answer and the keys of the answer ascend. Nothing is asked of the comparison of other elements.
-/

namespace EcatDevice.Sorting

open List (Perm)

variable {α κ : Type} [LinearOrder κ]

/-- On the elements of a list `less` compares their keys. -/
def Compares (less : α → α → Bool) (key : α → κ) (items : List α) : Prop :=
  ∀ x ∈ items, ∀ y ∈ items, less x y = true ↔ key x < key y

/-- The keys of a list ascend. -/
abbrev Ascends (key : α → κ) (items : List α) : Prop :=
  items.Pairwise fun x y => key x ≤ key y

variable {less : α → α → Bool} {key : α → κ}

theorem Compares.subset {items others : List α} (compares : Compares less key items)
    (within : ∀ x ∈ others, x ∈ items) : Compares less key others :=
  fun x memberX y memberY => compares x (within x memberX) y (within y memberY)

theorem Compares.perm {items others : List α} (compares : Compares less key items)
    (perm : others.Perm items) : Compares less key others :=
  compares.subset fun _ member => perm.mem_iff.mp member

theorem Compares.false_iff {items : List α} (compares : Compares less key items) {x y : α}
    (memberX : x ∈ items) (memberY : y ∈ items) : less x y = false ↔ key y ≤ key x := by
  rw [← Bool.not_eq_true, compares x memberX y memberY, not_lt]

/-- Read backwards, the comparison compares in the dual order. -/
theorem Compares.dual {items : List α} (compares : Compares less key items) :
    Compares (fun x y => less y x) (OrderDual.toDual ∘ key) items :=
  fun x memberX y memberY => compares y memberY x memberX

theorem ascends_dual_reverse {items : List α} :
    Ascends (OrderDual.toDual ∘ key) items.reverse ↔ Ascends key items :=
  List.pairwise_reverse

/-! ## Insertion -/

theorem insertDescending_descends {x : α} {items : List α}
    (compares : Compares less key (x :: items)) (descends : items.Pairwise (key · ≥ key ·)) :
    (insertDescending less x items).Pairwise (key · ≥ key ·) := by
  induction items with
  | nil => exact List.pairwise_singleton _ _
  | cons y rest ih =>
      obtain ⟨below, descends⟩ := List.pairwise_cons.mp descends
      rw [insertDescending]
      split
      · next isLess =>
          have smaller : key x < key y :=
            (compares x List.mem_cons_self y (by simp)).mp isLess
          refine List.pairwise_cons.mpr ⟨?_, ih (compares.subset (by simp +contextual)) descends⟩
          intro z member
          rcases List.mem_cons.mp ((insertDescending_perm less x rest).mem_iff.mp member) with
            rfl | member
          · exact smaller.le
          · exact below z member
      · next notLess =>
          have larger : key y ≤ key x :=
            (compares.false_iff List.mem_cons_self (by simp)).mp (Bool.not_eq_true _ ▸ notLess)
          refine List.pairwise_cons.mpr ⟨?_, List.pairwise_cons.mpr ⟨below, descends⟩⟩
          intro z member
          rcases List.mem_cons.mp member with rfl | member
          · exact larger
          · exact (below z member).trans larger

theorem insertAll_ascends {ascending more : List α}
    (compares : Compares less key (ascending ++ more)) (ascends : Ascends key ascending) :
    Ascends key (insertAll less ascending more) := by
  have all : ∀ descending : List α, Compares less key (descending ++ more) →
      descending.Pairwise (key · ≥ key ·) →
      (more.foldl (fun descending x => insertDescending less x descending) descending).Pairwise
        (key · ≥ key ·) := by
    clear compares
    induction more with
    | nil => exact fun descending _ descends => descends
    | cons x rest ih =>
        intro descending compares descends
        refine ih _ ?_ (insertDescending_descends ?_ descends)
        · have inserted := (insertDescending_perm less x descending).append_right rest
          exact compares.perm (inserted.trans List.perm_middle.symm)
        · exact compares.subset (by simp +contextual)
  refine List.pairwise_reverse.mpr (all _ ?_ (List.pairwise_reverse.mpr ascends))
  exact compares.perm ((List.reverse_perm ascending).append_right more)

theorem key_lower {x y : α} (compares : Compares less key [x, y]) :
    key (lower less x y) = min (key x) (key y) := by
  have same := compares y (by simp) x (by simp)
  unfold lower
  split
  · next isLess => exact (min_eq_right (same.mp isLess).le).symm
  · next notLess => exact (min_eq_left (not_lt.mp fun lt => notLess (same.mpr lt))).symm

theorem key_upper {x y : α} (compares : Compares less key [x, y]) :
    key (upper less x y) = max (key x) (key y) := by
  have same := compares y (by simp) x (by simp)
  unfold upper
  split
  · next isLess => exact (max_eq_left (same.mp isLess).le).symm
  · next notLess => exact (max_eq_right (not_lt.mp fun lt => notLess (same.mpr lt))).symm

theorem mergePairs_ascends {a b c d : α} (compares : Compares less key [a, b, c, d])
    (first : key a ≤ key b) (second : key c ≤ key d) :
    Ascends key (mergePairs less a b c d) := by
  have outer := compares c (by simp) a (by simp)
  have inner := compares d (by simp) b (by simp)
  have pair : ∀ x ∈ [a, b, c, d], ∀ y ∈ [a, b, c, d], Compares less key [x, y] := by
    intro x memberX y memberY
    refine compares.subset fun z member => ?_
    rcases List.mem_cons.mp member with rfl | member
    · exact memberX
    · rwa [List.mem_singleton.mp member]
  unfold mergePairs
  split <;>
    simp only [List.pairwise_cons, List.mem_cons, List.not_mem_nil, or_false, forall_eq_or_imp,
      forall_eq, IsEmpty.forall_iff, implies_true, List.Pairwise.nil, and_true]
  all_goals
    rw [key_lower (pair _ (by simp) _ (by simp)), key_upper (pair _ (by simp) _ (by simp))]
    grind

theorem sortFour_ascends {a b c d : α} (compares : Compares less key [a, b, c, d]) :
    Ascends key (sortFour less a b c d) := by
  have first : Compares less key [a, b] := compares.subset (by simp +contextual)
  have second : Compares less key [c, d] := compares.subset (by simp +contextual)
  refine mergePairs_ascends (compares.perm ?_) ?_ ?_
  · exact (lower_upper_perm less a b _).trans (((lower_upper_perm less c d []).cons b).cons a)
  · rw [key_lower first, key_upper first]
    exact min_le_max
  · rw [key_lower second, key_upper second]
    exact min_le_max

theorem sortHalf_ascends {items : List α} (compares : Compares less key items) (long : Bool) :
    Ascends key (sortHalf less long items) := by
  unfold sortHalf
  split
  · next a b c d rest =>
      split
      · refine insertAll_ascends (compares.perm ?_) (sortFour_ascends ?_)
        · exact (sortFour_perm less a b c d).append_right rest
        · exact compares.subset (by simp +contextual)
      · exact insertAll_ascends compares List.Pairwise.nil
  · exact insertAll_ascends compares List.Pairwise.nil

/-! ## Merging from both ends -/

/-- The stable merge of two lists takes `i` elements of the left list and `j` of the right one
before any other. -/
structure Cuts (less : α → α → Bool) (left right : List α) (i j : Nat) : Prop where
  first : ∀ x ∈ left.take i, ∀ y ∈ right.drop j, less y x = false
  last : ∀ x ∈ left.drop i, ∀ y ∈ right.take j, less y x = true

/-- Of two cuts the one that takes more takes more of both lists. -/
theorem Cuts.mono {left right : List α} {i j k l : Nat} (cut : Cuts less left right i j)
    (other : Cuts less left right k l) (leftRoom : i ≤ left.length) (rightRoom : j ≤ right.length)
    (leftOther : k ≤ left.length) (rightOther : l ≤ right.length) (le : i + j ≤ k + l) :
    i ≤ k ∧ j ≤ l := by
  constructor
  · by_contra less'
    -- The element at `k` of the left list and that at `j` of the right one would go both ways.
    have inLeft : k < left.length := by omega
    have inRight : j < right.length := by omega
    have one := cut.first left[k] (List.mem_take_iff_getElem.mpr ⟨k, by omega, rfl⟩) right[j]
      (List.mem_drop_iff_getElem.mpr ⟨0, by omega, by simp⟩)
    have two := other.last left[k] (List.mem_drop_iff_getElem.mpr ⟨0, by omega, by simp⟩) right[j]
      (List.mem_take_iff_getElem.mpr ⟨j, by omega, rfl⟩)
    rw [one] at two
    cases two
  · by_contra less'
    have inLeft : i < left.length := by omega
    have inRight : l < right.length := by omega
    have one := cut.last left[i] (List.mem_drop_iff_getElem.mpr ⟨0, by omega, by simp⟩) right[l]
      (List.mem_take_iff_getElem.mpr ⟨l, by omega, rfl⟩)
    have two := other.first left[i] (List.mem_take_iff_getElem.mpr ⟨i, by omega, rfl⟩) right[l]
      (List.mem_drop_iff_getElem.mpr ⟨0, by omega, by simp⟩)
    rw [two] at one
    cases one

/-- What a cut takes comes before what it leaves. -/
theorem Cuts.below {left right : List α} {i j : Nat} (cut : Cuts less left right i j)
    (compares : Compares less key (left ++ right)) (ascendsLeft : Ascends key left)
    (ascendsRight : Ascends key right) :
    ∀ x ∈ left.take i ++ right.take j, ∀ y ∈ left.drop i ++ right.drop j, key x ≤ key y := by
  have split : ∀ {items : List α} {count : Nat}, Ascends key items →
      ∀ x ∈ items.take count, ∀ y ∈ items.drop count, key x ≤ key y := by
    intro items count ascends
    rw [Ascends, ← List.take_append_drop count items] at ascends
    exact (List.pairwise_append.mp ascends).2.2
  intro x memberX y memberY
  rcases List.mem_append.mp memberX with takenLeft | takenRight <;>
    rcases List.mem_append.mp memberY with leavesLeft | leavesRight
  · exact split ascendsLeft x takenLeft y leavesLeft
  · refine (compares.false_iff ?_ ?_).mp (cut.first x takenLeft y leavesRight)
    · exact List.mem_append_right _ (List.mem_of_mem_drop leavesRight)
    · exact List.mem_append_left _ (List.mem_of_mem_take takenLeft)
  · refine ((compares x ?_ y ?_).mp (cut.last y leavesLeft x takenRight)).le
    · exact List.mem_append_right _ (List.mem_of_mem_take takenRight)
    · exact List.mem_append_left _ (List.mem_of_mem_drop leavesLeft)
  · exact split ascendsRight x takenRight y leavesRight

theorem head_le_of_ascends {x : α} {items : List α} (ascends : Ascends key (x :: items)) :
    ∀ y ∈ x :: items, key x ≤ key y := by
  intro y member
  rcases List.mem_cons.mp member with rfl | member
  · exact le_rfl
  · exact (List.pairwise_cons.mp ascends).1 y member

theorem takeFront_cuts {count : Nat} {left right : List α} (enough : count ≤ left.length)
    (enoughRight : count ≤ right.length) (compares : Compares less key (left ++ right))
    (ascendsLeft : Ascends key left) (ascendsRight : Ascends key right) :
    Cuts less left right (takeFront less count left right).2
        (count - (takeFront less count left right).2) ∧
      Ascends key (takeFront less count left right).1 := by
  fun_induction takeFront less count left right with
  | case1 count x left y right isLess taken ih =>
      have took : Took count (x :: left) right taken :=
        takeFront_took (Nat.le_of_succ_le enough) (Nat.le_of_succ_le_succ enoughRight)
      obtain ⟨cut, ascends⟩ := ih (Nat.le_of_succ_le enough) (Nat.le_of_succ_le_succ enoughRight)
        (compares.subset (by simp +contextual [or_imp])) ascendsLeft ascendsRight.tail
      have smaller : key y < key x := (compares y (by simp) x (by simp)).mp isLess
      have before : ∀ z ∈ x :: left, key y < key z := fun z member =>
        smaller.trans_le (head_le_of_ascends ascendsLeft z member)
      rw [Nat.succ_sub took.few]
      refine ⟨⟨cut.first, ?_⟩, List.pairwise_cons.mpr ⟨?_, ascends⟩⟩
      · intro a memberA b memberB
        rcases List.mem_cons.mp memberB with rfl | memberB
        · have member := List.mem_of_mem_drop memberA
          exact (compares b (by simp) a (List.mem_append_left _ member)).mpr (before a member)
        · exact cut.last a memberA b memberB
      · intro z member
        rcases List.mem_append.mp (took.perm.mem_iff.mp member) with member | member
        · exact (before z (List.mem_of_mem_take member)).le
        · exact head_le_of_ascends ascendsRight z
            (List.mem_cons_of_mem y (List.mem_of_mem_take member))
  | case2 count x left y right notLess taken ih =>
      have took : Took count left (y :: right) taken :=
        takeFront_took (Nat.le_of_succ_le_succ enough) (Nat.le_of_succ_le enoughRight)
      obtain ⟨cut, ascends⟩ := ih (Nat.le_of_succ_le_succ enough) (Nat.le_of_succ_le enoughRight)
        (compares.subset (by simp +contextual)) ascendsLeft.tail ascendsRight
      have smaller : key x ≤ key y :=
        (compares.false_iff (by simp) (by simp)).mp (Bool.eq_false_of_not_eq_true notLess)
      have before : ∀ z ∈ y :: right, key x ≤ key z := fun z member =>
        smaller.trans (head_le_of_ascends ascendsRight z member)
      rw [Nat.succ_sub_succ]
      refine ⟨⟨?_, cut.last⟩, List.pairwise_cons.mpr ⟨?_, ascends⟩⟩
      · intro a memberA b memberB
        rcases List.mem_cons.mp memberA with rfl | memberA
        · have member := List.mem_of_mem_drop memberB
          exact (compares.false_iff (List.mem_append_right _ member) (by simp)).mpr
            (before b member)
        · exact cut.first a memberA b memberB
      · intro z member
        rcases List.mem_append.mp (took.perm.mem_iff.mp member) with member | member
        · exact head_le_of_ascends ascendsLeft z
            (List.mem_cons_of_mem x (List.mem_of_mem_take member))
        · exact before z (List.mem_of_mem_take member)
  | case3 count left right ended =>
      rw [eq_zero_of_ended enough enoughRight ended]
      exact ⟨⟨by simp, by simp⟩, List.Pairwise.nil⟩

/-- Taken from the back, the elements that stay in front form a cut. -/
theorem takeBack_cuts {left right : List α} (shorter : left.length ≤ right.length)
    (compares : Compares less key (left ++ right)) (ascendsLeft : Ascends key left)
    (ascendsRight : Ascends key right) {taken : List α × Nat}
    (back : takeFront (fun x y => less y x) left.length right.reverse left.reverse = taken) :
    Cuts less left right taken.2 (right.length - taken.2) ∧ Ascends key taken.1.reverse := by
  have enough : left.length ≤ right.reverse.length := by rwa [List.length_reverse]
  have enoughLeft : left.length ≤ left.reverse.length := by rw [List.length_reverse]
  have took : Took left.length right.reverse left.reverse taken :=
    back ▸ takeFront_took enough enoughLeft
  have reversed : (right.reverse ++ left.reverse).Perm (left ++ right) :=
    ((List.reverse_perm right).append (List.reverse_perm left)).trans List.perm_append_comm
  obtain ⟨cut, ascends⟩ := takeFront_cuts enough enoughLeft (compares.dual.perm reversed)
    (ascends_dual_reverse.mpr ascendsRight) (ascends_dual_reverse.mpr ascendsLeft)
  rw [back] at cut ascends
  have few := took.few
  have own : left.length - (left.length - taken.2) = taken.2 := by omega
  refine ⟨⟨?_, ?_⟩, ascends_dual_reverse.mp (by rwa [List.reverse_reverse])⟩
  · intro x memberX y memberY
    refine cut.first y ?_ x ?_
    · rwa [List.take_reverse, List.mem_reverse]
    · rwa [List.drop_reverse, List.mem_reverse, own]
  · intro x memberX y memberY
    refine cut.last y ?_ x ?_
    · rwa [List.drop_reverse, List.mem_reverse]
    · rwa [List.take_reverse, List.mem_reverse, own]

/-- Between two cuts there is room for one element: what the first takes, this element, and what the
second leaves ascend. -/
theorem Cuts.between {left right front middle back : List α} {i j k l : Nat}
    (cut : Cuts less left right i j) (other : Cuts less left right k l) (fewer : i ≤ k)
    (fewerRight : j ≤ l) (compares : Compares less key (left ++ right))
    (ascendsLeft : Ascends key left) (ascendsRight : Ascends key right)
    (taken : ∀ x ∈ front, x ∈ left.take i ++ right.take j)
    (behind : ∀ x ∈ middle, x ∈ left.drop i ++ right.drop j)
    (before : ∀ x ∈ middle, x ∈ left.take k ++ right.take l)
    (leaves : ∀ x ∈ back, x ∈ left.drop k ++ right.drop l) (one : middle.length ≤ 1)
    (ascendsFront : Ascends key front) (ascendsBack : Ascends key back) :
    Ascends key (front ++ middle ++ back) := by
  have low := cut.below compares ascendsLeft ascendsRight
  have high := other.below compares ascendsLeft ascendsRight
  have last : ∀ x ∈ back, x ∈ left.drop i ++ right.drop j := fun x member =>
    ((List.drop_sublist_drop_left left fewer).append
      (List.drop_sublist_drop_left right fewerRight)).subset (leaves x member)
  have ascendsMiddle : Ascends key middle := by
    match middle, one with
    | [], _ => exact List.Pairwise.nil
    | [x], _ => exact List.pairwise_singleton _ x
  refine List.pairwise_append.mpr ⟨List.pairwise_append.mpr ⟨ascendsFront, ascendsMiddle, ?_⟩,
    ascendsBack, ?_⟩
  · exact fun x memberX y memberY => low x (taken x memberX) y (behind y memberY)
  · intro x memberX y memberY
    rcases List.mem_append.mp memberX with memberX | memberX
    · exact low x (taken x memberX) y (last y memberY)
    · exact high x (before x memberX) y (leaves y memberY)

theorem mergeInward_ascends {left right : List α} (shorter : left.length ≤ right.length)
    (longer : right.length ≤ left.length + 1) (compares : Compares less key (left ++ right))
    (ascendsLeft : Ascends key left) (ascendsRight : Ascends key right) :
    ∃ out, mergeInward less left right = some out ∧ Ascends key out := by
  have took : Took left.length left right (takeFront less left.length left right) :=
    takeFront_took le_rfl shorter
  obtain ⟨cut, ascends⟩ := takeFront_cuts le_rfl shorter compares ascendsLeft ascendsRight
  generalize frontIs : takeFront less left.length left right = front at took cut ascends
  have tookBack : Took left.length right.reverse left.reverse
      (takeFront (fun x y => less y x) left.length right.reverse left.reverse) :=
    takeFront_took (by rwa [List.length_reverse]) (by rw [List.length_reverse])
  generalize backIs : takeFront (fun x y => less y x) left.length right.reverse left.reverse = back
    at tookBack
  obtain ⟨cutBack, ascendsBack⟩ := takeBack_cuts shorter compares ascendsLeft ascendsRight backIs
  have few := took.few
  have fewBack := tookBack.few
  obtain ⟨fewer, fewerRight⟩ := cut.mono cutBack few (by omega) fewBack (by omega) (by omega)
  have own : left.length - (left.length - back.2) = back.2 := by omega
  have taken : ∀ x ∈ front.1, x ∈ left.take front.2 ++ right.take (left.length - front.2) :=
    fun x member => took.perm.mem_iff.mp member
  have leaves : ∀ x ∈ back.1.reverse,
      x ∈ left.drop back.2 ++ right.drop (right.length - back.2) := by
    intro x member
    have given := tookBack.perm.mem_iff.mp (List.mem_reverse.mp member)
    rw [List.take_reverse, List.take_reverse, own] at given
    simpa [or_comm] using given
  dsimp only [mergeInward]
  rw [frontIs, backIs]
  -- The second cut takes at most one element more than the first.
  split
  · next meet =>
      refine ⟨_, rfl, cut.between cutBack fewer fewerRight compares ascendsLeft ascendsRight taken
        ?_ ?_ leaves ?_ ascends ascendsBack⟩
      · intro x member
        exact List.mem_append_right _ (List.mem_of_mem_take member)
      · intro x member
        have upTo : left.length - front.2 + (right.length - left.length) =
            right.length - back.2 := by omega
        rw [List.take_drop, upTo] at member
        exact List.mem_append_right _ (List.mem_of_mem_drop member)
      · rw [List.length_take]
        omega
  · next apart =>
      have meet : back.2 = front.2 + 1 := by omega
      rw [if_pos ⟨by omega, meet⟩]
      refine ⟨_, rfl, cut.between cutBack fewer fewerRight compares ascendsLeft ascendsRight taken
        ?_ ?_ leaves ?_ ascends ascendsBack⟩
      · intro x member
        exact List.mem_append_left _ (List.mem_of_mem_take member)
      · intro x member
        rw [List.take_drop, ← meet] at member
        exact List.mem_append_left _ (List.mem_of_mem_drop member)
      · rw [List.length_take]
        omega

theorem sortShort_ascends {items : List α} (compares : Compares less key items) :
    ∃ out, sortShort less items = some out ∧ Ascends key out := by
  obtain ⟨lengthLeft, lengthRight, whole⟩ := sortHalves_perm less (8 ≤ items.length) items
  refine mergeInward_ascends (by omega) (by omega) (compares.perm whole) ?_ ?_
  · exact sortHalf_ascends (compares.subset fun _ => List.mem_of_mem_take) _
  · exact sortHalf_ascends (compares.subset fun _ => List.mem_of_mem_drop) _

/-! ## Runs -/

theorem merge_ascends {le : α → α → Bool} {left right : List α}
    (agrees : ∀ x ∈ left, ∀ y ∈ right, le x y = true ↔ key x ≤ key y)
    (ascendsLeft : Ascends key left) (ascendsRight : Ascends key right) :
    Ascends key (List.merge left right le) := by
  have keys : (List.merge left right le).map key =
      List.merge (left.map key) (right.map key) (fun a b => decide (a ≤ b)) := by
    refine List.map_merge fun x memberX y memberY => ?_
    rw [Bool.eq_iff_iff, agrees x memberX y memberY, decide_eq_true_iff]
  have sorted : (List.merge (left.map key) (right.map key) fun a b => decide (a ≤ b)).Pairwise
      fun a b => decide (a ≤ b) = true := by
    refine List.pairwise_merge ?_ ?_ _ _ ?_ ?_
    · simpa using fun a b c => le_trans
    · simpa using le_total
    · simpa [List.pairwise_map] using ascendsLeft
    · simpa [List.pairwise_map] using ascendsRight
  rw [← keys] at sorted
  simpa [List.pairwise_map] using sorted

theorem mergeSorted_ascends {left right : List α} (compares : Compares less key (left ++ right))
    (ascendsLeft : Ascends key left) (ascendsRight : Ascends key right) :
    Ascends key (mergeSorted less left right) := by
  unfold mergeSorted
  split
  · refine merge_ascends (fun x memberX y memberY => ?_) ascendsLeft ascendsRight
    rw [Bool.not_eq_true', compares.false_iff (List.mem_append_right _ memberY)
      (List.mem_append_left _ memberX)]
  · rw [← ascends_dual_reverse, List.reverse_reverse]
    refine merge_ascends (fun y memberY x memberX => ?_) (ascends_dual_reverse.mpr ascendsRight)
      (ascends_dual_reverse.mpr ascendsLeft)
    rw [Bool.not_eq_true', compares.false_iff
      (List.mem_append_right _ (List.mem_reverse.mp memberY))
      (List.mem_append_left _ (List.mem_reverse.mp memberX))]
    rfl

theorem stretch_ascends {follows : α → α → Bool} {x : α} {rest : List α}
    (each : ∀ p ∈ x :: rest, ∀ q ∈ x :: rest, follows p q = true → key p ≤ key q) :
    Ascends key ((x :: rest).take (stretch follows x rest + 1)) := by
  induction rest generalizing x with
  | nil => exact List.pairwise_singleton _ x
  | cons y rest ih =>
      rw [stretch]
      split
      · next goesOn =>
          have later := ih fun p memberP q memberQ =>
            each p (List.mem_cons_of_mem x memberP) q (List.mem_cons_of_mem x memberQ)
          rw [List.take_succ_cons]
          refine List.pairwise_cons.mpr ⟨?_, later⟩
          intro z member
          rw [List.take_succ_cons] at member later
          exact (each x (by simp) y (by simp) goesOn).trans (head_le_of_ascends later z member)
      · exact List.pairwise_singleton _ x

theorem naturalRun_ascends {x : α} {rest : List α} (compares : Compares less key (x :: rest)) :
    Ascends key (naturalRun less x rest) := by
  unfold naturalRun
  split
  · rw [← ascends_dual_reverse, List.reverse_reverse]
    refine stretch_ascends fun p memberP q memberQ goesOn => ?_
    exact ((compares q memberQ p memberP).mp goesOn).le
  · refine stretch_ascends fun p memberP q memberQ goesOn => ?_
    rwa [Bool.not_eq_true', compares.false_iff memberQ memberP] at goesOn

/-- Sorts whatever it can compare. -/
def Finishes (less : α → α → Bool) (key : α → κ) (finish : List α → Option (List α)) : Prop :=
  ∀ items, Compares less key items → ∃ out, finish items = some out ∧ Ascends key out

/-- A run that ascends, or that `finish` can sort. -/
structure Run.Ready (less : α → α → Bool) (key : α → κ) (finish : List α → Option (List α))
    (run : Run α) : Prop where
  ascends : run.sorted = true → Ascends key run.items
  finishes : run.sorted = false → Finishes less key finish

section
variable {finish : List α → Option (List α)} {eager : Bool}

theorem Run.Ready.of_ascends {items : List α} (ascends : Ascends key items) :
    Run.Ready less key finish ⟨items, true⟩ :=
  ⟨fun _ => ascends, nofun⟩

theorem Run.Ready.of_finishes (finishes : Finishes less key finish) (items : List α) :
    Run.Ready less key finish ⟨items, false⟩ :=
  ⟨nofun, fun _ => finishes⟩

theorem firstRun_ready (finishes : eager = false → Finishes less key finish) (good : Nat) {x : α}
    {rest : List α} (compares : Compares less key (x :: rest)) :
    ∃ run, firstRun less good eager x rest = some run ∧ run.Ready less key finish := by
  dsimp only [firstRun]
  split
  · exact ⟨_, rfl, .of_ascends (naturalRun_ascends compares)⟩
  · cases eager with
    | false => exact ⟨_, rfl, .of_finishes (finishes rfl) _⟩
    | true =>
        obtain ⟨items, sorted, ascends⟩ := sortShort_ascends
          (compares.subset fun _ => List.mem_of_mem_take : Compares less key
            ((x :: rest).take shortLimit))
        rw [if_pos rfl, sorted]
        exact ⟨_, rfl, .of_ascends ascends⟩

theorem cut_ready (finishes : eager = false → Finishes less key finish) (good : Nat)
    {items : List α} (compares : Compares less key items) :
    ∃ runs, cut less good eager items = some runs ∧ ∀ run ∈ runs, run.Ready less key finish := by
  induction length : items.length using Nat.strong_induction_on generalizing items with
  | _ size ih =>
      cases items with
      | nil => exact ⟨[], by rw [cut], List.forall_mem_nil _⟩
      | cons x rest =>
          obtain ⟨run, first, ready⟩ := firstRun_ready finishes good compares
          have shorter : (rest.drop (run.size - 1)).length < size := by
            rw [← length, List.length_drop, List.length_cons]
            omega
          have within : Compares less key (rest.drop (run.size - 1)) :=
            compares.subset fun _ member => List.mem_cons_of_mem x (List.mem_of_mem_drop member)
          obtain ⟨others, later, readyOthers⟩ := ih _ shorter within rfl
          refine ⟨run :: others, ?_, List.forall_mem_cons.mpr ⟨ready, readyOthers⟩⟩
          rw [cut, first, Option.bind_eq_bind, Option.bind_some, later]
          rfl

theorem Run.Ready.finished {run : Run α} (ready : run.Ready less key finish)
    (compares : Compares less key run.items) :
    ∃ out, run.finished finish = some out ∧ Ascends key out := by
  cases sorted : run.sorted with
  | true => exact ⟨run.items, by rw [Run.finished, if_pos sorted], ready.ascends sorted⟩
  | false =>
      obtain ⟨out, finished, ascends⟩ := ready.finishes sorted run.items compares
      refine ⟨out, ?_, ascends⟩
      rw [Run.finished, sorted]
      exact finished

variable (permutes : Permutes finish)
include permutes

theorem join_ready {left right : Run α} (readyLeft : left.Ready less key finish)
    (readyRight : right.Ready less key finish)
    (compares : Compares less key (left.items ++ right.items)) :
    ∃ joined, join finish less left right = some joined ∧ joined.Ready less key finish := by
  by_cases either : (left.sorted || right.sorted) = true
  · obtain ⟨first, finishedFirst, ascendsFirst⟩ := readyLeft.finished
      (compares.subset fun _ => List.mem_append_left _)
    obtain ⟨second, finishedSecond, ascendsSecond⟩ := readyRight.finished
      (compares.subset fun _ => List.mem_append_right _)
    refine ⟨⟨mergeSorted less first second, true⟩, ?_, .of_ascends ?_⟩
    · rw [join, if_pos either, finishedFirst, finishedSecond]
      rfl
    · refine mergeSorted_ascends (compares.perm ?_) ascendsFirst ascendsSecond
      exact (finished_perm permutes finishedFirst).append (finished_perm permutes finishedSecond)
  · have unsorted : left.sorted = false := by
      rw [Bool.or_eq_true, not_or] at either
      exact Bool.eq_false_of_not_eq_true either.1
    exact ⟨⟨left.items ++ right.items, false⟩, by rw [join, if_neg either],
      .of_finishes (readyLeft.finishes unsorted) _⟩

theorem collapse_ready (depth : Nat) {stack : List (Waiting α)} {run : Run α}
    (waiting : ∀ w ∈ stack, w.run.Ready less key finish) (ready : run.Ready less key finish)
    (compares : Compares less key (waitingItems stack ++ run.items)) :
    ∃ left joined, collapse finish less depth stack run = some (left, joined) ∧
      (∀ w ∈ left, w.run.Ready less key finish) ∧ joined.Ready less key finish := by
  induction stack generalizing run with
  | nil => exact ⟨[], run, rfl, waiting, ready⟩
  | cons top stack ih =>
      obtain ⟨readyTop, waiting'⟩ := List.forall_mem_cons.mp waiting
      rw [collapse]
      split
      · have inside : Compares less key (top.run.items ++ run.items) := by
          refine compares.subset fun x member => ?_
          simp only [waitingItems, List.flatMap_cons, List.mem_append] at member ⊢
          tauto
        obtain ⟨both, joins, readyBoth⟩ := join_ready permutes readyTop ready inside
        have perm := join_perm permutes joins
        obtain ⟨left, joined, collapsed, rest⟩ := ih waiting' readyBoth (by
          refine compares.subset fun x member => ?_
          rw [List.mem_append, perm.mem_iff] at member
          simp only [waitingItems, List.flatMap_cons, List.mem_append] at member ⊢
          tauto)
        exact ⟨left, joined, by rw [joins]; exact collapsed, rest⟩
      · exact ⟨top :: stack, run, rfl, waiting, ready⟩

theorem joinAll_ready (size : Nat) {stack : List (Waiting α)}
    (waiting : ∀ w ∈ stack, w.run.Ready less key finish) (start : Nat) {run : Run α}
    {runs : List (Run α)} (ready : run.Ready less key finish)
    (others : ∀ run ∈ runs, run.Ready less key finish)
    (compares : Compares less key
      (waitingItems stack ++ (run.items ++ runs.flatMap Run.items))) :
    ∃ joined, joinAll finish less size stack start run runs = some joined ∧
      joined.Ready less key finish := by
  induction runs generalizing stack start run with
  | nil =>
      rw [List.flatMap_nil, List.append_nil] at compares
      obtain ⟨left, joined, collapsed, -, readyJoined⟩ :=
        collapse_ready permutes 0 waiting ready compares
      exact ⟨joined, by rw [joinAll, collapsed]; rfl, readyJoined⟩
  | cons next rest ih =>
      obtain ⟨readyNext, others⟩ := List.forall_mem_cons.mp others
      have inside : Compares less key (waitingItems stack ++ run.items) := by
        refine compares.subset fun x member => ?_
        rw [← List.append_assoc]
        exact List.mem_append_left _ member
      let depth := boundaryDepth size start (start + run.size) (start + run.size + next.size)
      obtain ⟨left, joined, collapsed, readyLeft, readyJoined⟩ :=
        collapse_ready permutes depth waiting ready inside
      have perm := collapse_perm permutes collapsed
      have readyStack : ∀ w ∈ (⟨joined, depth⟩ :: left : List (Waiting α)),
          w.run.Ready less key finish := List.forall_mem_cons.mpr ⟨readyJoined, readyLeft⟩
      obtain ⟨last, joins, readyLast⟩ := ih readyStack (start + run.size) readyNext others (by
        refine compares.subset fun x member => ?_
        have same : x ∈ waitingItems left ∨ x ∈ joined.items ↔
            x ∈ waitingItems stack ∨ x ∈ run.items := by
          rw [← List.mem_append, ← List.mem_append, perm.mem_iff]
        simp only [waitingItems, List.flatMap_cons, List.mem_append] at member same ⊢
        tauto)
      refine ⟨last, ?_, readyLast⟩
      rw [joinAll, Option.bind_eq_bind, collapsed]
      exact joins

theorem sortRuns_ascends (finishes : eager = false → Finishes less key finish) {items : List α}
    (compares : Compares less key items) :
    ∃ out, sortRuns finish less eager items = some out ∧ Ascends key out := by
  obtain ⟨runs, cuts, ready⟩ := cut_ready finishes (goodLength items.length) compares
  have pieces := cut_perm cuts
  cases runs with
  | nil => exact ⟨[], by rw [sortRuns, cuts]; rfl, List.Pairwise.nil⟩
  | cons first rest =>
      obtain ⟨readyFirst, readyRest⟩ := List.forall_mem_cons.mp ready
      obtain ⟨joined, joins, readyJoined⟩ := joinAll_ready permutes items.length
        (List.forall_mem_nil _) 0 readyFirst readyRest (compares.perm pieces)
      obtain ⟨out, finished, ascends⟩ := readyJoined.finished
        (compares.perm ((joinAll_perm permutes joins).trans pieces))
      refine ⟨out, ?_, ascends⟩
      rw [sortRuns, cuts, Option.bind_eq_bind, Option.bind_some]
      dsimp only
      rw [joins]
      exact finished

end

/-! ## Partition -/

theorem medianOfThree_lt (order : Nat → Nat → Bool) {a b c bound : Nat} (first : a < bound)
    (second : b < bound) (third : c < bound) : medianOfThree order a b c < bound := by
  unfold medianOfThree
  split
  · split <;> assumption
  · exact first

/-- The position of the pivot lies in one of the three stretches that are looked at. -/
theorem medianFrom_lt (order : Nat → Nat → Bool) {span bound : Nat} (positive : 0 < span)
    {a b c : Nat} (first : a + span ≤ bound) (second : b + span ≤ bound)
    (third : c + span ≤ bound) : medianFrom order span a b c < bound := by
  induction span using Nat.strong_induction_on generalizing a b c with
  | _ span ih =>
      rw [medianFrom]
      split
      · next long =>
          have each : ∀ p, p + span ≤ bound →
              medianFrom order (span / 8) p (p + span / 8 * 4) (p + span / 8 * 7) < bound :=
            fun p room => ih (span / 8) (by omega) (by omega) (by omega) (by omega) (by omega)
          exact medianOfThree_lt order (each a first) (each b second) (each c third)
      · exact medianOfThree_lt order (by omega) (by omega) (by omega)

theorem pivotPosition_lt {items : List α} (long : shortLimit < items.length) :
    pivotPosition less items < items.length := by
  unfold shortLimit at long
  exact medianFrom_lt _ (by omega) (by omega) (by omega) (by omega)

theorem ascends_of_equal {items : List α} {bound : κ} (equal : ∀ x ∈ items, key x = bound) :
    Ascends key items :=
  List.pairwise_of_forall_mem_list fun x memberX y memberY =>
    (equal x memberX).trans_le (equal y memberY).ge

/-- Two lists around a bound ascend one behind the other. -/
theorem ascends_append {front back : List α} {bound : κ} (ascendsFront : Ascends key front)
    (ascendsBack : Ascends key back) (below : ∀ x ∈ front, key x ≤ bound)
    (above : ∀ x ∈ back, bound ≤ key x) : Ascends key (front ++ back) :=
  List.pairwise_append.mpr ⟨ascendsFront, ascendsBack, fun x memberX y memberY =>
    (below x memberX).trans (above y memberY)⟩

/-- Partition `limit` levels deep sorts every list that lies at or above its ancestor. -/
def SortsAround (less : α → α → Bool) (key : α → κ) (limit : Nat) : Prop :=
  ∀ ⦃ancestor : Option α⦄ ⦃items : List α⦄, Compares less key (ancestor.toList ++ items) →
    (∀ a ∈ ancestor, ∀ x ∈ items, key a ≤ key x) →
    ∃ out, sortAround less limit ancestor items = some out ∧ Ascends key out

section
variable {before after : List α} {pivot x : α} {p : α → Bool}

theorem mem_filter_others (pivot : α) (member : x ∈ (before ++ after).filter p) :
    x ∈ before ++ pivot :: after ∧ p x = true := by
  simp only [List.mem_filter, List.mem_append, List.mem_cons] at member ⊢
  tauto

theorem mem_filter_around (member : x ∈ before.filter p ++ pivot :: after.filter p) :
    x ∈ before ++ pivot :: after ∧ (x = pivot ∨ p x = true) := by
  simp only [List.mem_filter, List.mem_append, List.mem_cons] at member ⊢
  tauto

variable {ancestor : Option α} {limit : Nat}

/-- A pivot that nothing is below, or that is not above the ancestor, is a least element: the
ancestor is below all elements itself. -/
theorem pivot_least (compares : Compares less key (ancestor.toList ++ (before ++ pivot :: after)))
    (bound : ∀ a ∈ ancestor, ∀ x ∈ before ++ pivot :: after, key a ≤ key x)
    (least : (((before ++ after).filter fun x => less x pivot).isEmpty
      || ancestor.any fun a => !less a pivot) = true) :
    ∀ x ∈ before ++ pivot :: after, key pivot ≤ key x := by
  have pivotIn : pivot ∈ ancestor.toList ++ (before ++ pivot :: after) := by simp
  intro x member
  rcases Bool.or_eq_true_iff.mp least with noneBelow | notAbove
  · have cover : x = pivot ∨ x ∈ before ++ after := by
      simp only [List.mem_append, List.mem_cons] at member ⊢
      tauto
    rcases cover with rfl | other
    · exact le_rfl
    · rw [List.isEmpty_iff, List.filter_eq_nil_iff] at noneBelow
      refine (compares.false_iff (List.mem_append_right _ member) pivotIn).mp ?_
      simpa using noneBelow x other
  · obtain ⟨a, same, notAbove⟩ := (Option.any_eq_true _ _).mp notAbove
    cases same
    have pivotBelow : key pivot ≤ key a :=
      (compares.false_iff (by simp) pivotIn).mp (by simpa using notAbove)
    exact pivotBelow.trans (bound a rfl x member)

/-- Around a least element: what is equal to it, then what is above it, sorted. -/
theorem setApart_ascends (sorts : SortsAround less key limit)
    (compares : Compares less key (before ++ pivot :: after))
    (least : ∀ x ∈ before ++ pivot :: after, key pivot ≤ key x) :
    ∃ out, sortAround less limit none ((before ++ after).filter fun x => less pivot x) = some out ∧
      Ascends key (before.filter (fun x => !less pivot x)
        ++ pivot :: after.filter (fun x => !less pivot x) ++ out) := by
  have comparesAbove : Compares less key ((before ++ after).filter fun x => less pivot x) :=
    compares.subset fun x member => (mem_filter_others pivot member).1
  obtain ⟨out, sorted, ascends⟩ := @sorts none _ comparesAbove nofun
  have same : ∀ x ∈ before.filter (fun x => !less pivot x)
      ++ pivot :: after.filter (fun x => !less pivot x), key x = key pivot := by
    intro x member
    obtain ⟨inside, rfl | notAbove⟩ := mem_filter_around member
    · rfl
    · rw [Bool.not_eq_true', compares.false_iff (by simp) inside] at notAbove
      exact le_antisymm notAbove (least x inside)
  refine ⟨out, sorted, ascends_append (ascends_of_equal same) ascends
    (fun x member => (same x member).le) fun x member => ?_⟩
  exact least x (mem_filter_others pivot ((sortAround_perm sorted).mem_iff.mp member)).1

/-- Around any element: what is below it, sorted, then the rest, sorted with the element as its
ancestor. -/
theorem divided_ascends (sorts : SortsAround less key limit)
    (compares : Compares less key (ancestor.toList ++ (before ++ pivot :: after)))
    (bound : ∀ a ∈ ancestor, ∀ x ∈ before ++ pivot :: after, key a ≤ key x) :
    ∃ front back,
      sortAround less limit ancestor ((before ++ after).filter fun x => less x pivot) =
        some front ∧
      sortAround less limit (some pivot) (before.filter (fun x => !less x pivot)
        ++ pivot :: after.filter (fun x => !less x pivot)) = some back ∧
      Ascends key (front ++ back) := by
  have own : Compares less key (before ++ pivot :: after) :=
    compares.subset fun _ => List.mem_append_right _
  have pivotIn : pivot ∈ before ++ pivot :: after := by simp
  have comparesFront : Compares less key
      (ancestor.toList ++ (before ++ after).filter fun x => less x pivot) := by
    refine compares.subset fun x member => ?_
    rcases List.mem_append.mp member with isAncestor | isBelow
    · exact List.mem_append_left _ isAncestor
    · exact List.mem_append_right _ (mem_filter_others pivot isBelow).1
  have comparesBack : Compares less key ((some pivot).toList
      ++ (before.filter (fun x => !less x pivot)
        ++ pivot :: after.filter (fun x => !less x pivot))) := by
    refine own.subset fun x member => ?_
    rcases List.mem_append.mp member with isPivot | isRest
    · rwa [List.mem_singleton.mp isPivot]
    · exact (mem_filter_around isRest).1
  have above : ∀ x ∈ before.filter (fun x => !less x pivot)
      ++ pivot :: after.filter (fun x => !less x pivot), key pivot ≤ key x := by
    intro x member
    obtain ⟨inside, rfl | notBelow⟩ := mem_filter_around member
    · exact le_rfl
    · exact (own.false_iff inside pivotIn).mp (by simpa using notBelow)
  obtain ⟨front, sortedFront, ascendsFront⟩ := sorts comparesFront fun a same x member =>
    bound a same x (mem_filter_others pivot member).1
  obtain ⟨back, sortedBack, ascendsBack⟩ := sorts comparesBack fun a same => by
    cases same
    exact above
  refine ⟨front, back, sortedFront, sortedBack, ascends_append ascendsFront ascendsBack
    (fun x member => ?_) fun x member => above x ((sortAround_perm sortedBack).mem_iff.mp member)⟩
  obtain ⟨inside, isBelow⟩ :=
    mem_filter_others pivot ((sortAround_perm sortedFront).mem_iff.mp member)
  exact ((own x inside pivot pivotIn).mp isBelow).le

end

theorem sortsAround (limit : Nat) : SortsAround less key limit := by
  induction limit with
  | zero =>
      intro ancestor items compares _
      have own : Compares less key items := compares.subset fun _ => List.mem_append_right _
      rw [sortAround]
      split
      · exact sortShort_ascends own
      · refine sortRuns_ascends permutes_some ?_ own
        intro eager
        cases eager
  | succ limit ih =>
      intro ancestor items compares bound
      have own : Compares less key items := compares.subset fun _ => List.mem_append_right _
      rw [sortAround]
      split
      · exact sortShort_ascends own
      · next long =>
          have inside : pivotPosition less items < items.length := pivotPosition_lt (not_le.mp long)
          have whole := List.take_append_drop (pivotPosition less items) items
          dsimp only
          rw [List.drop_eq_getElem_cons inside] at whole ⊢
          generalize items[pivotPosition less items] = pivot at whole ⊢
          generalize items.take (pivotPosition less items) = before at whole ⊢
          generalize items.drop (pivotPosition less items + 1) = after at whole ⊢
          subst whole
          dsimp only
          split
          · next least =>
              obtain ⟨out, sorted, ascends⟩ :=
                setApart_ascends ih own (pivot_least compares bound least)
              rw [sorted]
              exact ⟨_, rfl, ascends⟩
          · obtain ⟨front, back, sortedFront, sortedBack, ascends⟩ :=
              divided_ascends ih compares bound
            rw [sortedFront, sortedBack]
            exact ⟨_, rfl, ascends⟩

theorem sort_ascends {items : List α} (compares : Compares less key items) :
    ∃ out, sort less items = some out ∧ Ascends key out := by
  unfold sort
  split
  · exact ⟨_, rfl, insertAll_ascends compares List.Pairwise.nil⟩
  · refine sortRuns_ascends (fun _ _ => sortAround_perm) (fun _ items own => ?_) compares
    have sorts : SortsAround less key (2 * items.length.log2) := sortsAround _
    exact @sorts none items own nofun

end EcatDevice.Sorting
