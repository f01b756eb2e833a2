import EcatDevice.Sorting.Stable
import Mathlib.Data.Multiset.AddSub
import Mathlib.Tactic

/-! # Sorting permutes

Whatever the comparison, a sorted list has exactly the elements of the list that was given. This
holds of comparisons that contradict each other, too: then there may be no answer, but an answer
neither loses nor repeats an element.
-/

namespace EcatDevice.Sorting

open List (Perm perm_middle)

variable {α : Type} (less : α → α → Bool)

/-! ## Insertion -/

theorem insertDescending_perm (x : α) (items : List α) :
    (insertDescending less x items).Perm (x :: items) := by
  induction items with
  | nil => exact .refl _
  | cons y rest ih =>
      rw [insertDescending]
      split
      · exact (ih.cons y).trans (.swap x y rest)
      · exact .refl _

theorem foldl_insertDescending_perm (descending more : List α) :
    (more.foldl (fun descending x => insertDescending less x descending) descending).Perm
      (descending ++ more) := by
  induction more generalizing descending with
  | nil => rw [List.append_nil]; exact .refl _
  | cons x rest ih =>
      exact (ih _).trans (((insertDescending_perm less x descending).append_right rest).trans
        perm_middle.symm)

theorem insertAll_perm (ascending more : List α) :
    (insertAll less ascending more).Perm (ascending ++ more) :=
  (List.reverse_perm _).trans ((foldl_insertDescending_perm less _ more).trans
    ((List.reverse_perm ascending).append_right more))

theorem lower_upper_perm (x y : α) (rest : List α) :
    (lower less x y :: upper less x y :: rest).Perm (x :: y :: rest) := by
  unfold lower upper
  split
  · exact .swap x y rest
  · exact .refl _

theorem mergePairs_perm (a b c d : α) : (mergePairs less a b c d).Perm [a, b, c, d] := by
  have rotate : ∀ x y z : α, [x, y, z].Perm [z, x, y] := fun x y z =>
    (List.perm_append_comm : ([x, y] ++ [z]).Perm ([z] ++ [x, y]))
  unfold mergePairs
  split
  · exact (lower_upper_perm less b c [d]).cons a
  · exact ((lower_upper_perm less c d [b]).trans (rotate c d b)).cons a
  · refine ((lower_upper_perm less a b [d]).cons c).trans ((Perm.swap a c [b, d]).trans ?_)
    exact (Perm.swap b c [d]).cons a
  · refine ((lower_upper_perm less a d [b]).cons c).trans ((Perm.swap a c [d, b]).trans ?_)
    exact (rotate c d b).cons a

theorem sortFour_perm (a b c d : α) : (sortFour less a b c d).Perm [a, b, c, d] :=
  (mergePairs_perm less _ _ _ _).trans
    ((lower_upper_perm less a b _).trans (((lower_upper_perm less c d []).cons b).cons a))

theorem sortHalf_perm (long : Bool) (items : List α) : (sortHalf less long items).Perm items := by
  unfold sortHalf
  split
  · split
    · next a b c d rest _ =>
        exact (insertAll_perm less _ rest).trans ((sortFour_perm less a b c d).append_right rest)
    · exact insertAll_perm less [] _
  · exact insertAll_perm less [] _

/-! ## Merging from both ends -/

variable {less}

/-- One end of a merge: so many elements of the left list, the others of the right one. -/
structure Took (count : Nat) (left right : List α) (taken : List α × Nat) : Prop where
  few : taken.2 ≤ count
  perm : taken.1.Perm (left.take taken.2 ++ right.take (count - taken.2))

/-- An end of a merge stops only when nothing more is asked of it. -/
theorem eq_zero_of_ended {count : Nat} {left right : List α} (enough : count ≤ left.length)
    (enoughRight : count ≤ right.length)
    (ended : ∀ (rest : Nat) (x : α) (others : List α) (y : α) (more : List α),
      count = rest + 1 → left = x :: others → right = y :: more → False) : count = 0 := by
  match count, left, right with
  | 0, _, _ => rfl
  | count + 1, [], _ => cases enough
  | count + 1, _ :: _, [] => cases enoughRight
  | count + 1, x :: left, y :: right => exact (ended count x left y right rfl rfl rfl).elim

theorem takeFront_took {count : Nat} {left right : List α} (enough : count ≤ left.length)
    (enoughRight : count ≤ right.length) :
    Took count left right (takeFront less count left right) := by
  fun_induction takeFront less count left right with
  | case1 count x left y right isLess taken ih =>
      obtain ⟨few, perm⟩ := ih (Nat.le_of_succ_le enough) (Nat.le_of_succ_le_succ enoughRight)
      refine ⟨Nat.le_succ_of_le few, ?_⟩
      rw [Nat.succ_sub few, List.take_succ_cons]
      exact (perm.cons y).trans perm_middle.symm
  | case2 count x left y right notLess taken ih =>
      obtain ⟨few, perm⟩ := ih (Nat.le_of_succ_le_succ enough) (Nat.le_of_succ_le enoughRight)
      refine ⟨Nat.succ_le_succ few, ?_⟩
      rw [Nat.succ_sub_succ, List.take_succ_cons]
      exact perm.cons x
  | case3 count left right ended =>
      rw [eq_zero_of_ended enough enoughRight ended]
      exact ⟨Nat.le_refl 0, .refl _⟩

theorem three_parts (items : List α) (i count : Nat) :
    items.take i ++ ((items.drop i).take count ++ items.drop (i + count)) = items := by
  rw [← List.drop_drop, List.take_append_drop, List.take_append_drop]

theorem mergeInward_perm {left right items : List α} (lower : left.length ≤ right.length)
    (upper : right.length ≤ left.length + 1) (merged : mergeInward less left right = some items) :
    items.Perm (left ++ right) := by
  have front : Took left.length left right (takeFront less left.length left right) :=
    takeFront_took le_rfl lower
  have back : Took left.length right.reverse left.reverse
      (takeFront (fun x y => less y x) left.length right.reverse left.reverse) :=
    takeFront_took (by rwa [List.length_reverse]) (by rw [List.length_reverse])
  dsimp only [mergeInward] at merged
  generalize takeFront less left.length left right = taken at front merged
  generalize takeFront (fun x y => less y x) left.length right.reverse left.reverse = last
    at back merged
  obtain ⟨few, front⟩ := front
  obtain ⟨fewBack, back⟩ := back
  rw [List.take_reverse, List.take_reverse] at back
  have back := (List.reverse_perm last.1).trans
    (back.trans ((List.reverse_perm _).append (List.reverse_perm _)))
  -- Where the ends meet, they leave a piece of the right list between them; where they miss by one,
  -- a single element of the left list.
  split at merged
  · next meet =>
      cases merged
      rw [meet] at back
      have own : left.length - (left.length - taken.2) = taken.2 := by omega
      have rest : right.length - taken.2 =
          left.length - taken.2 + (right.length - left.length) := by omega
      rw [own, rest] at back
      have whole := congrArg₂ (· ++ ·) (List.take_append_drop taken.2 left)
        (three_parts right (left.length - taken.2) (right.length - left.length))
      refine ((front.append_right _).append back).trans ?_
      rw [← whole, ← Multiset.coe_eq_coe]
      simp only [← Multiset.coe_add]
      abel
  · split at merged
    · next _ meet =>
        cases merged
        obtain ⟨longer, meet⟩ := meet
        rw [meet] at fewBack back
        have own : left.length - (left.length - (taken.2 + 1)) = taken.2 + 1 := by omega
        have rest : right.length - (taken.2 + 1) = left.length - taken.2 := by omega
        rw [own, rest] at back
        have whole := congrArg₂ (· ++ ·) (three_parts left taken.2 1)
          (List.take_append_drop (left.length - taken.2) right)
        refine ((front.append_right _).append back).trans ?_
        rw [← whole, ← Multiset.coe_eq_coe]
        simp only [← Multiset.coe_add]
        abel
    · cases merged

/-- The two halves of a list, each sorted, are of the lengths that can be merged and have its
elements. -/
theorem sortHalves_perm (less : α → α → Bool) (long : Bool) (items : List α) :
    (sortHalf less long (items.take (items.length / 2))).length = items.length / 2 ∧
      (sortHalf less long (items.drop (items.length / 2))).length =
        items.length - items.length / 2 ∧
      (sortHalf less long (items.take (items.length / 2))
        ++ sortHalf less long (items.drop (items.length / 2))).Perm items := by
  have left := sortHalf_perm less long (items.take (items.length / 2))
  have right := sortHalf_perm less long (items.drop (items.length / 2))
  have whole := left.append right
  rw [List.take_append_drop] at whole
  refine ⟨?_, ?_, whole⟩
  · rw [left.length_eq, List.length_take]
    omega
  · rw [right.length_eq, List.length_drop]

theorem sortShort_perm {items out : List α} (sorted : sortShort less items = some out) :
    out.Perm items := by
  dsimp only [sortShort] at sorted
  obtain ⟨lengthLeft, lengthRight, whole⟩ := sortHalves_perm less (8 ≤ items.length) items
  exact (mergeInward_perm (by omega) (by omega) sorted).trans whole

/-! ## Runs -/

theorem mergeSorted_perm (left right : List α) :
    (mergeSorted less left right).Perm (left ++ right) := by
  unfold mergeSorted
  split
  · exact List.merge_perm_append _
  · refine (List.reverse_perm _).trans ((List.merge_perm_append _).trans ?_)
    exact ((List.reverse_perm right).append (List.reverse_perm left)).trans List.perm_append_comm

theorem perm_take_length {items rest : List α} {x : α} {count : Nat} (positive : 0 < count)
    (perm : items.Perm ((x :: rest).take count)) :
    0 < items.length ∧ items.Perm ((x :: rest).take items.length) := by
  have length := perm.length_eq
  rw [List.length_take, List.length_cons] at length
  refine ⟨by omega, perm.trans ?_⟩
  rw [length, ← List.length_cons, ← List.take_eq_take_min]

/-- A run has the elements of the piece that it is cut from, and is never empty. -/
theorem firstRun_perm {good : Nat} {eager : Bool} {x : α} {rest : List α} {run : Run α}
    (made : firstRun less good eager x rest = some run) :
    0 < run.size ∧ run.items.Perm ((x :: rest).take run.size) := by
  have natural : ∃ count, 0 < count ∧
      (naturalRun less x rest).Perm ((x :: rest).take count) := by
    unfold naturalRun
    split
    · exact ⟨_, Nat.succ_pos _, List.reverse_perm _⟩
    · exact ⟨_, Nat.succ_pos _, .refl _⟩
  obtain ⟨count, positive, natural⟩ := natural
  dsimp only [firstRun] at made
  split at made
  · cases made
    exact perm_take_length positive natural
  · next short =>
      split at made
      · obtain ⟨items, sorted, rfl⟩ := Option.map_eq_some_iff.mp made
        exact perm_take_length (by decide) (sortShort_perm sorted)
      · cases made
        exact perm_take_length (by omega) (.refl _)

theorem cut_perm {good : Nat} {eager : Bool} {items : List α} {runs : List (Run α)}
    (made : cut less good eager items = some runs) : (runs.flatMap Run.items).Perm items := by
  -- What follows a run is shorter than the list, because no run is empty.
  induction length : items.length using Nat.strong_induction_on generalizing items runs with
  | _ size ih =>
      cases items with
      | nil =>
          rw [cut] at made
          cases made
          exact .refl _
      | cons x rest =>
          rw [cut] at made
          obtain ⟨run, first, made⟩ := Option.bind_eq_some_iff.mp made
          obtain ⟨others, later, made⟩ := Option.bind_eq_some_iff.mp made
          cases made
          obtain ⟨positive, perm⟩ := firstRun_perm first
          obtain ⟨count, whole⟩ := Nat.exists_eq_succ_of_ne_zero positive.ne'
          have shorter : (rest.drop (run.size - 1)).length < size := by
            rw [← length, List.length_drop, List.length_cons]
            omega
          have behind := ih _ shorter later rfl
          rw [whole] at perm behind
          have both := perm.append behind
          rwa [Nat.succ_sub_one, List.take_succ_cons, List.cons_append,
            List.take_append_drop] at both

/-! ## Joining -/

def Permutes (finish : List α → Option (List α)) : Prop :=
  ∀ items out, finish items = some out → out.Perm items

theorem permutes_some : Permutes (some : List α → Option (List α)) := by
  intro items out same
  cases same
  exact .refl _

def waitingItems (stack : List (Waiting α)) : List α :=
  stack.flatMap fun waiting => waiting.run.items

section
variable {finish : List α → Option (List α)} (permutes : Permutes finish)
include permutes

theorem finished_perm {run : Run α} {out : List α} (finished : run.finished finish = some out) :
    out.Perm run.items := by
  unfold Run.finished at finished
  split at finished
  · cases finished
    exact .refl _
  · exact permutes _ _ finished

theorem join_perm {left right joined : Run α} (made : join finish less left right = some joined) :
    joined.items.Perm (left.items ++ right.items) := by
  unfold join at made
  split at made
  · obtain ⟨first, finishedFirst, made⟩ := Option.bind_eq_some_iff.mp made
    obtain ⟨second, finishedSecond, made⟩ := Option.bind_eq_some_iff.mp made
    cases made
    exact (mergeSorted_perm first second).trans
      ((finished_perm permutes finishedFirst).append (finished_perm permutes finishedSecond))
  · cases made
    exact .refl _

theorem collapse_perm {depth : Nat} {stack left : List (Waiting α)} {run joined : Run α}
    (made : collapse finish less depth stack run = some (left, joined)) :
    (waitingItems left ++ joined.items).Perm (waitingItems stack ++ run.items) := by
  induction stack generalizing run with
  | nil =>
      cases made
      exact .refl _
  | cons top stack ih =>
      rw [collapse] at made
      split at made
      · obtain ⟨both, joins, made⟩ := Option.bind_eq_some_iff.mp made
        have inner := (join_perm permutes joins).append_left (waitingItems stack)
        refine (ih made).trans (inner.trans ?_)
        rw [waitingItems, waitingItems, List.flatMap_cons, List.append_assoc, ← List.append_assoc,
          ← List.append_assoc]
        exact List.perm_append_comm.append_right _
      · cases made
        exact .refl _

omit permutes in
/-- At the root nothing keeps waiting. -/
theorem collapse_root {stack left : List (Waiting α)} {run joined : Run α}
    (made : collapse finish less 0 stack run = some (left, joined)) : left = [] := by
  induction stack generalizing run with
  | nil =>
      cases made
      rfl
  | cons top stack ih =>
      rw [collapse, if_pos (Nat.zero_le _)] at made
      obtain ⟨both, _, made⟩ := Option.bind_eq_some_iff.mp made
      exact ih made

theorem joinAll_perm {size : Nat} {stack : List (Waiting α)} {start : Nat} {run joined : Run α}
    {runs : List (Run α)} (made : joinAll finish less size stack start run runs = some joined) :
    joined.items.Perm (waitingItems stack ++ (run.items ++ runs.flatMap Run.items)) := by
  induction runs generalizing stack start run with
  | nil =>
      rw [joinAll] at made
      obtain ⟨⟨left, _⟩, collapsed, rfl⟩ := Option.map_eq_some_iff.mp made
      have all := collapse_perm permutes collapsed
      cases collapse_root collapsed
      rwa [List.flatMap_nil, List.append_nil]
  | cons next rest ih =>
      rw [joinAll] at made
      obtain ⟨⟨left, both⟩, collapsed, made⟩ := Option.bind_eq_some_iff.mp made
      have all := (collapse_perm permutes collapsed).append_right
        (next.items ++ rest.flatMap Run.items)
      refine (ih made).trans (Perm.trans ?_ (all.trans ?_))
      · rw [waitingItems, List.flatMap_cons]
        exact List.perm_append_comm.append_right _
      · rw [List.flatMap_cons, List.append_assoc]

theorem sortRuns_perm {eager : Bool} {items out : List α}
    (sorted : sortRuns finish less eager items = some out) : out.Perm items := by
  obtain ⟨runs, cuts, sorted⟩ := Option.bind_eq_some_iff.mp sorted
  have pieces := cut_perm cuts
  cases runs with
  | nil =>
      cases sorted
      exact pieces
  | cons first rest =>
      obtain ⟨joined, joins, finished⟩ := Option.bind_eq_some_iff.mp sorted
      exact (finished_perm permutes finished).trans ((joinAll_perm permutes joins).trans pieces)

end

/-! ## Partition -/

theorem filter_around_perm (p : α → Bool) (before after : List α) (pivot : α) :
    (before.filter p ++ pivot :: after.filter p).Perm (pivot :: (before ++ after).filter p) := by
  rw [List.filter_append]
  exact perm_middle

theorem sortAround_perm {limit : Nat} {ancestor : Option α} {items out : List α}
    (sorted : sortAround less limit ancestor items = some out) : out.Perm items := by
  induction limit generalizing ancestor items out with
  | zero =>
      rw [sortAround] at sorted
      split at sorted
      · exact sortShort_perm sorted
      · exact sortRuns_perm permutes_some sorted
  | succ limit ih =>
      rw [sortAround] at sorted
      split at sorted
      · exact sortShort_perm sorted
      · dsimp only at sorted
        split at sorted
        · cases sorted
        · next pivot after behind =>
            generalize before_eq : items.take (pivotPosition less items) = before at sorted
            have whole := List.take_append_drop (pivotPosition less items) items
            rw [behind, before_eq] at whole
            rw [← whole]
            split at sorted
            · obtain ⟨above, sortedAbove, sorted⟩ := Option.bind_eq_some_iff.mp sorted
              cases sorted
              have equal := filter_around_perm (fun x => !less pivot x) before after pivot
              refine (equal.append (ih sortedAbove)).trans (Perm.trans ?_ perm_middle.symm)
              exact (List.perm_append_comm.trans (List.filter_append_perm _ _)).cons pivot
            · obtain ⟨below, sortedBelow, sorted⟩ := Option.bind_eq_some_iff.mp sorted
              obtain ⟨above, sortedAbove, sorted⟩ := Option.bind_eq_some_iff.mp sorted
              cases sorted
              have rest := filter_around_perm (fun x => !less x pivot) before after pivot
              refine ((ih sortedBelow).append ((ih sortedAbove).trans rest)).trans ?_
              refine perm_middle.trans (Perm.trans ?_ perm_middle.symm)
              exact (List.filter_append_perm _ _).cons pivot

/-- The elements of a sorted list are those of the list given. -/
theorem sort_perm {items out : List α} (sorted : sort less items = some out) :
    out.Perm items := by
  unfold sort at sorted
  split at sorted
  · cases sorted
    exact insertAll_perm less [] items
  · exact sortRuns_perm (fun _ _ => sortAround_perm) sorted

end EcatDevice.Sorting
