import EcatDevice.Sorting.Runs

/-! # Stable sorting

Lists of any length: short ones by insertion, longer ones by runs, and long unsorted runs by
partition around a pivot.
-/

namespace EcatDevice.Sorting

variable {α : Type}

/-! ## Partition -/

/-- The position of the median of three, by a comparison of positions. -/
def medianOfThree (less : Nat → Nat → Bool) (a b c : Nat) : Nat :=
  if less a b == less a c then
    if less b c == less a b then b else c
  else a

/-- The position of a median of medians: each of three positions stands for the `span` elements from
it on, as long as these are eight or more. -/
def medianFrom (less : Nat → Nat → Bool) (span a b c : Nat) : Nat :=
  if 8 ≤ span then
    let part := span / 8
    medianOfThree less
      (medianFrom less part a (a + part * 4) (a + part * 7))
      (medianFrom less part b (b + part * 4) (b + part * 7))
      (medianFrom less part c (c + part * 4) (c + part * 7))
  else medianOfThree less a b c
termination_by span
decreasing_by all_goals omega

def lessAt (less : α → α → Bool) (items : Array α) (i j : Nat) : Bool :=
  match items[i]?, items[j]? with
  | some x, some y => less x y
  | _, _ => false

def pivotPosition (less : α → α → Bool) (items : List α) : Nat :=
  let part := items.length / 8
  medianFrom (lessAt less items.toArray) part 0 (part * 4) (part * 7)

/-- Sorts a list by partition, `limit` levels deep; `ancestor` is the pivot that the list lies at or
above. A pivot that equals it, or that is a least element, is set apart with all its equals. -/
def sortAround (less : α → α → Bool) : Nat → Option α → List α → Option (List α)
  | 0, _, items =>
    if items.length ≤ shortLimit then sortShort less items else sortRuns some less true items
  | limit + 1, ancestor, items =>
    if items.length ≤ shortLimit then sortShort less items
    else
      let position := pivotPosition less items
      let before := items.take position
      match items.drop position with
      | [] => none
      | pivot :: after =>
        let below := (before ++ after).filter fun x => less x pivot
        if below.isEmpty || ancestor.any (fun a => !less a pivot) then do
          let equal := before.filter (fun x => !less pivot x)
            ++ pivot :: after.filter (fun x => !less pivot x)
          return equal ++ (← sortAround less limit none
            ((before ++ after).filter fun x => less pivot x))
        else do
          let rest := before.filter (fun x => !less x pivot)
            ++ pivot :: after.filter (fun x => !less x pivot)
          return (← sortAround less limit ancestor below)
            ++ (← sortAround less limit (some pivot) rest)

def sortLong (less : α → α → Bool) (items : List α) : Option (List α) :=
  sortAround less (2 * items.length.log2) none items

/-! ## All lengths -/

/-- Stable ascending sort. There is no answer if comparisons contradict each other in a way that
shows; they never do if `less` is a strict weak order. -/
def sort (less : α → α → Bool) (items : List α) : Option (List α) :=
  if items.length ≤ 20 then some (insertAll less [] items)
  else sortRuns (sortLong less) less (items.length ≤ 2 * shortLimit) items

end EcatDevice.Sorting
