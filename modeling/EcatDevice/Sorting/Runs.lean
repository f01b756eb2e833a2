import EcatDevice.Number.Rounding
import EcatDevice.Sorting.Short

/-! # Sorting by runs

A list is cut into runs from the left: a stretch that already ascends or descends if it is long
enough, else a piece of fixed length. Neighbouring runs are merged in the order of a balanced tree
over the positions of the list. A piece may be left unsorted until it meets a sorted run.
-/

namespace EcatDevice.Sorting

variable {α : Type}

/-- A stretch of neighbouring elements that are merged as one. -/
structure Run (α : Type) where
  items : List α
  sorted : Bool

def Run.size (run : Run α) : Nat := run.items.length

/-- The elements in order; `finish` sorts those of an unsorted run. -/
def Run.finished (finish : List α → Option (List α)) (run : Run α) : Option (List α) :=
  if run.sorted then some run.items else finish run.items

/-- Merges two ascending lists, the left elements first among equals: from the front if the left
list is no longer than the right one, else from the back. -/
def mergeSorted (less : α → α → Bool) (left right : List α) : List α :=
  if left.length ≤ right.length then List.merge left right (fun x y => !less y x)
  else (List.merge right.reverse left.reverse (fun y x => !less y x)).reverse

/-! ## Cutting -/

/-- How many elements behind `x` go on in the same way, each with its predecessor. -/
def stretch (follows : α → α → Bool) : α → List α → Nat
  | _, [] => 0
  | x, y :: rest => if follows x y then stretch follows y rest + 1 else 0

def startsDown (less : α → α → Bool) (x : α) : List α → Bool
  | [] => false
  | y :: _ => less y x

/-- The stretch at the head of a list that ascends, or descends without equals, in ascending
order. -/
def naturalRun (less : α → α → Bool) (x : α) (rest : List α) : List α :=
  if startsDown less x rest then
    ((x :: rest).take (stretch (fun p q => less q p) x rest + 1)).reverse
  else (x :: rest).take (stretch (fun p q => !less q p) x rest + 1)

/-- The first run of a list. A natural one counts from `good` elements on; instead of a shorter one
there is a piece that is sorted at once if `eager` and else left unsorted. -/
def firstRun (less : α → α → Bool) (good : Nat) (eager : Bool) (x : α) (rest : List α) :
    Option (Run α) :=
  let natural := naturalRun less x rest
  if good ≤ natural.length then some ⟨natural, true⟩
  else if eager then (sortShort less ((x :: rest).take shortLimit)).map fun items => ⟨items, true⟩
  else some ⟨(x :: rest).take good, false⟩

def cut (less : α → α → Bool) (good : Nat) (eager : Bool) : List α → Option (List (Run α))
  | [] => some []
  | x :: rest => do
    let run ← firstRun less good eager x rest
    return run :: (← cut less good eager (rest.drop (run.size - 1)))
termination_by items => items.length
decreasing_by
  rw [List.length_drop, List.length_cons]
  omega

/-- A whole number near the square root of `n`. -/
def rootEstimate (n : Nat) : Nat :=
  let half := (1 + n.log2) / 2
  (twoPower half + n / twoPower half) / 2

/-- From which length on a natural run of a list of `size` elements counts. -/
def goodLength (size : Nat) : Nat :=
  if size ≤ 4096 then min (size - size / 2) 64 else rootEstimate size

/-! ## Merging -/

/-- Joins two neighbouring runs. They are merged if one of them is sorted; two unsorted ones become
one unsorted run. -/
def join (finish : List α → Option (List α)) (less : α → α → Bool) (left right : Run α) :
    Option (Run α) :=
  if left.sorted || right.sorted then do
    return ⟨mergeSorted less (← left.finished finish) (← right.finished finish), true⟩
  else some ⟨left.items ++ right.items, false⟩

/-- Depth of the boundary at `middle`, between the runs from `start` and up to `stop`, in the tree
of merges over `size` elements: how many leading bits the centres of both runs have in common, as
fractions of the whole list. -/
def boundaryDepth (size start middle stop : Nat) : Nat :=
  let scale := (0x4000000000000000 + size - 1) / size
  let difference := scale * (start + middle) ^^^ scale * (middle + stop)
  if difference = 0 then 64 else 63 - difference.log2

/-- A run that waits for its right neighbour, with the depth of the boundary between them. -/
structure Waiting (α : Type) where
  run : Run α
  depth : Nat

/-- Joins a run to the runs waiting on its left, the nearest first, as long as their boundaries lie
as deep as `depth`. -/
def collapse (finish : List α → Option (List α)) (less : α → α → Bool) (depth : Nat) :
    List (Waiting α) → Run α → Option (List (Waiting α) × Run α)
  | [], run => some ([], run)
  | left :: stack, run =>
    if depth ≤ left.depth then do
      collapse finish less depth stack (← join finish less left.run run)
    else some (left :: stack, run)

/-- Joins all runs of a list of `size` elements: the waiting ones, `run`, which starts at `start`,
and the runs that follow. -/
def joinAll (finish : List α → Option (List α)) (less : α → α → Bool) (size : Nat) :
    List (Waiting α) → Nat → Run α → List (Run α) → Option (Run α)
  | stack, _, run, [] => (collapse finish less 0 stack run).map Prod.snd
  | stack, start, run, next :: rest => do
    let middle := start + run.size
    let depth := boundaryDepth size start middle (middle + next.size)
    let (stack, joined) ← collapse finish less depth stack run
    joinAll finish less size (⟨joined, depth⟩ :: stack) middle next rest

/-- Sorts a list by runs; `finish` sorts what stays unsorted. -/
def sortRuns (finish : List α → Option (List α)) (less : α → α → Bool) (eager : Bool)
    (items : List α) : Option (List α) := do
  match ← cut less (goodLength items.length) eager items with
  | [] => return []
  | first :: rest => (← joinAll finish less items.length [] 0 first rest).finished finish

end EcatDevice.Sorting
