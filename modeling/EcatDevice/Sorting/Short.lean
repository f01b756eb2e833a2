/-! # Sorting short lists

All of sorting here is by a comparison `less`. If `less` is a strict weak order, there is only one
stable ascending arrangement of a list, and any way to find it is as good as another. The order of
values is not quite such an order: integers are compared exactly, but an integer and a real after
rounding, so a real may tie with two integers that differ. Then the arrangement depends on which
elements meet, so this is stated step by step.

Short lists are sorted by insertion, and lists of middling length as two halves that are merged from
both ends at once.
-/

namespace EcatDevice.Sorting

variable {α : Type}

/-- Puts `x` into a list that descends: behind the leading elements that are greater. -/
def insertDescending (less : α → α → Bool) (x : α) : List α → List α
  | [] => [x]
  | y :: rest => if less x y then y :: insertDescending less x rest else x :: y :: rest

/-- Puts further elements one by one into a list that ascends, each from the upper end. -/
def insertAll (less : α → α → Bool) (ascending more : List α) : List α :=
  (more.foldl (fun descending x => insertDescending less x descending) ascending.reverse).reverse

def lower (less : α → α → Bool) (x y : α) : α :=
  if less y x then y else x

def upper (less : α → α → Bool) (x y : α) : α :=
  if less y x then x else y

/-- Merges the ascending pairs `a`, `b` and `c`, `d`: the outer two are found first, then the inner
two are compared. -/
def mergePairs (less : α → α → Bool) (a b c d : α) : List α :=
  match less c a, less d b with
  | false, false => [a, lower less b c, upper less b c, d]
  | false, true => [a, lower less c d, upper less c d, b]
  | true, false => [c, lower less a b, upper less a b, d]
  | true, true => [c, lower less a d, upper less a d, b]

def sortFour (less : α → α → Bool) (a b c d : α) : List α :=
  mergePairs less (lower less a b) (upper less a b) (lower less c d) (upper less c d)

/-- Sorts one half of a list by insertion, in a long one behind its first four elements. -/
def sortHalf (less : α → α → Bool) (long : Bool) : List α → List α
  | a :: b :: c :: d :: rest =>
    if long then insertAll less (sortFour less a b c d) rest
    else insertAll less [] (a :: b :: c :: d :: rest)
  | few => insertAll less [] few

/-- The first `count` elements of a merge, the left ones first among equals, and how many of them
come from the left. -/
def takeFront (less : α → α → Bool) : Nat → List α → List α → List α × Nat
  | count + 1, x :: left, y :: right =>
    if less y x then
      let taken := takeFront less count (x :: left) right
      (y :: taken.1, taken.2)
    else
      let taken := takeFront less count left (y :: right)
      (x :: taken.1, taken.2 + 1)
  | _, _, _ => ([], 0)

/-- Merges two ascending lists from both ends at once, the right one as long as the left one or
longer by one. The elements between the ends are what neither end has taken; there is no answer if
the ends do not meet, which takes comparisons that contradict each other. -/
def mergeInward (less : α → α → Bool) (left right : List α) : Option (List α) :=
  let front := takeFront less left.length left right
  let back := takeFront (fun x y => less y x) left.length right.reverse left.reverse
  if back.2 = front.2 then
    some (front.1 ++ (right.drop (left.length - front.2)).take (right.length - left.length)
      ++ back.1.reverse)
  else if left.length < right.length ∧ back.2 = front.2 + 1 then
    some (front.1 ++ (left.drop front.2).take 1 ++ back.1.reverse)
  else none

def shortLimit : Nat := 32

/-- Sorts a list of at most `shortLimit` elements in two halves. -/
def sortShort (less : α → α → Bool) (items : List α) : Option (List α) :=
  let half := items.length / 2
  let long : Bool := 8 ≤ items.length
  mergeInward less (sortHalf less long (items.take half)) (sortHalf less long (items.drop half))

end EcatDevice.Sorting
