import EcatDevice.Proofs.ObjectShape

/-! # Checked computations

Lists are worked off by steps that can fail, and the first failure ends the work. What is said here
is what holds when all steps gave a result, and which step fails when one does.
-/

namespace EcatDevice

theorem Except.eq_ok_of_toOption {α ε : Type} {x : Except ε α} {a : α}
    (given : x.toOption = some a) : x = .ok a := by
  cases x with
  | error e => cases given
  | ok b =>
      cases given
      rfl

/-- A result can be known by what is shown of it. -/
theorem Except.exists_ok_of_shown {α β ε : Type} {x : Except ε α} {view : α → β} {b : β}
    (shown : x.toOption.map view = some b) : ∃ a, x = .ok a ∧ view a = b := by
  obtain ⟨a, given, here⟩ := Option.map_eq_some_iff.mp shown
  exact ⟨a, eq_ok_of_toOption given, here⟩

section
variable {α σ ε : Type} {step : σ → α → Except ε σ}

/-- What every step keeps, a row of steps keeps. -/
theorem foldlM_keeps {P : σ → Prop} {items : List α}
    (keeps : ∀ state a next, a ∈ items → P state → step state a = .ok next → P next)
    {state next : σ} (start : P state) (made : items.foldlM step state = .ok next) : P next := by
  induction items generalizing state with
  | nil =>
      cases made
      exact start
  | cons a rest ih =>
      rw [List.foldlM_cons] at made
      obtain ⟨one, first, made⟩ := Except.bind_eq_ok made
      refine ih ?_ (keeps state a one List.mem_cons_self start first) made
      intro state b next member
      exact keeps state b next (List.mem_cons_of_mem a member)

end

theorem mapM_at {α β ε : Type} {f : α → Except ε β} {items : List α} {out : List β}
    (made : items.mapM f = .ok out) {i : Nat} {a : α} (found : items[i]? = some a) :
    ∃ b, f a = .ok b ∧ out[i]? = some b := by
  induction items generalizing i out with
  | nil => cases found
  | cons first rest ih =>
      rw [List.mapM_cons] at made
      obtain ⟨b, here, made⟩ := Except.bind_eq_ok made
      obtain ⟨others, later, made⟩ := Except.bind_eq_ok made
      cases made
      cases i with
      | zero =>
          cases found
          exact ⟨b, here, rfl⟩
      | succ i => exact ih later found

theorem mapM_mem {α β ε : Type} {f : α → Except ε β} {items : List α} {out : List β}
    (made : items.mapM f = .ok out) {b : β} (member : b ∈ out) : ∃ a ∈ items, f a = .ok b := by
  induction items generalizing out with
  | nil =>
      cases made
      cases member
  | cons first rest ih =>
      rw [List.mapM_cons] at made
      obtain ⟨here, one, made⟩ := Except.bind_eq_ok made
      obtain ⟨others, later, made⟩ := Except.bind_eq_ok made
      cases made
      rcases List.mem_cons.mp member with rfl | behind
      · exact ⟨first, List.mem_cons_self, one⟩
      · obtain ⟨a, present, given⟩ := ih later behind
        exact ⟨a, List.mem_cons_of_mem first present, given⟩

theorem mapM_forall₂ {α β ε : Type} {f : α → Except ε β} {items : List α} {out : List β}
    (made : items.mapM f = .ok out) : List.Forall₂ (fun a b => f a = .ok b) items out := by
  induction items generalizing out with
  | nil =>
      cases made
      exact .nil
  | cons a rest ih =>
      rw [List.mapM_cons] at made
      obtain ⟨b, here, made⟩ := Except.bind_eq_ok made
      obtain ⟨others, later, made⟩ := Except.bind_eq_ok made
      cases made
      exact .cons here (ih later)

theorem mapM_total {α β ε : Type} {f : α → Except ε β} {items : List α}
    (each : ∀ a ∈ items, ∃ b, f a = .ok b) : ∃ out, items.mapM f = .ok out := by
  induction items with
  | nil => exact ⟨[], rfl⟩
  | cons first rest ih =>
      obtain ⟨b, here⟩ := each first List.mem_cons_self
      obtain ⟨others, later⟩ := ih fun a member => each a (List.mem_cons_of_mem first member)
      refine ⟨b :: others, ?_⟩
      rw [List.mapM_cons, here, later]
      rfl

/-! ## Equal computations -/

theorem Except.bind_congr_ok {α β ε : Type} {x : Except ε α} {f g : α → Except ε β}
    (same : ∀ a, x = .ok a → f a = g a) : x >>= f = x >>= g := by
  cases x with
  | error e => rfl
  | ok a => exact same a rfl

theorem mapM_congr {α β ε : Type} {f g : α → Except ε β} {items : List α}
    (same : ∀ a ∈ items, f a = g a) : items.mapM f = items.mapM g := by
  induction items with
  | nil => rfl
  | cons a rest ih =>
      rw [List.mapM_cons, List.mapM_cons, same a List.mem_cons_self,
        ih fun b member => same b (List.mem_cons_of_mem a member)]

theorem foldlM_congr {α σ ε : Type} {f g : σ → α → Except ε σ} {items : List α}
    (same : ∀ state, ∀ a ∈ items, f state a = g state a) (state : σ) :
    items.foldlM f state = items.foldlM g state := by
  induction items generalizing state with
  | nil => rfl
  | cons a rest ih =>
      simp only [List.foldlM_cons, same state a List.mem_cons_self]
      congr 1
      funext next
      exact ih (fun state b member => same state b (List.mem_cons_of_mem a member)) next

/-! ## Equal failures -/

/-- Both computations fail with the same error, or neither does. -/
def FailAlike {α β ε : Type} (x : Except ε α) (y : Except ε β) : Prop :=
  ∀ e, x = .error e ↔ y = .error e

theorem FailAlike.refl {α ε : Type} (x : Except ε α) : FailAlike x x :=
  fun _ => Iff.rfl

theorem failAlike_ok {α β ε : Type} (a : α) (b : β) :
    FailAlike (.ok a : Except ε α) (.ok b : Except ε β) := by
  simp [FailAlike]

theorem FailAlike.ok_iff {α β ε : Type} {x : Except ε α} {y : Except ε β}
    (alike : FailAlike x y) : (∃ a, x = .ok a) ↔ ∃ b, y = .ok b := by
  cases x with
  | error e => simp [(alike e).mp rfl]
  | ok a =>
      cases y with
      | error e => cases (alike e).mpr rfl
      | ok b => simp

theorem FailAlike.bind {α β γ δ ε : Type} {x : Except ε α} {y : Except ε β}
    {f : α → Except ε γ} {g : β → Except ε δ} (alike : FailAlike x y)
    (next : ∀ a b, x = .ok a → y = .ok b → FailAlike (f a) (g b)) :
    FailAlike (x >>= f) (y >>= g) := by
  cases x with
  | error e =>
      cases (alike e).mp rfl
      simp [FailAlike, Bind.bind, Except.bind]
  | ok a =>
      obtain ⟨b, rfl⟩ := alike.ok_iff.mp ⟨a, rfl⟩
      exact next a b rfl rfl

theorem FailAlike.bind_same {α γ δ ε : Type} {x : Except ε α} {f : α → Except ε γ}
    {g : α → Except ε δ} (next : ∀ a, x = .ok a → FailAlike (f a) (g a)) :
    FailAlike (x >>= f) (x >>= g) := by
  apply FailAlike.bind (.refl x)
  intro a b first second
  cases first.symm.trans second
  exact next a first

/-! ## The first failure -/

/-- The first item that fails decides how the whole list fails. -/
theorem mapM_error_iff {α β ε : Type} {f : α → Except ε β} {items : List α} {e : ε} :
    items.mapM f = .error e ↔ ∃ before a after, items = before ++ a :: after ∧
      (∀ b ∈ before, ∃ out, f b = .ok out) ∧ f a = .error e := by
  induction items with
  | nil => simp [pure, Except.pure]
  | cons first rest ih =>
      rw [List.mapM_cons]
      cases here : f first with
      | error other =>
          simp only [bind, Except.bind, Except.error.injEq]
          constructor
          · rintro rfl
            exact ⟨[], first, rest, rfl, by simp, here⟩
          · rintro ⟨before, a, after, split, fine, failed⟩
            cases before with
            | nil =>
                cases split
                exact Except.error.inj (here.symm.trans failed)
            | cons b before =>
                cases split
                obtain ⟨out, made⟩ := fine first List.mem_cons_self
                cases here.symm.trans made
      | ok out =>
          have later : (rest.mapM f >>= fun outs => pure (out :: outs)) = .error e ↔
              rest.mapM f = .error e := by
            cases rest.mapM f <;> simp [bind, Except.bind, pure, Except.pure]
          simp only [bind, Except.bind] at later ⊢
          rw [later, ih]
          constructor
          · rintro ⟨before, a, after, rfl, fine, failed⟩
            exact ⟨first :: before, a, after, rfl, List.forall_mem_cons.mpr ⟨⟨out, here⟩, fine⟩,
              failed⟩
          · rintro ⟨before, a, after, split, fine, failed⟩
            cases before with
            | nil =>
                cases split
                cases here.symm.trans failed
            | cons b before =>
                cases split
                exact ⟨before, a, after, rfl, (List.forall_mem_cons.mp fine).2, failed⟩

theorem mapM_fails_iff {α β ε : Type} {f : α → Except ε β} {items : List α} :
    (∃ e, items.mapM f = .error e) ↔ ∃ a ∈ items, ∃ e, f a = .error e := by
  constructor
  · rintro ⟨e, failed⟩
    obtain ⟨before, a, after, rfl, -, here⟩ := mapM_error_iff.mp failed
    exact ⟨a, by simp, e, here⟩
  · rintro ⟨a, member, e, failed⟩
    cases each : items.mapM f with
    | error other => exact ⟨other, rfl⟩
    | ok out =>
        obtain ⟨i, found⟩ := List.mem_iff_getElem?.mp member
        obtain ⟨b, here, -⟩ := mapM_at each found
        cases here.symm.trans failed

/-! ## Rows of parts -/

section
variable {α β ε : Type} {part : α → Except ε (List β)}

/-- The parts of all items of a list, one behind the other. -/
def joined (part : α → Except ε (List β)) (items : List α) : Except ε (List β) :=
  return (← items.mapM part).flatten

theorem joined_of_mapM {items : List α} {parts : List (List β)}
    (each : items.mapM part = .ok parts) : joined part items = .ok parts.flatten := by
  rw [joined, each]
  rfl

theorem joined_nil {out : List β} (made : joined part [] = .ok out) : out = [] :=
  (Except.ok.inj made).symm

theorem joined_cons {a : α} {rest : List α} {out : List β} :
    joined part (a :: rest) = .ok out ↔
      ∃ first others, part a = .ok first ∧ joined part rest = .ok others ∧
        out = first ++ others := by
  unfold joined
  rw [List.mapM_cons]
  constructor
  · intro made
    obtain ⟨parts, made, whole⟩ := Except.bind_eq_ok made
    obtain ⟨first, here, made⟩ := Except.bind_eq_ok made
    obtain ⟨others, later, made⟩ := Except.bind_eq_ok made
    cases made
    cases whole
    exact ⟨first, others.flatten, here, by rw [later]; rfl, rfl⟩
  · rintro ⟨first, rest, here, written, rfl⟩
    obtain ⟨others, later, made⟩ := Except.bind_eq_ok written
    cases made
    rw [here, later]
    rfl

theorem joined_append {left right : List α} {out : List β} :
    joined part (left ++ right) = .ok out ↔
      ∃ front back, joined part left = .ok front ∧ joined part right = .ok back ∧
        out = front ++ back := by
  induction left generalizing out with
  | nil =>
      constructor
      · intro made
        exact ⟨[], out, rfl, made, rfl⟩
      · rintro ⟨front, back, none, made, rfl⟩
        rw [joined_nil none]
        exact made
  | cons a left ih =>
      rw [List.cons_append, joined_cons]
      constructor
      · rintro ⟨first, others, here, made, rfl⟩
        obtain ⟨front, back, later, behind, rfl⟩ := ih.mp made
        exact ⟨first ++ front, back, joined_cons.mpr ⟨first, front, here, later, rfl⟩, behind,
          (List.append_assoc first front back).symm⟩
      · rintro ⟨_, back, made, behind, rfl⟩
        obtain ⟨first, front, here, later, rfl⟩ := joined_cons.mp made
        exact ⟨first, front ++ back, here, ih.mpr ⟨front, back, later, behind, rfl⟩,
          List.append_assoc first front back⟩

theorem joined_ok_iff {items : List α} :
    (∃ out, joined part items = .ok out) ↔ ∀ a ∈ items, ∃ out, part a = .ok out := by
  induction items with
  | nil => exact ⟨fun _ => by simp, fun _ => ⟨[], rfl⟩⟩
  | cons a rest ih =>
      simp only [joined_cons, List.forall_mem_cons, ← ih]
      constructor
      · rintro ⟨out, first, others, here, later, -⟩
        exact ⟨⟨first, here⟩, others, later⟩
      · rintro ⟨⟨first, here⟩, others, later⟩
        exact ⟨first ++ others, first, others, here, later, rfl⟩

theorem joined_error_iff {items : List α} {e : ε} :
    joined part items = .error e ↔ ∃ before a after, items = before ++ a :: after ∧
      (∀ b ∈ before, ∃ out, part b = .ok out) ∧ part a = .error e := by
  rw [← mapM_error_iff, joined]
  cases items.mapM part <;> simp [bind, Except.bind, pure, Except.pure]

theorem joined_failAlike {γ : Type} {other : α → Except ε (List γ)} {items : List α}
    (alike : ∀ a ∈ items, FailAlike (part a) (other a)) :
    FailAlike (joined part items) (joined other items) := by
  intro e
  simp only [joined_error_iff]
  refine exists_congr fun before => exists_congr fun a => exists_congr fun after =>
    and_congr_right fun split => ?_
  subst split
  refine and_congr (forall₂_congr fun b earlier => ?_) (alike a (by simp) e)
  exact (alike b (List.mem_append_left _ earlier)).ok_iff

theorem joined_congr {other : α → Except ε (List β)} {items : List α}
    (same : ∀ a ∈ items, part a = other a) : joined part items = joined other items := by
  rw [joined, mapM_congr same, joined]

theorem length_joined {size : α → Nat}
    (each : ∀ a part', part a = .ok part' → part'.length = size a) {items : List α} {out : List β}
    (made : joined part items = .ok out) : out.length = totalOf size items := by
  induction items generalizing out with
  | nil =>
      rw [joined_nil made]
      rfl
  | cons a rest ih =>
      obtain ⟨first, others, here, later, rfl⟩ := joined_cons.mp made
      rw [List.length_append, each a first here, ih later, totalOf]

theorem totalOf_const {α : Type} (size : Nat) (items : List α) :
    totalOf (fun _ => size) items = size * items.length := by
  induction items with
  | nil => rfl
  | cons a rest ih => rw [totalOf, ih, List.length_cons, Nat.mul_succ, Nat.add_comm]

theorem length_joined_same {size : Nat}
    (each : ∀ a part', part a = .ok part' → part'.length = size) {items : List α} {out : List β}
    (made : joined part items = .ok out) : out.length = size * items.length :=
  (length_joined each made).trans (totalOf_const size items)

/-- Among parts of one size, each lies at its multiple of the size. -/
theorem joined_at {size : Nat} (each : ∀ a part', part a = .ok part' → part'.length = size)
    {items : List α} {out : List β} (made : joined part items = .ok out) {i : Nat} {a : α}
    (found : items[i]? = some a) :
    ∃ here rest, part a = .ok here ∧ out.drop (size * i) = here ++ rest := by
  obtain ⟨inside, rfl⟩ := List.getElem?_eq_some_iff.mp found
  rw [← List.take_append_drop i items, List.drop_eq_getElem_cons inside] at made
  obtain ⟨front, back, before, behind, rfl⟩ := joined_append.mp made
  obtain ⟨here, rest, packed, -, rfl⟩ := joined_cons.mp behind
  have place : front.length = size * i := by
    rw [length_joined_same each before, List.length_take]
    congr 1
    omega
  exact ⟨here, rest, packed, by rw [← place, List.drop_left]⟩

end

end EcatDevice
