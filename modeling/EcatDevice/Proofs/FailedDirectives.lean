import EcatDevice.Files.Tree
import EcatDevice.Make.Run

/-! # Failed directives

A directive that fails leaves no trace: the device and the files are as if it had not been there, so
running only the directives that succeed gives the same settings and the same files, without any
failure. The settings are kept by the copy that a generator works on. The files are kept because
each generator of the program writes at most one file, with nothing behind it that can fail, and a
write that fails changes nothing. Here the files are a state that directives run on one after the
other.
-/

namespace EcatDevice

variable {σ : Type}

/-- A write that fails leaves the files alone. -/
def Storage.FailsClean (storage : Storage (StateM σ)) : Prop :=
  ∀ path content files fault after,
    storage.write path content files = (.error fault, after) → after = files

namespace FileTree

theorem storage_write (tree : FileTree) (path : String) (content : Content) :
    storage.write path content tree =
      match tree.write path content with
      | .ok written => (.ok (), written)
      | .error fault => (.error fault, tree) := by
  unfold storage
  simp only [bind, StateT.bind, get, getThe, MonadStateOf.get, StateT.get, pure]
  cases tree.write path content <;> rfl

theorem storage_failsClean : storage.FailsClean := by
  intro path content tree fault after failed
  rw [storage_write] at failed
  split at failed
  · cases failed
  · exact (congrArg Prod.snd failed).symm

end FileTree

/-! ## Work step by step -/

section Work
variable {S α β : Type}

/-- The outcome of work on a state and files, with both as it leaves them. -/
def runWork (work : ExceptT Error (StateT S (StateM σ)) α) (state : S) (files : σ) :
    (Except Error α × S) × σ :=
  (work.run.run state).run files

variable {work : ExceptT Error (StateT S (StateM σ)) α}
  {next : α → ExceptT Error (StateT S (StateM σ)) β} {state after : S} {files written : σ}

theorem runWork_bind_ok {a : α} (first : runWork work state files = ((.ok a, after), written)) :
    runWork (work >>= next) state files = runWork (next a) after written := by
  unfold runWork at first ⊢
  rw [ExceptT.run_bind, StateT.run_bind, StateT.run_bind, first]
  rfl

theorem runWork_bind_error {e : Error}
    (first : runWork work state files = ((.error e, after), written)) :
    runWork (work >>= next) state files = ((.error e, after), written) := by
  unfold runWork at first ⊢
  rw [ExceptT.run_bind, StateT.run_bind, StateT.run_bind, first]
  rfl

/-- The work leaves the files alone. -/
def Quiet (work : ExceptT Error (StateT S (StateM σ)) α) : Prop :=
  ∀ state files, (runWork work state files).2 = files

/-- The work cannot fail. -/
def Sure (work : ExceptT Error (StateT S (StateM σ)) α) : Prop :=
  ∀ state files e, (runWork work state files).1.1 ≠ .error e

/-- The work leaves the files alone when it fails. -/
def FailsQuiet (work : ExceptT Error (StateT S (StateM σ)) α) : Prop :=
  ∀ state files e, (runWork work state files).1.1 = .error e → (runWork work state files).2 = files

theorem Quiet.bind (quiet : Quiet work) (later : ∀ a, FailsQuiet (next a)) :
    FailsQuiet (work >>= next) := by
  intro state files e failed
  have same := quiet state files
  cases first : runWork work state files with
  | mk left written =>
      obtain ⟨outcome, after⟩ := left
      have unchanged : written = files := by rwa [first] at same
      subst unchanged
      cases outcome with
      | error e => rw [runWork_bind_error first]
      | ok a =>
          rw [runWork_bind_ok first] at failed ⊢
          exact later a after written e failed

/-- Behind the first work that touches the files nothing may fail. -/
theorem FailsQuiet.bind (quiet : FailsQuiet work) (later : ∀ a, Sure (next a)) :
    FailsQuiet (work >>= next) := by
  intro state files e failed
  cases first : runWork work state files with
  | mk left written =>
      obtain ⟨outcome, after⟩ := left
      cases outcome with
      | error e =>
          have same := quiet state files e (by rw [first])
          rw [runWork_bind_error first]
          rwa [first] at same
      | ok a =>
          rw [runWork_bind_ok first] at failed
          exact absurd failed (later a after written e)

theorem quiet_get : Quiet (get : ExceptT Error (StateT S (StateM σ)) S) :=
  fun _ _ => rfl

theorem sure_modify (f : S → S) : Sure (modify f : ExceptT Error (StateT S (StateM σ)) Unit) :=
  fun _ _ _ => nofun

theorem runWork_liftExcept (outcome : Except Error α) (state : S) (files : σ) :
    runWork (liftExcept outcome : ExceptT Error (StateT S (StateM σ)) α) state files =
      ((outcome, state), files) := by
  cases outcome <;> rfl

theorem quiet_liftExcept (outcome : Except Error α) :
    Quiet (liftExcept outcome : ExceptT Error (StateT S (StateM σ)) α) := by
  intro state files
  rw [runWork_liftExcept]

theorem runWork_lift (action : StateM σ α) (state : S) (files : σ) :
    runWork (action : ExceptT Error (StateT S (StateM σ)) α) state files =
      ((.ok (action files).1, state), (action files).2) :=
  rfl

end Work

/-! ## Generators -/

section Generators
variable {storage : Storage (StateM σ)}

theorem writeArtifact_failsQuiet (clean : storage.FailsClean) (path : String) (content : Content) :
    FailsQuiet (writeArtifact storage path content) := by
  intro settings files e failed
  have first := runWork_lift (storage.write path content) settings files
  cases outcome : storage.write path content files with
  | mk result written =>
      rw [outcome] at first
      unfold writeArtifact at failed ⊢
      rw [runWork_bind_ok first] at failed ⊢
      cases result with
      | error fault => exact clean _ _ _ _ _ outcome
      | ok => cases failed

/-- The generators of the program on some storage, and those that touch nothing but the settings. -/
inductive Generator.Tame (storage : Storage (StateM σ)) : Generator (StateM σ) → Prop where
  | settings : Tame storage .settings
  | eeprom : Tame storage (.eeprom storage)
  | template : Tame storage (.template storage)
  | onSettings (name : String) (work : Request → Settings → Except Error Unit × Settings) :
      Tame storage (.onSettings name work)

theorem Registry.standard_tame : ∀ g ∈ standard storage, g.Tame storage := by
  intro g member
  simp only [standard, register, List.mem_cons, List.not_mem_nil, or_false] at member
  rcases member with rfl | rfl | rfl
  · exact .template
  · exact .eeprom
  · exact .settings

/-- A generator that fails may leave settings half changed, but never a file. -/
theorem Generator.Tame.failsQuiet {g : Generator (StateM σ)} (tame : g.Tame storage)
    (clean : storage.FailsClean) (request : Request) : FailsQuiet (g.make request) := by
  cases tame with
  | settings | onSettings => exact fun _ _ _ _ => rfl
  | eeprom =>
      refine quiet_get.bind fun settings => (quiet_liftExcept _).bind fun image => ?_
      exact (writeArtifact_failsQuiet clean _ _).bind fun _ => sure_modify _
  | template =>
      refine quiet_get.bind fun settings => (quiet_liftExcept _).bind fun text => ?_
      exact writeArtifact_failsQuiet clean _ _

end Generators

namespace Make

/-! ## One directive -/

/-- Why a directive fails on a device and files: nobody knows its generator, or the generator fails
on a copy of the settings, which it may have changed. -/
inductive Fails (w : Workshop (StateM σ)) (device : Device) (files : σ) (directive : Directive) :
    Error → Prop where
  | unknown (unknown : w.registry.find? directive.generator = none) :
      Fails w device files directive (.unknownGenerator directive.generator)
  | stopped {generator : Generator (StateM σ)} {e : Error} {left : Settings} {after : σ}
      (known : w.registry.find? directive.generator = some generator)
      (stopped : runWork (generator.make (w.request device directive)) device.settings files =
        ((.error e, left), after)) :
      Fails w device files directive e

/-- A directive succeeds on a device and files with these settings and files. -/
def Succeeds (w : Workshop (StateM σ)) (device : Device) (files : σ) (directive : Directive)
    (settings : Settings) (after : σ) : Prop :=
  ∃ generator, w.registry.find? directive.generator = some generator ∧
    runWork (generator.make (w.request device directive)) device.settings files =
      ((.ok (), settings), after)

theorem fails_or_succeeds (w : Workshop (StateM σ)) (device : Device) (files : σ)
    (directive : Directive) :
    (∃ e, Fails w device files directive e) ∨
      ∃ settings after, Succeeds w device files directive settings after := by
  cases known : w.registry.find? directive.generator with
  | none => exact .inl ⟨_, .unknown known⟩
  | some generator =>
      let work := generator.make (w.request device directive)
      cases outcome : runWork work device.settings files with
      | mk left after =>
          obtain ⟨result, settings⟩ := left
          cases result with
          | error e => exact .inl ⟨e, .stopped known outcome⟩
          | ok => exact .inr ⟨settings, after, generator, known, outcome⟩

section
variable {w : Workshop (StateM σ)} {device : Device} {files : σ} {directive : Directive}

/-- A known generator runs on a copy of the settings, which replaces them if it succeeds. -/
theorem runOne_of_known {generator : Generator (StateM σ)}
    (known : w.registry.find? directive.generator = some generator) {result : Except Error Unit}
    {settings : Settings} {after : σ}
    (outcome : runWork (generator.make (w.request device directive)) device.settings files =
      ((result, settings), after)) :
    runWork (runOne w directive) device files =
      ((result, if result.isOk then { device with settings } else device), after) := by
  have copied : runWork ((generator.make (w.request device directive)).run.run device.settings :
      ExceptT Error (StateT Device (StateM σ)) _) device files =
      ((.ok (result, settings), device), after) := by
    rw [runWork_lift]
    exact congrArg (fun out => ((Except.ok out.1, device), out.2)) outcome
  unfold runOne
  rw [known]
  refine (runWork_bind_ok (rfl : runWork get device files = _)).trans ?_
  refine (runWork_bind_ok copied).trans ?_
  have lifted := runWork_liftExcept result device after
  cases result with
  | error e => exact runWork_bind_error lifted
  | ok => exact runWork_bind_ok lifted

theorem runOne_of_fails {storage : Storage (StateM σ)} (clean : storage.FailsClean)
    (tame : ∀ g ∈ w.registry, g.Tame storage) {e : Error}
    (fails : Fails w device files directive e) :
    runWork (runOne w directive) device files = ((.error e, device), files) := by
  cases fails with
  | unknown unknown =>
      unfold runOne
      rw [unknown]
      rfl
  | stopped known stopped =>
      have quiet := (tame _ (List.mem_of_find?_eq_some known)).failsQuiet clean
        (w.request device directive) device.settings files e
      rw [stopped] at quiet
      cases quiet rfl
      exact runOne_of_known known stopped

theorem runOne_of_succeeds {settings : Settings} {after : σ}
    (succeeds : Succeeds w device files directive settings after) :
    runWork (runOne w directive) device files = ((.ok (), { device with settings }), after) := by
  obtain ⟨generator, known, made⟩ := succeeds
  exact runOne_of_known known made

theorem run_cons_error {e : Error} {rest : List Directive} {last : Device} {final : σ}
    {failures : List Failure}
    (outcome : runWork (runOne w directive) device files = ((.error e, device), files))
    (later : (run w rest).run device files = ((failures, last), final)) :
    (run w (directive :: rest)).run device files =
      (({ directive, error := e } :: failures, last), final) := by
  have first : ((runOne w directive).run.run device).run files = ((.error e, device), files) :=
    outcome
  have others : ((run w rest).run device).run files = ((failures, last), final) := later
  rw [run]
  change ((_ >>= _ : StateT Device (StateM σ) _).run device).run files = _
  rw [StateT.run_bind, StateT.run_bind, first]
  change ((_ >>= _ : StateT Device (StateM σ) _).run device).run files = _
  rw [StateT.run_bind, StateT.run_bind, others]
  rfl

theorem run_cons_ok {next : Device} {after : σ} {rest : List Directive}
    (outcome : runWork (runOne w directive) device files = ((.ok (), next), after)) :
    (run w (directive :: rest)).run device files = (run w rest).run next after := by
  have first : ((runOne w directive).run.run device).run files = ((.ok (), next), after) :=
    outcome
  rw [run]
  change ((_ >>= _ : StateT Device (StateM σ) _).run device).run files = _
  rw [StateT.run_bind, StateT.run_bind, first]
  rfl

end

/-! ## Histories -/

/-- A directive that had its turn, with the error it failed with, if it did. -/
structure Turn where
  directive : Directive
  error : Option Error

/-- The failure to report for a turn. -/
def Turn.failure? (turn : Turn) : Option Failure :=
  turn.error.map fun error => { directive := turn.directive, error }

/-- What directives do one after the other: a failed one changes nothing, any other changes the
settings and the files. -/
inductive History (w : Workshop (StateM σ)) :
    Device → σ → List Turn → Device → σ → Prop where
  | done {device : Device} {files : σ} : History w device files [] device files
  | failed {device last : Device} {files final : σ} {directive : Directive} {e : Error}
      {turns : List Turn} (fails : Fails w device files directive e)
      (later : History w device files turns last final) :
      History w device files ({ directive, error := some e } :: turns) last final
  | succeeded {device last : Device} {files after final : σ} {directive : Directive}
      {settings : Settings} {turns : List Turn}
      (succeeds : Succeeds w device files directive settings after)
      (later : History w { device with settings } after turns last final) :
      History w device files ({ directive, error := none } :: turns) last final

/-- The directives that succeeded. -/
def kept (turns : List Turn) : List Directive :=
  (turns.filter (·.error.isNone)).map Turn.directive

section
variable {w : Workshop (StateM σ)} {device last : Device} {files final : σ} {turns : List Turn}

theorem History.dictionary (history : History w device files turns last final) :
    last.dictionary = device.dictionary := by
  induction history with
  | done => rfl
  | failed fails later ih => exact ih
  | succeeded succeeds later ih => exact ih

theorem History.run_eq {storage : Storage (StateM σ)} (clean : storage.FailsClean)
    (tame : ∀ g ∈ w.registry, g.Tame storage)
    (history : History w device files turns last final) :
    (run w (turns.map Turn.directive)).run device files =
      ((turns.filterMap Turn.failure?, last), final) := by
  induction history with
  | done => rfl
  | failed fails later ih => exact run_cons_error (runOne_of_fails clean tame fails) ih
  | succeeded succeeds later ih => exact (run_cons_ok (runOne_of_succeeds succeeds)).trans ih

theorem History.run_kept (history : History w device files turns last final) :
    (run w (kept turns)).run device files = (([], last), final) := by
  induction history with
  | done => rfl
  | failed fails later ih => exact ih
  | succeeded succeeds later ih => exact (run_cons_ok (runOne_of_succeeds succeeds)).trans ih

end

theorem exists_history (w : Workshop (StateM σ)) (directives : List Directive) (device : Device)
    (files : σ) :
    ∃ turns last final, turns.map Turn.directive = directives ∧
      History w device files turns last final := by
  induction directives generalizing device files with
  | nil => exact ⟨[], device, files, rfl, .done⟩
  | cons directive rest ih =>
      rcases fails_or_succeeds w device files directive with
        ⟨e, fails⟩ | ⟨settings, after, succeeds⟩
      · obtain ⟨turns, last, final, same, later⟩ := ih device files
        exact ⟨{ directive, error := some e } :: turns, last, final,
          congrArg (directive :: ·) same, .failed fails later⟩
      · obtain ⟨turns, last, final, same, later⟩ := ih { device with settings } after
        exact ⟨{ directive, error := none } :: turns, last, final,
          congrArg (directive :: ·) same, .succeeded succeeds later⟩

/-- Running directives reports exactly those that fail at their turn, in order, never changes the
dictionary, and ends with the same settings and files as running only the others, of which none
fails. -/
theorem run_eq_run_kept (w : Workshop (StateM σ)) {storage : Storage (StateM σ)}
    (clean : storage.FailsClean) (tame : ∀ g ∈ w.registry, g.Tame storage) (device : Device)
    (directives : List Directive) (files : σ) :
    ∃ turns last after, turns.map Turn.directive = directives ∧
      History w device files turns last after ∧ last.dictionary = device.dictionary ∧
      (run w directives).run device files = ((turns.filterMap Turn.failure?, last), after) ∧
      (run w (kept turns)).run device files = (([], last), after) := by
  obtain ⟨turns, last, after, rfl, history⟩ := exists_history w directives device files
  exact ⟨turns, last, after, rfl, history, history.dictionary, history.run_eq clean tame,
    history.run_kept⟩

/-- Notes its arguments in the settings and then fails if the first of them asks for it. -/
def noteGenerator : Generator (StateM FileTree) :=
  .onSettings "note" fun request settings =>
    let noted := settings.insert "note" (.str (" ".intercalate request.args))
    if request.args.head? = some "fail" then (.error (.unsupported "asked to fail"), noted)
    else (.ok (), noted)

def noteWorkshop : Workshop (StateM FileTree) where
  registry := (Registry.standard FileTree.storage).register noteGenerator
  outDir := "out"
  date := "Monday"

theorem noteWorkshop_tame : ∀ g ∈ noteWorkshop.registry, g.Tame FileTree.storage :=
  List.forall_mem_cons.mpr ⟨.onSettings _ _, Registry.standard_tame⟩

/-- A device with more ports than the derivation of its settings can describe. -/
def noteDevice : Device :=
  { settings := Settings.ofList [("physics", .str "YYYYY")] }

def noteDirectives : List Directive := [
  { place := ⟨1, 1⟩, generator := "note", args := ["kept"] },
  { place := ⟨2, 1⟩, generator := "xml", args := [] },
  { place := ⟨3, 1⟩, generator := "note", args := ["fail", "halfway"] },
  { place := ⟨4, 1⟩, generator := "settings", args := [] },
  { place := ⟨5, 1⟩, generator := "context", args := [] },
  { place := ⟨6, 1⟩, generator := "context", args := ["lost/context.json"] }]

/-- A directory to write to, and no file in it. -/
def noteTree : FileTree where
  directories := [["out"]]
  files := []
  working := []

/-- Of six directives the second is unknown, the third and the fourth fail after they changed the
settings, and the last one cannot write its file. -/
theorem run_eq_run_kept_note :
    FileTree.storage.FailsClean ∧ (∀ g ∈ noteWorkshop.registry, g.Tame FileTree.storage) ∧
    ∃ turns last after, turns.map Turn.directive = noteDirectives ∧
      History noteWorkshop noteDevice noteTree turns last after ∧ last.dictionary = {} ∧
      (run noteWorkshop noteDirectives).run noteDevice noteTree =
        ((turns.filterMap Turn.failure?, last), after) ∧
      (run noteWorkshop (kept turns)).run noteDevice noteTree = (([], last), after) ∧
      (turns.filterMap Turn.failure?).map (·.error) = [
        .unknownGenerator "xml", .unsupported "asked to fail",
        .layoutOverflow "sii.phys_port" "YYYYY", .io "out/lost/context.json" .notFound] ∧
      last.settings.toList = [("note", .str "kept"), ("physics", .str "YYYYY")] ∧
      after.files.map Prod.fst = [["out", "context.json"]] := by
  have shown :
      let out := (run noteWorkshop noteDirectives).run noteDevice noteTree
      out.1.1.map (·.error) = [
        .unknownGenerator "xml", .unsupported "asked to fail",
        .layoutOverflow "sii.phys_port" "YYYYY", .io "out/lost/context.json" .notFound] ∧
      out.1.2.settings.toList = [("note", .str "kept"), ("physics", .str "YYYYY")] ∧
      out.2.files.map Prod.fst = [["out", "context.json"]] := by
    decide +kernel
  obtain ⟨turns, last, after, same, history, dictionary, runs, keeps⟩ :=
    run_eq_run_kept noteWorkshop FileTree.storage_failsClean noteWorkshop_tame noteDevice
      noteDirectives noteTree
  rw [runs] at shown
  exact ⟨FileTree.storage_failsClean, noteWorkshop_tame, turns, last, after, same, history,
    dictionary, runs, keeps, shown⟩

end Make

end EcatDevice
