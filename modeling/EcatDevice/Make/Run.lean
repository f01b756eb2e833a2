import EcatDevice.Make.Generator

/-! # Running make directives

Directives run in the order of the source. A generator works on a copy of the settings, and the copy
replaces the settings of the device only when the generator succeeds. After a failure the other
directives run all the same.
-/

namespace EcatDevice.Make

structure Failure where
  directive : Directive
  error : Error
  deriving DecidableEq, Repr

structure Workshop (m : Type → Type) where
  registry : Registry m
  /-- Directory that relative paths of files start from. -/
  outDir : String
  /-- Today, in words. -/
  date : String

variable {m : Type → Type} [Monad m]

def Workshop.request (w : Workshop m) (device : Device) (directive : Directive) : Request :=
  { dictionary := device.dictionary, args := directive.args, outDir := w.outDir, date := w.date }

def runOne (w : Workshop m) (directive : Directive) : ExceptT Error (StateT Device m) Unit := do
  match w.registry.find? directive.generator with
  | none => throw (.unknownGenerator directive.generator)
  | some generator =>
    let device ← get
    let (outcome, settings) ←
      (generator.make (w.request device directive)).run.run device.settings
    liftExcept outcome
    set { device with settings }

def run (w : Workshop m) : List Directive → StateT Device m (List Failure)
  | [] => return []
  | directive :: rest => do
    match ← (runOne w directive).run with
    | .ok () => run w rest
    | .error error =>
      let failures ← run w rest
      return { directive, error } :: failures

end EcatDevice.Make
