import EcatDevice.Eeprom.Image
import EcatDevice.Files.Storage
import EcatDevice.Resolution
import EcatDevice.Settings.Derive
import EcatDevice.Template

/-! # Generators

A make directive runs a generator. It reads the dictionary, works on settings in place and may write
files. One that fails leaves the settings changed as far as it came.
-/

namespace EcatDevice

/-- Work on settings that may fail midway. What it changed before it failed stays changed. -/
abbrev Work (m : Type → Type) := ExceptT Error (StateT Settings m) Unit

/-- What a generator sees besides the settings. -/
structure Request where
  dictionary : Dictionary
  args : List String
  /-- Directory that relative paths of files start from. -/
  outDir : String
  /-- Today, in words. -/
  date : String

structure Generator (m : Type → Type) where
  name : String
  make : Request → Work m

/-- The path of the file to write: the first argument, or a fallback. -/
def Request.outputPath (request : Request) (fallback : String) : String :=
  joinPath request.outDir (request.args.headD fallback)

variable {m : Type → Type} [Monad m]

def writeArtifact (storage : Storage m) (path : String) (content : Content) : Work m := do
  match ← storage.write path content with
  | .ok () => return
  | .error fault => throw (.io path fault)

namespace Generator

/-- A generator that touches nothing but the settings. -/
def onSettings (name : String) (work : Request → Settings → Except Error Unit × Settings) :
    Generator m where
  name := name
  make request := ExceptT.mk fun settings => pure (work request settings)

def settings : Generator m :=
  onSettings "settings" fun request => Settings.derive request.dictionary

/-- Writes the EEPROM image and publishes what it fixes. -/
def eeprom (storage : Storage m) : Generator m where
  name := "sii"
  make request := do
    let image ← liftExcept (Eeprom.build (← get))
    writeArtifact storage (request.outputPath "eeprom.bin") (.bytes image.bytes)
    modify (·.merge image.published)

def template (storage : Storage m) : Generator m where
  name := "context"
  make request := do
    let text ← liftExcept (Template.text request.dictionary (← get) request.date)
    writeArtifact storage (request.outputPath "context.json") (.text text)

end Generator

/-- The known generators; of two with one name the first counts. -/
abbrev Registry (m : Type → Type) := List (Generator m)

namespace Registry

def register (registry : Registry m) (generator : Generator m) : Registry m :=
  generator :: registry

def standard (storage : Storage m) : Registry m :=
  let registry : Registry m := []
  ((registry.register .settings).register (.eeprom storage)).register (.template storage)

def find? (registry : Registry m) (name : String) : Option (Generator m) :=
  List.find? (·.name == name) registry

def names (registry : Registry m) : List String :=
  List.map Generator.name registry

end Registry

end EcatDevice
