import EcatDevice.Object.Build

/-! # The object dictionary

The objects of a device in the order of their declaration, no two with one index.
-/

namespace EcatDevice

/-- The objects of a device, in the order of their declaration. -/
structure Dictionary where
  objects : List Object := []

namespace Dictionary

def empty : Dictionary := {}

def get? (d : Dictionary) (index : UInt16) : Option Object :=
  d.objects.find? (·.index == index)

/-- Adds an object behind the others; its index has to be new. -/
def insert (d : Dictionary) (object : Object) : Except Error Dictionary :=
  if (d.get? object.index).isSome then .error (.duplicateIndex object.index)
  else .ok { objects := d.objects ++ [object] }

/-- The sub-object a packed reference names, whatever width it states. -/
def find? (d : Dictionary) (reference : UInt32) : Option SubObject := do
  let r := MapRef.unpack reference
  let object ← d.get? r.index
  object.sub? r.subindex

def grant (d : Dictionary) (reference : UInt32) (access : Access) : Dictionary :=
  let r := MapRef.unpack reference
  { objects := d.objects.map fun object =>
      if object.index = r.index then object.grant r.subindex access else object }

def display (d : Dictionary) : String :=
  String.join (d.objects.map fun object => object.display ++ "\n")

end Dictionary

end EcatDevice
