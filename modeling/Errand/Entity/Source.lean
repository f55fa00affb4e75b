/-
  Errand.Entity.Source — entities from data texts and files.
-/

import Errand.Entity.Loading
import Errand.Yaml.Data
import Errand.Bundled

namespace Errand.Store

/-- Adds what a data text describes. -/
def loadText (s : Store) (t : Text) : Store × Option LoadFault :=
  match Yaml.read t with
  | .ok data => s.load data
  | .error f => (s, some (.unreadText f))

/-- Why a file could not be read, as a fault of loading. -/
def faultOfDisk (path : Text) (f : DiskFault) : LoadFault :=
  if f.isSystemFault then .unreadable path (f.message path) else .disk f

/-- Adds what a data file describes; an empty path is that of the bundled file. -/
def loadFile (s : Store) (d : Disk) (path : Text) : Store × Option LoadFault :=
  let path := if path.isEmpty then Bundled.entityFile d else path
  match d.text path with
  | .ok t => s.loadText t
  | .error f => (s, some (faultOfDisk path f))

end Errand.Store
