import DdlModels.Draft.Reading
import DdlModels.Package.Output
import DdlModels.Settings.Basic

/-!
# Conversion

A source is parsed into a tree, the tree is walked to draft a package, and the package is written as Go.
All that is reported on the way is kept, also when the conversion fails.
-/

namespace DdlModels

/-- A result, or why there is none, and what was reported. -/
structure Conversion (α : Type) where
  result : Except Error α
  notices : List Notice

def buildPackage (settings : Settings) (source : String) : Conversion Package :=
  let script := Sql.readScript source
  match script.tree source.toList with
  | .error error => ⟨.error (.parse error), script.notices⟩
  | .ok tree =>
    let (result, progress) :=
      tree.package.runFrom
        ⟨.start settings.packageName, script.notices ++ [.parsed tree.children.length]⟩
    ⟨result.mapError .violation, progress.notices⟩

def convert (settings : Settings) (source : String) : Except Error String :=
  (buildPackage settings source).result.map Package.goSource

def convertFile {m : Type → Type} [Monad m] [FileAccess m] (settings : Settings) (path : String) :
    m (Except Error String) := do
  match ← FileAccess.readText path with
  | .error reason => return .error (.access reason)
  | .ok source => return convert settings source

end DdlModels
