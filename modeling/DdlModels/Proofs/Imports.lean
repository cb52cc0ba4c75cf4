import DdlModels.Package.Model

/-!
# Imports

Adding imports to a package changes nothing else of it, and each import is kept once, where it first occurs.
-/

namespace DdlModels

namespace Package

theorem addImports_append (package : Package) (first second : List String) :
    package.addImports (first ++ second) = (package.addImports first).addImports second :=
  List.foldl_append

theorem addImports_eq (package : Package) (paths : List String) :
    package.addImports paths =
      { package with imports := ({ imports := package.imports : Package }.addImports paths).imports } := by
  induction paths generalizing package with
  | nil => rfl
  | cons path paths ih =>
    have step (package : Package) :
        package.addImports (path :: paths) = (package.addImport path).addImports paths := rfl
    rw [step, step, ih (package.addImport path)]
    by_cases known : path ∈ package.imports
    · simp [addImport, known]
    · simp [addImport, known]

theorem addImports_name (package : Package) (paths : List String) :
    (package.addImports paths).name = package.name := by
  rw [addImports_eq]

theorem addImports_tables (package : Package) (paths : List String) :
    (package.addImports paths).tables = package.tables := by
  rw [addImports_eq]

theorem addImports_with_tables (package : Package) (tables : List Table) (paths : List String) :
    ({ package with tables } : Package).addImports paths = { package.addImports paths with tables } := by
  rw [addImports_eq, addImports_eq package]

theorem addImports_imports_congr {first second : Package} (h : first.imports = second.imports)
    (paths : List String) : (first.addImports paths).imports = (second.addImports paths).imports := by
  rw [addImports_eq first, addImports_eq second, h]

theorem addImports_imports (package : Package) (paths : List String) :
    (package.addImports paths).imports = package.imports ++ (paths.removeAll package.imports).eraseDups := by
  induction paths generalizing package with
  | nil => simp [addImports, List.removeAll]
  | cons path paths ih =>
    have step : package.addImports (path :: paths) = (package.addImport path).addImports paths := rfl
    rw [step, ih]
    by_cases known : path ∈ package.imports
    · simp [addImport, known, List.removeAll]
    · have added : (package.addImport path).imports = package.imports ++ [path] := by simp [addImport, known]
      have fresh : (path :: paths).removeAll package.imports = path :: paths.removeAll package.imports := by
        simp [List.removeAll, known]
      have later : paths.removeAll (package.imports ++ [path]) =
          (paths.removeAll package.imports).filter fun other => !other == path := by
        simp only [List.removeAll, List.filter_filter]
        congr 1
        funext other
        by_cases same : other = path <;> simp [same]
      rw [added, fresh, later, List.eraseDups_cons, List.append_assoc, List.singleton_append]

theorem addImports_same {path : String} {paths : List String} (h : ∀ other ∈ paths, other = path)
    (name : String) : (({ name } : Package).addImports paths).imports =
      if paths = [] then [] else [path] := by
  have none (paths : List String) : paths.removeAll [] = paths := by simp [List.removeAll]
  rw [addImports_imports, List.nil_append, none]
  cases paths with
  | nil => rfl
  | cons first paths =>
    have same := h first List.mem_cons_self
    have again : (paths.filter fun next => !next == first) = [] := by
      rw [List.filter_eq_nil_iff]
      intro next hnext
      simp [same, h next (List.mem_cons_of_mem first hnext)]
    rw [List.eraseDups_cons, again, same]
    rfl

end Package

end DdlModels
