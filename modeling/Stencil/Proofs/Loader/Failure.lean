import Stencil.Environment

/-!
# Errors of loading

A loader fails only because there is no template of a name, or because its file cannot be read.
-/

namespace Stencil

/-- There is no template of the name, or its file cannot be read. -/
def Error.isOfLoading : Error → Bool
  | .notFound _ => true
  | .file _ => true
  | _ => false

section

variable {name : String} {error : Error}

theorem FileSearch.isOfLoading_searchIn {search : FileSearch} {relative : Path}
    {directories : List Path} (h : search.searchIn name relative directories = .error error) :
    error.isOfLoading := by
  induction directories with
  | nil =>
    cases h
    rfl
  | cons base more ih =>
    rw [searchIn] at h
    split at h
    · cases h
      rfl
    split at h
    · cases h
      rfl
    split at h
    · split at h <;> cases h
      rfl
    · exact ih h
    · cases h
      rfl

mutual

theorem Loader.isOfLoading_get (loader : Loader) (h : loader.get name = .error error) :
    error.isOfLoading := by
  cases loader with
  | memory templates =>
    simp only [Loader.get, getFromMemory] at h
    split at h <;> cases h
    rfl
  | choice loaders => exact isOfLoading_getFirst loaders h
  | function load =>
    simp only [Loader.get, getFromFunction] at h
    split at h <;> cases h
    rfl
  | files search =>
    simp only [Loader.get, FileSearch.get] at h
    split at h
    · cases h
      rfl
    · exact FileSearch.isOfLoading_searchIn h

theorem Loader.isOfLoading_getFirst {count : Nat} (loaders : List Loader)
    (h : Loader.getFirst name count loaders = .error error) : error.isOfLoading := by
  cases loaders with
  | nil =>
    cases h
    rfl
  | cons loader more =>
    rw [Loader.getFirst] at h
    split at h
    · exact isOfLoading_getFirst more h
    · exact isOfLoading_get loader h

end

theorem Environment.isOfLoading_getSource {env : Environment}
    (h : env.getSource name = .error error) : error.isOfLoading := by
  unfold getSource at h
  split at h
  · cases h
    rfl
  · next loader _ => exact loader.isOfLoading_get h

end

end Stencil
