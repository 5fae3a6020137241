import Stencil.Proofs.Clean.Reading

/-!
# Loading without escapes

If there is no escape in the templates that loaders hold, nor in the names under which they hold
them, there is none in what is loaded by a name without escapes, nor in the error if nothing is.
-/

namespace Stencil

open Text

/-! ## Loaders -/

def Source.Clean (source : Source) : Prop := Text.Clean source.text

/-- What a loading function answers, as a source. -/
def Answer.Clean : Answer → Prop
  | .text s => Text.Clean s
  | .source s => s.Clean

structure FileSearch.Clean (s : FileSearch) : Prop where
  directories : ∀ base ∈ s.directories, Text.Clean base.text
  files : ∀ file ∈ s.tree.files, ∀ text ∈ s.encoding.decode? file.2, Text.Clean text

inductive Loader.Clean : Loader → Prop
  | memory {templates : List (String × String)} : (∀ t ∈ templates, Text.Clean t.1) →
    (∀ t ∈ templates, Text.Clean t.2) → Loader.Clean (.memory templates)
  | choice {loaders : List Loader} : (∀ l ∈ loaders, Loader.Clean l) →
    Loader.Clean (.choice loaders)
  | function {load : String → Option Answer} :
    (∀ name, Text.Clean name → ∀ answer ∈ load name, answer.Clean) →
    Loader.Clean (.function load)
  | files {search : FileSearch} : search.Clean → Loader.Clean (.files search)

theorem FileTree.mem_of_read {t : FileTree} {place : List String} {bytes : ByteArray}
    (h : t.read? place = .ok (some bytes)) : (place, bytes) ∈ t.files := by
  unfold read? at h
  split at h
  · cases h
  · obtain ⟨before, after, hfiles, -⟩ := List.lookup_eq_some_iff.mp (Except.ok.inj h)
    rw [hfiles]
    exact List.mem_append_right _ List.mem_cons_self

theorem FileSearch.yields_searchIn {s : FileSearch} (h : s.Clean) {name : String}
    (hname : Text.Clean name) (relative : Path) (bases : List Path) :
    Yields Error.Clean Source.Clean (s.searchIn name relative bases) := by
  induction bases with
  | nil =>
    have hdirectories : ∀ text ∈ s.directories.map Path.text, Text.Clean text :=
      List.forall_mem_map.mpr h.directories
    exact List.forall_mem_cons.mpr ⟨hname, hdirectories⟩
  | cons base more ih =>
    unfold searchIn
    dsimp only
    split_ifs
    · trivial
    · exact List.forall_mem_singleton.mpr hname
    · split
      · next bytes hbytes =>
        split
        · next text htext => exact h.files _ (FileTree.mem_of_read hbytes) text htext
        · trivial
      · exact ih
      · trivial

theorem FileSearch.yields_get {s : FileSearch} (h : s.Clean) {name : String}
    (hname : Text.Clean name) : Yields Error.Clean Source.Clean (s.get name) := by
  unfold get
  split
  · trivial
  · exact yields_searchIn h hname _ _

namespace Loader

theorem yields_getFromMemory {templates : List (String × String)}
    (hnames : ∀ t ∈ templates, Text.Clean t.1) (htexts : ∀ t ∈ templates, Text.Clean t.2)
    {name : String} (hname : Text.Clean name) :
    Yields Error.Clean Source.Clean (getFromMemory templates name) := by
  have havailable : ∀ other ∈ sortedNames templates, Text.Clean other := by
    intro other hother
    obtain ⟨t, ht, rfl⟩ := List.mem_map.mp (mem_of_mem_sorted hother)
    exact hnames t ht
  unfold getFromMemory
  split
  · next text htext => exact htexts _ (Value.mem_of_lookup htext)
  · refine List.forall_mem_cons.mpr ⟨hname, List.forall_mem_append.mpr ⟨?_, havailable⟩⟩
    exact fun other hother => havailable other (mem_of_closest? (Option.mem_toList.mp hother))

theorem yields_getFromFunction {load : String → Option Answer} {name : String}
    (h : ∀ answer ∈ load name, answer.Clean) (hname : Text.Clean name) :
    Yields Error.Clean Source.Clean (getFromFunction load name) := by
  unfold getFromFunction
  split
  · next s hs => exact h _ hs
  · next s hs => exact h _ hs
  · exact List.forall_mem_singleton.mpr hname

mutual

theorem yields_get {loader : Loader} (h : loader.Clean) {name : String} (hname : Text.Clean name) :
    Yields Error.Clean Source.Clean (get name loader) := by
  cases h with
  | memory hnames htexts => exact yields_getFromMemory hnames htexts hname
  | @choice loaders hloaders => exact yields_getFirst hloaders hname loaders.length
  | function h => exact yields_getFromFunction (h name hname) hname
  | files h => exact FileSearch.yields_get h hname

theorem yields_getFirst {loaders : List Loader} (h : ∀ l ∈ loaders, l.Clean) {name : String}
    (hname : Text.Clean name) (count : Nat) :
    Yields Error.Clean Source.Clean (getFirst name count loaders) := by
  cases loaders with
  | nil => exact List.forall_mem_singleton.mpr hname
  | cons loader more =>
    obtain ⟨hloader, hmore⟩ := List.forall_mem_cons.mp h
    unfold getFirst
    split
    · exact yields_getFirst hmore hname count
    · exact yields_get hloader hname

end

end Loader

/-! ## Environments -/

/-- There is no escape in what an environment gives to every template. -/
structure Environment.Clean (env : Environment) : Prop where
  loader : ∀ loader ∈ env.loader, loader.Clean
  globals : env.globals.Clean
  tags : ∀ name ∈ env.tags.names, Text.Clean name
  host : env.host.Clean

namespace Environment

variable {env : Environment} {name : String}

theorem yields_getSource (h : env.Clean) (hname : Text.Clean name) :
    Yields Error.Clean Source.Clean (env.getSource name) := by
  unfold getSource
  split
  · exact List.forall_mem_singleton.mpr hname
  · next loader hloader => exact Loader.yields_get (h.loader loader hloader) hname

theorem yields_load (h : env.Clean) (hname : Text.Clean name) (isPartial : Bool) :
    Yields Error.Clean Template.Clean (env.load name isPartial) :=
  (yields_getSource h hname).bind fun source hsource =>
    yields_parse h.tags hsource (clean_some hname) source.file isPartial

end Environment

end Stencil
