import BlockMarkup.Program

namespace BlockMarkup

-- Files of kind `ι` in a state `σ`. Several paths may lead to one file.
structure Store (σ ι : Type) where
  read : σ → Text → Except FileError Text
  write : σ → Text → Text → σ × Except FileError Unit
  file? : σ → Text → Option ι
  content? : σ → ι → Option Content
  read_file : ∀ {state path source}, read state path = .ok source →
    ∃ file, file? state path = some file ∧ content? state file = some (.text source)
  write_file : ∀ {state path source file}, read state path = .ok source →
    file? state path = some file → ∀ new, ∃ after, write state path new = (after, .ok ()) ∧
      content? after file = some (.text new) ∧
      ∀ other, other ≠ file → content? after other = content? state other

namespace Store

variable {σ ι α : Type} (store : Store σ ι)

def access : Access (StateM σ) where
  read path := fun state => (store.read state path, state)
  write path content := fun state =>
    let (state, outcome) := store.write state path content
    (outcome, state)

theorem run_read_bind (path : Text) (next : Except FileError Text → StateM σ α) (state : σ) :
    (store.access.read path >>= next).run state = (next (store.read state path)).run state := rfl

theorem run_write_bind (path content : Text) (next : Except FileError Unit → StateM σ α)
    (state : σ) :
    (store.access.write path content >>= next).run state =
      (next (store.write state path content).2).run (store.write state path content).1 := rfl

end Store

namespace Files

variable {files : Files} {path name : Text} {place directory : Place}

def place? (files : Files) (path : Text) : Option Place :=
  if isRelative path then (pathNames path).foldlM files.step? [] else none

def content? (files : Files) (place : Place) : Option Content :=
  match files.node? place with
  | some (.file content) => some content
  | _ => none

theorem content?_of_node? {content : Content} (node : files.node? place = some (.file content)) :
    files.content? place = some content := by
  unfold content?
  rw [node]

theorem pathNames_eq_append (noDirectory : meansDirectory path = false) :
    ∃ above name, pathNames path = above ++ [name] ∧ name ≠ parentName := by
  unfold meansDirectory at noDirectory
  split at noDirectory
  · rename_i name last
    simp only [Bool.or_eq_false_iff, decide_eq_false_iff_not] at noDirectory
    obtain ⟨⟨nonempty, noDot⟩, noParent⟩ := noDirectory
    obtain ⟨above, names⟩ := List.getLast?_eq_some_iff.mp last
    refine ⟨above.filter fun name => name ≠ [] ∧ name ≠ ['.'], name, ?_, noParent⟩
    rw [pathNames, names, List.filter_append]
    simp [nonempty, noDot]
  · cases noDirectory

theorem step?_eq_some (named : name ≠ parentName) (step : files.step? directory name = some place) :
    files.node? directory = some .directory ∧ place = directory ++ [name] := by
  unfold step? at step
  rw [if_neg named] at step
  split at step
  · rename_i isDirectory
    exact ⟨isDirectory, (Option.some.inj step).symm⟩
  · cases step

theorem node?_of_foldlM_step? {names : List Text}
    (leads : names.foldlM files.step? place = some directory)
    (ends : files.node? directory = some .directory) : files.node? place = some .directory := by
  cases names with
  | nil => exact (Option.some.inj leads) ▸ ends
  | cons name rest =>
    rw [List.foldlM_cons] at leads
    by_cases start : files.node? place = some .directory
    · exact start
    · simp [step?, start] at leads

-- Directories that are there are not made again.
theorem makeDirectories_of_foldlM {names : List Text}
    (leads : names.foldlM files.step? place = some directory)
    (ends : files.node? directory = some .directory) :
    makeDirectories place names files = (files, some directory) := by
  induction names generalizing place with
  | nil => rw [Option.some.inj leads]; rfl
  | cons name rest ih =>
    rw [List.foldlM_cons, Option.bind_eq_bind, Option.bind_eq_some_iff] at leads
    obtain ⟨next, step, leads⟩ := leads
    simp only [makeDirectories, step, node?_of_foldlM_step? leads ends]
    exact ih leads

theorem read_eq_ok {source : Text} (got : files.read path = .ok source) :
    meansDirectory path = false ∧
      ∃ place, files.place? path = some place ∧
        files.node? place = some (.file (.text source)) := by
  unfold read at got
  split at got <;> cases got
  rename_i found
  unfold find? at found
  split at found
  · rename_i relative
    simp only [Option.bind_eq_bind, Option.bind_eq_some_iff] at found
    obtain ⟨place, leads, node, stands, found⟩ := found
    split at found
    · cases found
    · rename_i usable
      cases found
      exact ⟨by simpa using usable, place, by rw [place?, if_pos relative, leads], stands⟩
  · cases found

theorem write_eq_put {source : Text} (content : Content) (got : files.read path = .ok source)
    (leads : files.place? path = some place) :
    place ≠ [] ∧ files.write path content = (files.put place (.file content), .ok ()) := by
  obtain ⟨noDirectory, place', leads', stands⟩ := read_eq_ok got
  cases leads.symm.trans leads'
  obtain ⟨above, name, names, named⟩ := pathNames_eq_append noDirectory
  unfold place? at leads
  split at leads
  · rename_i relative
    rw [names, List.foldlM_append, Option.bind_eq_bind, Option.bind_eq_some_iff] at leads
    obtain ⟨directory, way, step⟩ := leads
    rw [List.foldlM_cons, Option.bind_eq_bind, Option.bind_eq_some_iff] at step
    obtain ⟨last, step, ends⟩ := step
    cases ends
    obtain ⟨isDirectory, rfl⟩ := step?_eq_some named step
    refine ⟨by simp, ?_⟩
    simp [write, names, relative, noDirectory, stands, makeDirectories_of_foldlM way isDirectory]
  · cases leads

def store : Store Files Place where
  read := read
  write files path content := files.write path (.text content)
  file? := place?
  content? := content?
  read_file got := by
    obtain ⟨_, place, leads, stands⟩ := read_eq_ok got
    exact ⟨place, leads, content?_of_node? stands⟩
  write_file {files path source place} got leads new := by
    obtain ⟨below, written⟩ := write_eq_put (.text new) got leads
    refine ⟨files.put place (.file (.text new)), written,
      content?_of_node? (node?_put_self files below _), fun other apart => ?_⟩
    rw [content?, node?_put_of_ne files apart, content?]

end Files
end BlockMarkup
