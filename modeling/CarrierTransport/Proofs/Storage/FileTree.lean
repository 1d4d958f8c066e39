import CarrierTransport.Proofs.Storage.Path
import CarrierTransport.Proofs.Transition
import CarrierTransport.Storage.Reporter

/-!
# Files of a directory

A file that has been written is read as it was written (`FileTree.read_write`), and what is read
under the other names of the same directory is what was read before
(`FileTree.read_write_of_ne`). The reason is that a write puts a file where no directory is, so
that every path that could be walked still leads to its place, and that two names of a directory
lead to two places.
-/

namespace CarrierTransport.FileTree

open CarrierTransport.Path (IsFileName)
open Transition

variable {tree tree' : FileTree} {place target : List String} {node : TreeNode}
  {content : ByteArray} {path directory : Path} {file name : String}

/-! ### Places -/

theorem lookup_filter_ne {nodes : List (List String × TreeNode)} (h : place ≠ target) :
    (nodes.filter fun entry => entry.1 != target).lookup place = nodes.lookup place := by
  induction nodes with
  | nil => rfl
  | cons entry nodes ih =>
    obtain ⟨other, node⟩ := entry
    by_cases hother : other = target
    · subst hother
      rw [List.filter_cons_of_neg (by simp), ih, List.lookup_cons, beq_false_of_ne h]
    · rw [List.filter_cons_of_pos (by simpa using hother), List.lookup_cons, List.lookup_cons, ih]

theorem node?_put_self (htarget : target ≠ []) :
    (tree.put target node).node? target = some node := by
  rw [node?, if_neg (by simpa using htarget), put, List.lookup_cons, beq_self_eq_true]

theorem node?_put_of_ne (h : place ≠ target) :
    (tree.put target node).node? place = tree.node? place := by
  unfold node?
  rw [put, List.lookup_cons, beq_false_of_ne h, lookup_filter_ne h]

/-! ### Walking -/

/-- A path is followed by the pieces of its characters. -/
theorem walk_eq (tree : FileTree) (path : Path) :
    tree.walk path = tree.start path >>=
      (((path.text.toList.splitOnP (· == '/')).map String.ofList).filter (· ≠ "")).foldlM
        tree.step := by
  rw [walk, Path.names_eq]

theorem directory_of_step (h : tree.step place name = .ok target) :
    tree.node? place = some .directory := by
  unfold step at h
  split at h
  · cases h
  · cases h
  · next hplace => exact hplace

theorem eq_append_of_step (hname : IsFileName name) (h : tree.step place name = .ok target) :
    target = place ++ [name] := by
  rw [step, directory_of_step h, if_neg hname.notHere, if_neg hname.notAbove] at h
  dsimp only at h
  split_ifs at h
  cases h
  rfl

/-- From a directory a name leads where it did if no directory has been changed. -/
theorem step_put (hplace : tree.node? place = some .directory)
    (htarget : tree.node? target ≠ some .directory) (name : String) :
    (tree.put target node).step place name = tree.step place name := by
  have hne : place ≠ target := by
    rintro rfl
    exact htarget hplace
  rw [step, step, node?_put_of_ne hne]

/-- Names that could be followed lead where they did. -/
theorem foldlM_step_put (htarget : tree.node? target ≠ some .directory) {names : List String}
    {start : List String} (h : names.foldlM tree.step start = .ok place) :
    names.foldlM (tree.put target node).step start = .ok place := by
  induction names generalizing start with
  | nil => exact h
  | cons name names ih =>
    obtain ⟨next, hnext, hrest⟩ := except_bind_eq_ok.1 h
    refine except_bind_eq_ok.2 ⟨next, ?_, ih hrest⟩
    rw [step_put (directory_of_step hnext) htarget, hnext]

theorem walk_put (htarget : tree.node? target ≠ some .directory)
    (h : tree.walk path = .ok place) :
    (tree.put target node).walk path = .ok place := by
  obtain ⟨start, hstart, hnames⟩ := except_bind_eq_ok.1 h
  exact except_bind_eq_ok.2 ⟨start, hstart, foldlM_step_put htarget hnames⟩

/-- The place that the names of a directory start from. -/
def origin (tree : FileTree) (directory : Path) : List String :=
  if directory.isAbsolute then [] else tree.here

/-- A name in a directory is followed behind the names of the directory. -/
theorem walk_child (hname : IsFileName name) (directory : Path) :
    tree.walk (directory.child name) =
      if longestPath < (directory.child name).text.utf8ByteSize then .error .nameTooLong
      else directory.names.foldlM tree.step (tree.origin directory) >>=
        fun place => tree.step place name := by
  rw [walk, start, hname.child_ne_empty, hname.isAbsolute_child, hname.names_child,
    if_neg Bool.false_ne_true, ← origin]
  split_ifs
  · rfl
  · change (directory.names ++ [name]).foldlM tree.step (tree.origin directory) = _
    rw [List.foldlM_append]
    simp only [List.foldlM_cons, List.foldlM_nil, bind_pure]

/-! ### Writing -/

theorem write_eq_ok (h : tree.write path content = .ok tree') :
    ∃ place, tree.walk path = .ok place ∧ tree.node? place ≠ some .directory ∧
      path.endsInSlash = false ∧ tree' = tree.put place (.file content) := by
  obtain ⟨place, hplace, hwritten⟩ := except_bind_eq_ok.1 h
  refine ⟨place, hplace, ?_⟩
  split at hwritten
  · cases hwritten
  · next hfree =>
    split_ifs at hwritten with hslash
    cases hwritten
    exact ⟨hfree, Bool.eq_false_iff.2 hslash, rfl⟩

/-- What a path that names a file stands for. -/
theorem find_of_walk (hwalk : tree.walk path = .ok place) (hslash : path.endsInSlash = false) :
    tree.find path = match tree.node? place with
      | none => .error .notFound
      | some node => .ok node := by
  rw [find, hwalk, hslash]
  rfl

/-- **A file is read as it was written.** -/
theorem read_write (h : tree.write path content = .ok tree') : tree'.read path = .ok content := by
  obtain ⟨place, hwalk, hfree, hslash, rfl⟩ := write_eq_ok h
  have hplace : place ≠ [] := by
    rintro rfl
    exact hfree rfl
  rw [read, find_of_walk (walk_put hfree hwalk) hslash, node?_put_self hplace]
  rfl

/-- **A write changes one file of a directory.** What is read under another name, or why nothing
can be, stays as it was. -/
theorem read_write_of_ne (hfile : IsFileName file) (hname : IsFileName name) (hne : name ≠ file)
    (h : tree.write (directory.child file) content = .ok tree') :
    tree'.read (directory.child name) = tree.read (directory.child name) := by
  obtain ⟨target, hwalk, hfree, -, rfl⟩ := write_eq_ok h
  rw [walk_child hfile] at hwalk
  split_ifs at hwalk
  obtain ⟨place, hplace, hstep⟩ := except_bind_eq_ok.1 hwalk
  have hdirectory := directory_of_step hstep
  have hplace' : directory.names.foldlM (tree.put target (.file content)).step
      (tree.origin directory) = .ok place := foldlM_step_put hfree hplace
  have hsame : (tree.put target (.file content)).walk (directory.child name) =
      tree.walk (directory.child name) := by
    have horigin : (tree.put target (.file content)).origin directory = tree.origin directory := rfl
    rw [walk_child hname, walk_child hname, horigin, hplace, hplace']
    exact if_congr Iff.rfl rfl (step_put hdirectory hfree name)
  have hslash := hname.not_endsInSlash_child directory
  cases hread : tree.walk (directory.child name) with
  | error e =>
    unfold read find
    rw [hsame, hread]
    rfl
  | ok other =>
    have hother : other ≠ target := by
      rw [walk_child hname, hplace] at hread
      split_ifs at hread
      rw [eq_append_of_step hname hread, eq_append_of_step hfile hstep]
      simpa using hne
    rw [read, read, find_of_walk (hsame.trans hread) hslash, find_of_walk hread hslash,
      node?_put_of_ne hother]

/-! ### Reporting -/

theorem read_reporter {lines : List String} {u : Unit}
    (h : reporter directory file lines tree = .ok u tree') :
    tree'.read (directory.child file) = .ok (textOfLines lines).toUTF8 :=
  read_write (replace_eq_ok.1 h)

/-- A report changes what is read under its own name only, whether it succeeds or not. -/
theorem read_left_reporter (hfile : IsFileName file) (hname : IsFileName name) (hne : name ≠ file)
    (lines : List String) :
    (left (reporter directory file lines tree)).read (directory.child name) =
      tree.read (directory.child name) := by
  rw [reporter, replace]
  cases hwrite : tree.writeLines (directory.child file) lines with
  | error e => rfl
  | ok tree' => exact read_write_of_ne hfile hname hne hwrite

end CarrierTransport.FileTree
