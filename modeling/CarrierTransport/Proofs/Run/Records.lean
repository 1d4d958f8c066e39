import CarrierTransport.Proofs.Run.Reports

/-!
# Recorded entries

What reports do to the world that takes them. `Recorded` is the world after some entries, each of
them reported once and with success; `Reaches` is any world after reports under some names, those
that fail included. In a directory of a file tree entries that have been recorded are held by their
files (`Recorded.holds`), and reports under other names leave them there (`Holds.of_reaches`).
-/

namespace CarrierTransport.Run

open CarrierTransport.Path (IsFileName)
open Transition

/-! ### Records -/

section Records

variable {α ω : Type} [BinaryScalar α] {reporter : Reporter ω} {entries entries' : List (Entry α)}
  {w v w' : ω}

/-- The world after some entries have been reported in their order, with diagnostics in between. -/
inductive Recorded (reporter : Reporter ω) : List (Entry α) → ω → ω → Prop
  | nil (w : ω) : Recorded reporter [] w w
  | entry {e : Entry α} {entries : List (Entry α)} {w v w' : ω}
      (h : reporter e.file e.lines w = .ok () v) (hrest : Recorded reporter entries v w') :
      Recorded reporter (e :: entries) w w'
  | diagnostics {file : String} {lines : List String} {entries : List (Entry α)} {w v w' : ω}
      (hfile : file ∈ diagnosticFiles) (h : reporter file lines w = .ok () v)
      (hrest : Recorded reporter entries v w') : Recorded reporter entries w w'

theorem Recorded.append (h : Recorded reporter entries w v) (h' : Recorded reporter entries' v w') :
    Recorded reporter (entries ++ entries') w w' := by
  induction h with
  | nil w => exact h'
  | entry h _ ih => exact .entry h (ih h')
  | diagnostics hfile h _ ih => exact .diagnostics hfile h (ih h')

/-- The worlds that reports under some names lead to, whether they succeed or not. -/
inductive Reaches (reporter : Reporter ω) (names : String → Prop) (w : ω) : ω → Prop
  | refl : Reaches reporter names w w
  | report {v : ω} (h : Reaches reporter names w v) {file : String} (hfile : names file)
      (lines : List String) : Reaches reporter names w (left (reporter file lines v))

namespace Reaches

variable {names names' : String → Prop}

theorem trans (h : Reaches reporter names w v) (h' : Reaches reporter names v w') :
    Reaches reporter names w w' := by
  induction h' with
  | refl => exact h
  | report _ hfile lines ih => exact ih.report hfile lines

theorem mono (h : Reaches reporter names w w') (hnames : ∀ name, names name → names' name) :
    Reaches reporter names' w w' := by
  induction h with
  | refl => exact .refl
  | report _ hfile lines ih => exact ih.report (hnames _ hfile) lines

theorem of_ok {file : String} {lines : List String} {u : Unit} (hfile : names file)
    (h : reporter file lines w = .ok u v) : Reaches reporter names w v := by
  have hreport : Reaches reporter names w (left (reporter file lines w)) :=
    .report .refl hfile lines
  rwa [h] at hreport

end Reaches

/-- The names that the entries and the diagnostics between them are reported under. -/
def Named (entries : List (Entry α)) (name : String) : Prop :=
  name ∈ diagnosticFiles ∨ name ∈ entries.map Entry.file

theorem Recorded.reaches (h : Recorded reporter entries w w') :
    Reaches reporter (Named entries) w w' := by
  induction h with
  | nil w => exact .refl
  | @entry e entries w v w' h _ ih =>
    refine (Reaches.of_ok (.inr (by simp)) h).trans (ih.mono ?_)
    exact fun name hname => hname.imp id fun hmem => by simp [hmem]
  | diagnostics hfile h _ ih => exact (Reaches.of_ok (.inl hfile) h).trans ih

end Records

/-! ### Files -/

section Files

variable {α : Type} {output : Path} {tree tree' : FileTree} {entries : List (Entry α)}

theorem isFileName_of_named {name : String} (h : Named entries name) : IsFileName name := by
  rcases h with h | h
  · exact isFileName_of_mem_diagnosticFiles h
  · obtain ⟨e, -, rfl⟩ := List.mem_map.1 h
    exact e.isFileName

/-- What is read under a name stays as it is while other names are reported. -/
theorem Reaches.read_eq {names : String → Prop} {name : String}
    (h : Reaches (FileTree.reporter output) names tree tree')
    (hnames : ∀ file, names file → IsFileName file) (hname : IsFileName name)
    (hfree : ¬names name) : tree'.read (output.child name) = tree.read (output.child name) := by
  induction h with
  | refl => rfl
  | report _ hfile lines ih =>
    rw [FileTree.read_left_reporter (hnames _ hfile) hname ?_ lines, ih]
    rintro rfl
    exact hfree hfile

variable [BinaryScalar α]

/-- The files of a directory hold some entries. -/
def Holds (output : Path) (tree : FileTree) (entries : List (Entry α)) : Prop :=
  ∀ e ∈ entries,
    tree.read (output.child e.file) = .ok (FileTree.textOfLines e.lines).toUTF8

/-- **Entries that have been recorded are held.** -/
theorem Recorded.holds (h : Recorded (FileTree.reporter output) entries tree tree')
    (hdistinct : (entries.map Entry.file).Nodup) : Holds output tree' entries := by
  induction h with
  | nil w => exact fun e he => absurd he List.not_mem_nil
  | diagnostics _ _ _ ih => exact ih hdistinct
  | @entry e entries tree v tree' h hrest ih =>
    rw [List.map_cons, List.nodup_cons] at hdistinct
    intro e' he'
    rcases List.mem_cons.1 he' with rfl | he'
    · -- what is recorded later has other names
      have hfree : ¬Named entries e'.file :=
        fun hnamed => hnamed.elim (fileName_notMem_diagnosticFiles _ _) hdistinct.1
      rw [hrest.reaches.read_eq (fun _ => isFileName_of_named) e'.isFileName hfree]
      exact FileTree.read_reporter h
    · exact ih hdistinct.2 e' he'

/-- What has been reported under other names leaves the entries held. -/
theorem Holds.of_reaches {names : String → Prop} (h : Holds output tree entries)
    (hreaches : Reaches (FileTree.reporter output) names tree tree')
    (hnames : ∀ file, names file → IsFileName file) (hfree : ∀ e ∈ entries, ¬names e.file) :
    Holds output tree' entries := by
  intro e he
  rw [hreaches.read_eq hnames e.isFileName (hfree e he)]
  exact h e he

end Files

end CarrierTransport.Run
