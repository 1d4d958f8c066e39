import CarrierTransport.Proofs.LinearSystem.RoundTrip
import CarrierTransport.Proofs.LinearSystem.Solve

/-!
# A system in use

A system is built once and then used over and over: its numbers are written, it is cleared, given
the equations of contacts and solved, and any of these may fail half way (`Call`). All that a use
keeps are the places of the system and the sizes of its arrays (`InUse`), and that is all that a
solve needs: two systems of one build with the same tolerance, coefficients and right hand side are
solved alike, whatever was done to either before (`InUse.solve_alike`). So a system in use is solved
like a new one with its numbers (`solve_in_use`), and there always is such a new one
(`exists_writes`).
-/

namespace CarrierTransport.LinearSystem

open Mesh (Topology)
open Transition

/-! ### Builds and uses -/

/-- What a system is built from. -/
inductive Build (α : Type)
  | mesh (mesh : Topology α) (sizes : Array Nat)
  | coordinates (number? : List Char → Option α) (lines : List (Except StorageError String))

/-- A number of a system overwritten, or all of its right hand side. -/
inductive Write (α : Type)
  | tolerance (value : α)
  | entry (row column : Nat) (f : α → α)
  | blockEntry (rowNode columnNode rowSub columnSub : Nat) (f : α → α)
  | rhs (f : Nat → α → α)
  | blockRhs (node sub : Nat) (f : α → α)

/-- A use of a system. -/
inductive Call (α : Type) : Type 1
  | write (w : Write α)
  | clear
  | applyDirichlet (node : Nat) (diagonal : α)
  | solve
  | solveObserved {ω : Type} (observer : SolveObserver α ω) (world : ω)

section Semantics

variable {α : Type} [Scalar α]

def Build.run : Build α → Except (MatrixError α) (BlockMatrix α)
  | mesh topology sizes => BlockMatrix.ofTopology topology sizes
  | coordinates number? lines => BlockMatrix.ofCoordinateLines number? lines

def Write.run : Write α → BlockMatrix α → Except (MatrixError α) (BlockMatrix α)
  | tolerance value, m => .ok { m with pivotTolerance := value }
  | entry row column f, m => m.modifyEntry row column f
  | blockEntry rowNode columnNode rowSub columnSub f, m =>
    m.modifyBlockEntry rowNode columnNode rowSub columnSub f
  | rhs f, m => .ok { m with rhs := m.rhs.mapIdx f }
  | blockRhs node sub f, m => m.modifyBlockRhs node sub f

/-- A call on a system in its workspace. -/
def Call.run : Call α → EStateM (MatrixError α) (BlockMatrix α × Workspace α) Unit
  | write w => onFirst (replace w.run)
  | clear => modify fun (m, ws) => (m.clear, ws.clear)
  | applyDirichlet node diagonal => onFirst (replace fun m => m.applyDirichlet node diagonal)
  | solve => BlockMatrix.solveIn
  | solveObserved observer world =>
    zoom (·, world) (fun after _ => after.1) (BlockMatrix.solveObservedIn observer)

namespace BlockMatrix

/-- A system as it leaves its build, in a workspace of its own. -/
def inWorkspace (base : BlockMatrix α) : BlockMatrix α × Workspace α :=
  (base, .ofEnvelope base.envelope)

/-- A system after some calls; one that failed leaves behind what it had done. -/
def afterCalls (base : BlockMatrix α) (calls : List (Call α)) : BlockMatrix α × Workspace α :=
  calls.foldl (fun s call => left (call.run s)) base.inWorkspace

/-- A new system with some numbers written into it. -/
def afterWrites (base : BlockMatrix α) (writes : List (Write α)) : BlockMatrix α × Workspace α :=
  base.afterCalls (writes.map .write)

/-! ### What every use keeps -/

/-- The places of a build, in a workspace of the right sizes. -/
structure InUse (base : BlockMatrix α) (s : BlockMatrix α × Workspace α) : Prop where
  places : base.SamePlaces s.1
  fits : s.2.Fits base.envelope

end BlockMatrix

end Semantics

section Kept

variable {α : Type} {base m : BlockMatrix α} {s : BlockMatrix α × Workspace α}

theorem Write.samePlaces {w : Write α} {m' : BlockMatrix α} (h : w.run m = .ok m') :
    m.SamePlaces m' := by
  cases w with
  | tolerance =>
    cases h
    exact ⟨rfl, rfl, rfl, rfl⟩
  | entry => exact BlockMatrix.samePlaces_of_modifyEntry h
  | blockEntry => exact BlockMatrix.samePlaces_of_modifyEntry (BlockMatrix.modifyBlockEntry_eq_ok h)
  | rhs =>
    cases h
    exact ⟨rfl, rfl, Array.size_mapIdx, rfl⟩
  | blockRhs => exact (BlockMatrix.sameSystem_of_modifyBlockRhs h).toSamePlaces

namespace BlockMatrix.InUse

theorem wellFormed (h : base.InUse s) (hbase : base.WellFormed) : s.1.WellFormed :=
  hbase.of_samePlaces h.places

theorem envelope (h : base.InUse s) : s.1.envelope = base.envelope := by
  rw [BlockMatrix.envelope, BlockMatrix.envelope, h.places.pattern]

theorem samePlaces {s' : BlockMatrix α × Workspace α} (h : base.InUse s) (h' : base.InUse s') :
    s.1.SamePlaces s'.1 where
  layout := h'.places.layout.trans h.places.layout.symm
  pattern := h'.places.pattern.trans h.places.pattern.symm
  rhs_size := h'.places.rhs_size.trans h.places.rhs_size.symm
  solution_size := h'.places.solution_size.trans h.places.solution_size.symm

/-- A change of the numbers alone, or a refusal of it. -/
theorem onFirst (h : base.InUse s) {next : BlockMatrix α → Except (MatrixError α) (BlockMatrix α)}
    (hnext : ∀ m', next s.1 = .ok m' → s.1.SamePlaces m') :
    Ends (fun _ => base.InUse) (fun _ => base.InUse) (onFirst (replace next) s) := by
  obtain ⟨m, ws⟩ := s
  apply Ends.onFirst
  rw [replace]
  cases hr : next m with
  | ok m' => exact .ok ⟨h.places.trans (hnext m' hr), h.fits⟩
  | error e => exact .error h

theorem lookIn {ω : Type} (observe : BlockMatrix α → EStateM StorageError ω Unit)
    {x : (BlockMatrix α × Workspace α) × ω} (h : base.InUse x.1) :
    Ends (fun _ y => base.InUse y.1) (fun _ y => base.InUse y.1)
      (SolveObserver.lookIn observe x) := by
  obtain ⟨⟨m, ws⟩, world⟩ := x
  apply Ends.zoom
  simp only [SolveObserver.look]
  cases observe m world with
  | ok u world' => exact .ok h
  | error e world' => exact .error h

variable [Scalar α]

/-- A solve keeps a system in use also where a pivot ends it. -/
theorem solveIn (h : base.InUse s) (hbase : base.WellFormed) :
    Ends (fun _ => base.InUse) (fun _ => base.InUse) (BlockMatrix.solveIn s) := by
  obtain ⟨m, ws⟩ := s
  have hm := h.wellFormed hbase
  have henvelope : m.envelope = base.envelope := h.envelope
  have hfits : ws.Fits m.envelope := henvelope ▸ h.fits
  have hsolve := sameSystem_solve hm
  obtain ⟨ws', hws', heq⟩ := solveIn_eq hm hfits
  rw [heq]
  rw [henvelope] at hws'
  cases hr : solve m with
  | ok u m' =>
    rw [hr] at hsolve
    exact .ok ⟨h.places.trans hsolve.toSamePlaces, hws'⟩
  | error e m' =>
    rw [hr] at hsolve
    exact .error ⟨h.places.trans hsolve.toSamePlaces, hws'⟩

theorem solveObservedIn {ω : Type} (observer : SolveObserver α ω) (hbase : base.WellFormed)
    {x : (BlockMatrix α × Workspace α) × ω} (h : base.InUse x.1) :
    Ends (fun _ y => base.InUse y.1) (fun _ y => base.InUse y.1)
      (BlockMatrix.solveObservedIn observer x) := by
  apply (lookIn observer.before h).bind
  rintro _ ⟨s, world⟩ hs
  have hsolve : Ends (fun _ y => base.InUse y.1) (fun _ y => base.InUse y.1)
      (CarrierTransport.onFirst BlockMatrix.solveIn (s, world)) := .onFirst (hs.solveIn hbase)
  apply hsolve.bind
  intro _ y hy
  exact lookIn observer.after hy

/-- **A system stays in use** through every call, however the call ends. -/
theorem run (hbase : base.WellFormed) (h : base.InUse s) (call : Call α) :
    Ends (fun _ => base.InUse) (fun _ => base.InUse) (call.run s) := by
  cases call with
  | write w => exact h.onFirst fun _ => Write.samePlaces
  | clear => exact .ok ⟨h.places.trans (sameSystem_clear s.1).toSamePlaces, h.fits.clear⟩
  | applyDirichlet node diagonal =>
    exact h.onFirst fun _ hm => (of_applyDirichlet hm).1.toSamePlaces
  | solve => exact h.solveIn hbase
  | solveObserved observer world =>
    rw [Call.run]
    exact .zoom (solveObservedIn observer hbase h)

end BlockMatrix.InUse

variable [Scalar α]

theorem Build.wellFormed {build : Build α} (h : build.run = .ok base) : base.WellFormed := by
  cases build with
  | mesh topology sizes => exact BlockMatrix.wellFormed_ofTopology h
  | coordinates number? lines => exact BlockMatrix.wellFormed_ofCoordinateLines h

namespace BlockMatrix

theorem inUse_inWorkspace (base : BlockMatrix α) : base.InUse base.inWorkspace :=
  ⟨.rfl, Workspace.fits_ofEnvelope base.envelope⟩

theorem inUse_afterCalls (hbase : base.WellFormed) (calls : List (Call α)) :
    base.InUse (base.afterCalls calls) := by
  refine Loop.foldl_invariant (fun _ => base.InUse) base.inUse_inWorkspace ?_
  intro _ call s hs
  exact (hs.run hbase call).left

/-! ### What a solve sees -/

/-- Rows are told apart by what is read of them. -/
theorem SamePlaces.rows_eq {m m' : BlockMatrix α} (hm : m.WellFormed) (h : m.SamePlaces m')
    (hentry : ∀ row column, m'.entry row column = m.entry row column) : m'.rows = m.rows := by
  apply hm.rows_eq (hm.of_samePlaces h) h.rowCount
  · intro row
    rw [h.columnsOf]
  · intro row column hcolumn
    have hread := hentry row column
    rw [entry_of_mem hcolumn, entry_of_mem (h.columnsOf ▸ hcolumn)] at hread
    exact Except.ok.inj hread

/-- The same solution and the same coefficients. -/
def SameAnswer (s s' : BlockMatrix α × Workspace α) : Prop :=
  s'.1.solution = s.1.solution ∧
    ∀ row column, s'.1.entry row column = s.1.entry row column

/-- The same coefficients. -/
def SameCoefficients (s s' : BlockMatrix α × Workspace α) : Prop :=
  ∀ row column, s'.1.entry row column = s.1.entry row column

theorem entry_eq_of_rows {m m' : BlockMatrix α} (h : m'.rows = m.rows) (row column : Nat) :
    m'.entry row column = m.entry row column := by
  simp only [entry, position, coefficient, h]

/-- Two systems of one build that agree in their numbers are solved alike. -/
theorem InUse.solve_alike {s s' : BlockMatrix α × Workspace α} (hbase : base.WellFormed)
    (h : base.InUse s) (h' : base.InUse s')
    (htolerance : s'.1.pivotTolerance = s.1.pivotTolerance)
    (hentry : ∀ row column, s'.1.entry row column = s.1.entry row column)
    (hrhs : s'.1.rhs = s.1.rhs) :
    EndAlike SameAnswer SameCoefficients (BlockMatrix.solveIn s) (BlockMatrix.solveIn s') := by
  obtain ⟨m, ws⟩ := s
  obtain ⟨m', ws'⟩ := s'
  have hm := h.wellFormed hbase
  have hm' := h'.wellFormed hbase
  have hrows := (h.samePlaces h').rows_eq hm hentry
  refine (endAlike_solveIn hm hm' hrows hrhs htolerance ?_ ?_).mono ?_ ?_
  · exact h.envelope ▸ h.fits
  · exact h'.envelope ▸ h'.fits
  · exact fun _ _ heq => ⟨heq.2, entry_eq_of_rows heq.1⟩
  · exact fun _ _ heq => entry_eq_of_rows heq

/-! ### New systems -/

/-- Writes that all succeed, one after the other. -/
theorem foldl_writes {writes : List (Write α)} {m m' : BlockMatrix α} (ws : Workspace α)
    (h : writes.foldlM (fun m w => w.run m) m = .ok m') :
    (writes.map Call.write).foldl (fun s call => left (call.run s)) (m, ws) = (m', ws) := by
  induction writes generalizing m with
  | nil =>
    cases h
    rfl
  | cons w writes ih =>
    rw [List.foldlM_cons] at h
    obtain ⟨next, hnext, hrest⟩ := except_bind_eq_ok.1 h
    have hstep : left ((Call.write w).run (m, ws)) = (next, ws) := by
      simp only [Call.run, onFirst, replace, hnext]
      rfl
    rw [List.map_cons, List.foldl_cons, hstep]
    exact ih hrest

/-- The last value listed for a place is the coefficient there, whatever was there before. -/
theorem WellFormed.elim_coefficients (hm : m.WellFormed) {row column : Nat}
    (h : column ∈ m.columnsOf row) (before : α) :
    (m.coefficients.filter fun t => t.row == row && t.column == column).getLast?.elim before
      Triplet.value = m.coefficient row column := by
  obtain ⟨t, ht, hrow, hcolumn⟩ := exists_mem_coefficients.2 h
  have hmem : t ∈ m.coefficients.filter fun t => t.row == row && t.column == column := by
    simp [ht, hrow, hcolumn]
  rw [← hm.lastValue_coefficients h, lastValue]
  cases hlast : (m.coefficients.filter fun t => t.row == row && t.column == column).getLast? with
  | none =>
    rw [List.getLast?_eq_none_iff.1 hlast] at hmem
    cases hmem
  | some t' => rfl

/-- **There is a new system with the numbers of every system in use.** -/
theorem exists_writes (hbase : base.WellFormed) (h : base.SamePlaces m) :
    ∃ writes, (base.afterWrites writes).1.pivotTolerance = m.pivotTolerance ∧
      (∀ row column, (base.afterWrites writes).1.entry row column = m.entry row column) ∧
      (base.afterWrites writes).1.rhs = m.rhs := by
  have hm := hbase.of_samePlaces h
  -- every coefficient is written on its own, then the tolerance and the right hand side
  let entries : List (Write α) := m.coefficients.map fun t => .entry t.row t.column fun _ => t.value
  let others : List (Write α) := [.tolerance m.pivotTolerance, .rhs fun row _ => m.rhs.getD row 0]
  have hplaces : ∀ t ∈ m.coefficients, t.column ∈ base.columnsOf t.row := by
    intro t ht
    rw [← h.columnsOf]
    exact exists_mem_coefficients.1 ⟨t, ht, rfl, rfl⟩
  obtain ⟨m', hm', -, hcoefficient⟩ := exists_foldlM_modifyEntry hplaces
  have hsame := samePlaces_of_foldlM_modifyEntry hm'
  have hwrites : (entries ++ others).foldlM (fun m w => w.run m) base =
      .ok { m' with
        pivotTolerance := m.pivotTolerance
        rhs := m'.rhs.mapIdx fun row _ => m.rhs.getD row 0 } := by
    rw [List.foldlM_append, List.foldlM_map]
    exact except_bind_eq_ok.2 ⟨m', hm', rfl⟩
  refine ⟨entries ++ others, ?_⟩
  rw [afterWrites, afterCalls, inWorkspace, foldl_writes _ hwrites]
  refine ⟨rfl, fun row column => ?_, ?_⟩
  · have hrows : m'.rows = m.rows := by
      apply hm.rows_eq (hbase.of_samePlaces hsame) (hsame.rowCount.trans h.rowCount.symm)
      · intro row
        rw [hsame.columnsOf, h.columnsOf]
      · intro row column hcolumn
        rw [hcoefficient, hm.elim_coefficients hcolumn]
    exact entry_eq_of_rows (m := m) hrows row column
  · refine Array.ext ?_ fun row hrow hrow' => ?_
    · rw [Array.size_mapIdx, hsame.rhs_size, h.rhs_size]
    · rw [Array.getElem_mapIdx, Array.getD_eq_getD_getElem?, Array.getElem?_eq_getElem hrow']
      rfl

/-- **A system in use is solved like a new one.** Whatever was done to a system since it was built,
solves that failed half way included, a solve has the outcome that it has on a new system of the
same build into which only numbers were written, so that both have the same tolerance, coefficients
and right hand side: the same solution, or the same pivot in the same row, and the same coefficients
afterwards. -/
theorem solve_in_use {build : Build α} (hbuild : build.run = .ok base) (calls : List (Call α))
    (writes : List (Write α))
    (htolerance :
      (base.afterWrites writes).1.pivotTolerance = (base.afterCalls calls).1.pivotTolerance)
    (hentry : ∀ row column,
      (base.afterWrites writes).1.entry row column = (base.afterCalls calls).1.entry row column)
    (hrhs : (base.afterWrites writes).1.rhs = (base.afterCalls calls).1.rhs) :
    EndAlike SameAnswer SameCoefficients (solveIn (base.afterCalls calls))
      (solveIn (base.afterWrites writes)) := by
  have hbase := Build.wellFormed hbuild
  exact (inUse_afterCalls hbase calls).solve_alike hbase (inUse_afterCalls hbase _) htolerance hentry
    hrhs

/-! ### The star in use -/

/-- Coefficients that make the star singular. -/
def singularWrites : List (Write ℚ) :=
  (star (3 / 5)).coefficients.map fun t => .entry t.row t.column fun _ => t.value

/-- A solve of the singular star fails in its last row, with two rows eliminated. -/
theorem solveIn_singularWrites :
    ∃ magnitude s, solveIn (starBase.1.afterWrites singularWrites) =
      .error (.singularPivot 2 magnitude) s := by
  have hrefused : (match solveIn (starBase.1.afterWrites singularWrites) with
      | .error (.singularPivot 2 _) _ => true
      | _ => false) = true := by
    decide +kernel
  split at hrefused
  · next magnitude s h => exact ⟨magnitude, s, h⟩
  · cases hrefused

/-- The solve that fails, one that does not, and a contact in the place of an equation. -/
def starCalls : List (Call ℚ) :=
  singularWrites.map .write ++
    [.solve, .write (.blockEntry 2 2 0 0 fun _ => 4), .write (.rhs fun row _ => row), .solve,
      .write (.entry 1 2 fun _ => 7), .applyDirichlet 0 1]

theorem solve_in_use_star :
    Build.run (.mesh starMesh #[1, 1, 1]) = .ok starBase.1 ∧
      (∃ magnitude s, solveIn (starBase.1.afterWrites singularWrites) =
        .error (.singularPivot 2 magnitude) s) ∧
      ∃ writes,
        (starBase.1.afterWrites writes).1.rhs = (starBase.1.afterCalls starCalls).1.rhs ∧
        EndAlike SameAnswer SameCoefficients (solveIn (starBase.1.afterCalls starCalls))
          (solveIn (starBase.1.afterWrites writes)) := by
  have hbuild : Build.run (.mesh starMesh #[1, 1, 1]) = .ok starBase.1 := starBase.2.1
  have hbase := Build.wellFormed hbuild
  obtain ⟨writes, htolerance, hentry, hrhs⟩ :=
    exists_writes hbase (inUse_afterCalls hbase starCalls).places
  refine ⟨hbuild, solveIn_singularWrites, writes, hrhs, ?_⟩
  exact solve_in_use hbuild starCalls writes htolerance hentry hrhs

end BlockMatrix

end Kept

end CarrierTransport.LinearSystem
