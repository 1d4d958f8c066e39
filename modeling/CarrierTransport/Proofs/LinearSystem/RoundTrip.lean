import CarrierTransport.Proofs.Decimal.RoundTrip
import CarrierTransport.Proofs.LinearSystem.Coordinate
import CarrierTransport.Proofs.LinearSystem.Workspace
import CarrierTransport.Proofs.Text.Words

/-!
# Systems survive their coordinate files

A coordinate file lists every stored coefficient of a matrix, with as many digits as it takes to
tell any two numbers apart. The text has the format that is read (`reads_coordinateLines`), and
what is read has the places and the coefficients that were written: the listed positions are the
pattern, which is closed already, and every position is listed once (`rows_eq_of_matrixOf`). Only
the partition into blocks is lost, and a solve does not look at it
(`BlockMatrix.coordinate_round_trip`).
-/

namespace CarrierTransport.LinearSystem

open Float.Model (UnpackedFloat)
open Transition

namespace BlockMatrix

/-! ### Rows, columns and coefficients -/

theorem getD_rows {α : Type} {m : BlockMatrix α} {row : ℕ} (h : row < m.rows.size) :
    m.rows.getD row #[] = m.rows[row] := by
  rw [Array.getD_eq_getD_getElem?, Array.getElem?_eq_getElem h, Option.getD_some]

theorem mem_getD_rows {α : Type} {m : BlockMatrix α} {row : ℕ} {e : Entry α} :
    e ∈ (m.rows.getD row #[]).toList ↔ ∃ h : row < m.rows.size, e ∈ m.rows[row].toList := by
  by_cases h : row < m.rows.size
  · rw [getD_rows h]
    exact ⟨fun he => ⟨h, he⟩, fun ⟨_, he⟩ => he⟩
  · rw [Array.getD_eq_getD_getElem?, Array.getElem?_eq_none (not_lt.1 h), Option.getD_none]
    exact ⟨nofun, fun ⟨h', _⟩ => absurd h' h⟩

section Rows

variable {α : Type} [Scalar α] {m m' : BlockMatrix α}

theorem WellFormed.coefficient_eq_value (hm : m.WellFormed) {row : ℕ} {e : Entry α}
    (he : e ∈ (m.rows.getD row #[]).toList) : m.coefficient row e.column = e.value := by
  have hasc := hm.ascending row
  rw [columnsOf_eq_map, List.pairwise_map] at hasc
  obtain ⟨before, after, hentries⟩ := List.append_of_mem he
  rw [hentries, List.pairwise_append] at hasc
  -- no coefficient before has the same column
  have hnone : (before.find? fun e' => e'.column == e.column) = none := by
    rw [List.find?_eq_none]
    intro e' he' hcolumn
    exact (hasc.2.2 e' he' e List.mem_cons_self).ne (beq_iff_eq.1 hcolumn)
  rw [coefficient_eq_elim, hentries, List.find?_append, hnone, Option.none_or,
    List.find?_cons_of_pos (by simp)]
  rfl

/-- A row is made of its columns and its coefficients. -/
theorem WellFormed.row_eq_map (hm : m.WellFormed) (row : ℕ) :
    (m.rows.getD row #[]).toList =
      (m.columnsOf row).map fun column => ⟨column, m.coefficient row column⟩ := by
  rw [columnsOf_eq_map, List.map_map]
  refine (List.map_id _).symm.trans (List.map_congr_left fun e he => ?_)
  rw [Function.comp_apply, hm.coefficient_eq_value he]
  rfl

/-- Places and coefficients determine the rows. -/
theorem WellFormed.rows_eq (hm : m.WellFormed) (hm' : m'.WellFormed)
    (hcount : m'.rowCount = m.rowCount) (hcolumns : ∀ row, m'.columnsOf row = m.columnsOf row)
    (hcoefficient : ∀ row, ∀ column ∈ m.columnsOf row,
      m'.coefficient row column = m.coefficient row column) : m'.rows = m.rows := by
  refine Array.ext hcount fun row hrow' hrow => Array.toList_inj.1 ?_
  have hmap := hm.row_eq_map row
  have hmap' := hm'.row_eq_map row
  rw [getD_rows hrow] at hmap
  rw [getD_rows hrow', hcolumns] at hmap'
  rw [hmap, hmap']
  exact List.map_congr_left fun column hcolumn => by rw [hcoefficient row column hcolumn]

/-- Every unknown meets itself. -/
theorem Built.mem_columnsOf_self (hm : m.Built) {row : ℕ} (hrow : row < m.rowCount) :
    row ∈ m.columnsOf row := by
  cases hm with
  | ofTopology hbase hplaces =>
    rw [hplaces.columnsOf]
    rw [hplaces.rowCount] at hrow
    exact (couplesBlocks_ofTopology hbase).diagonal row hrow
  | ofCoordinateLines hbase hplaces =>
    rw [hplaces.columnsOf]
    rw [hplaces.rowCount] at hrow
    obtain ⟨n, triplets, hinside, hof⟩ := exists_ofTriplets hbase
    obtain ⟨m₀, hm₀, hmatrix⟩ := matrixOf_ofTriplets hinside
    obtain rfl := Except.ok.inj (hm₀.symm.trans hof)
    rw [hmatrix.rowCount] at hrow
    exact (hmatrix.mem_columnsOf row row).2 (.inl ⟨hrow, rfl⟩)

end Rows

/-! ### The listed coefficients -/

section Listed

variable {α : Type} [Scalar α] {m m' : BlockMatrix α}

/-- The coefficients in the order of the coordinate file. -/
def coefficients (m : BlockMatrix α) : List (Triplet α) :=
  (m.rows.mapIdx fun row entries =>
    entries.toList.map fun e => ⟨row, e.column, e.value⟩).toList.flatten

omit [Scalar α] in
theorem mem_coefficients {t : Triplet α} :
    t ∈ m.coefficients ↔ ⟨t.column, t.value⟩ ∈ (m.rows.getD t.row #[]).toList := by
  rw [coefficients, List.mem_flatten, mem_getD_rows]
  constructor
  · rintro ⟨list, hlist, ht⟩
    obtain ⟨row, hrow, rfl⟩ := Array.mem_mapIdx.1 (Array.mem_toList_iff.1 hlist)
    obtain ⟨e, he, rfl⟩ := List.mem_map.1 ht
    exact ⟨hrow, he⟩
  · rintro ⟨hrow, he⟩
    exact ⟨_, Array.mem_toList_iff.2 (Array.mem_mapIdx.2 ⟨t.row, hrow, rfl⟩),
      List.mem_map.2 ⟨_, he, rfl⟩⟩

omit [Scalar α] in
theorem exists_mem_coefficients {row column : ℕ} :
    (∃ t ∈ m.coefficients, t.row = row ∧ t.column = column) ↔ column ∈ m.columnsOf row := by
  rw [columnsOf_eq_map, List.mem_map]
  constructor
  · rintro ⟨t, ht, rfl, rfl⟩
    exact ⟨_, mem_coefficients.1 ht, rfl⟩
  · rintro ⟨e, he, rfl⟩
    exact ⟨⟨row, e.column, e.value⟩, mem_coefficients.2 he, rfl, rfl⟩

/-- The only value listed for a position is the coefficient there. -/
theorem WellFormed.lastValue_coefficients (hm : m.WellFormed) {row column : ℕ}
    (h : column ∈ m.columnsOf row) :
    lastValue m.coefficients row column = m.coefficient row column := by
  obtain ⟨t, ht, rfl, rfl⟩ := exists_mem_coefficients.2 h
  rw [lastValue]
  generalize hlisted : (m.coefficients.filter fun t' =>
    t'.row == t.row && t'.column == t.column) = listed
  have hmem : ∀ t' ∈ listed, t' ∈ m.coefficients ∧ t'.row = t.row ∧ t'.column = t.column := by
    intro t' ht'
    rw [← hlisted, List.mem_filter, Bool.and_eq_true, beq_iff_eq, beq_iff_eq] at ht'
    exact ht'
  have hne : listed ≠ [] := by
    refine List.ne_nil_of_mem (a := t) ?_
    rw [← hlisted, List.mem_filter]
    exact ⟨ht, by simp⟩
  obtain ⟨hlast, hrow, hcolumn⟩ := hmem _ (List.getLast_mem hne)
  have hvalue := hm.coefficient_eq_value (mem_coefficients.1 hlast)
  rw [hrow, hcolumn] at hvalue
  rw [List.getLast?_eq_some_getLast hne, Option.elim_some, hvalue]

/-- **The matrix of all coefficients has the rows that they were listed from.** -/
theorem rows_eq_of_matrixOf (hm : m.Built) (hm' : m'.WellFormed)
    (h : m'.MatrixOf m.rowCount m.coefficients) : m'.rows = m.rows := by
  have hwell := hm.wellFormed
  have hcolumns : ∀ row, m'.columnsOf row = m.columnsOf row := by
    intro row
    refine (hm'.ascending row).eq_of_mem_iff (hwell.ascending row) fun column => ?_
    rw [h.mem_columnsOf]
    constructor
    -- the pattern is closed, so nothing is added to what is listed
    · rintro (⟨hrow, rfl⟩ | ⟨t, ht, hposition | hposition⟩)
      · exact hm.mem_columnsOf_self hrow
      · exact exists_mem_coefficients.1 ⟨t, ht, hposition⟩
      · exact hwell.symm _ _ (exists_mem_coefficients.1 ⟨t, ht, hposition⟩)
    · intro hcolumn
      obtain ⟨t, ht, hposition⟩ := exists_mem_coefficients.2 hcolumn
      exact .inr ⟨t, ht, .inl hposition⟩
  refine hwell.rows_eq hm' h.rowCount hcolumns fun row column hcolumn => ?_
  have hplace : column ∈ m'.columnsOf row := hcolumns row ▸ hcolumn
  have hentry := h.entry row column hplace
  rw [entry_of_mem hplace, hwell.lastValue_coefficients hcolumn] at hentry
  exact Except.ok.inj hentry

/-- There are no more rows than coefficients. -/
theorem Built.rowCount_le_entryCount (hm : m.Built) : m.rowCount ≤ m.entryCount := by
  have hsum : ∀ rows : List (Array (Entry α)), (∀ row ∈ rows, 0 < row.size) → ∀ n,
      n + rows.length ≤ rows.foldl (fun n row => n + row.size) n := by
    intro rows hrows
    induction rows with
    | nil => exact fun n => le_rfl
    | cons row rows ih =>
      intro n
      have hrow := hrows row List.mem_cons_self
      have hrest := ih (fun r hr => hrows r (List.mem_cons_of_mem row hr)) (n + row.size)
      rw [List.foldl_cons, List.length_cons]
      omega
  have hpos : ∀ row ∈ m.rows.toList, 0 < row.size := by
    intro entries hentries
    obtain ⟨row, hrow, rfl⟩ := List.getElem_of_mem hentries
    rw [Array.length_toList] at hrow
    have hself := hm.mem_columnsOf_self hrow
    rw [columnsOf_eq_map, getD_rows hrow] at hself
    obtain ⟨e, he, -⟩ := List.mem_map.1 hself
    exact Array.size_pos_of_mem (Array.mem_toList_iff.1 he)
  have hcount := hsum m.rows.toList hpos 0
  rwa [zero_add, Array.length_toList, Array.foldl_toList] at hcount

end Listed

end BlockMatrix

/-! ### The text of a system -/

/-- Words behind which there is no comment are data. -/
theorem isData_unwords {w : List Char} {ws : List (List Char)}
    (h : ∀ v ∈ w :: ws, Text.IsWord v) (hw : w.head? ≠ some '%') :
    isData (Text.unwords (w :: ws)) = true := by
  have hne := (h w List.mem_cons_self).1
  rw [isData, Text.trim_unwords h, Text.head_unwords hne]
  simpa using ⟨Text.unwords_ne_nil hne ws, hw⟩

theorem isLine_unwords {ws : List (List Char)} (h : ∀ w ∈ ws, Text.IsWord w) :
    Text.IsLine (Text.unwords ws) := by
  constructor
  · intro hfeed
    obtain hspace | ⟨w, hw, hc⟩ := Text.eq_or_mem_of_mem_unwords hfeed
    · cases hspace
    · exact absurd ((h w hw).2 _ hc) (by decide)
  · intro hreturn
    exact absurd (Text.isBlank_getLast_unwords h _ hreturn) (by decide)

theorem head_digits_ne (n : ℕ) : (Decimal.digits n).head? ≠ some '%' := by
  intro h
  exact absurd (Decimal.isDigit_of_mem_digits (List.mem_of_mem_head? h)) (by decide)

/-- The first line. -/
def commentLine : String :=
  "% block matrix, one-based row column value"

section Size

variable {α : Type} (m : BlockMatrix α)

/-- The words of the size line. -/
def sizeWords : List (List Char) :=
  [Decimal.digits m.rowCount, Decimal.digits m.rowCount, Decimal.digits m.entryCount]

theorem isWord_sizeWords : ∀ w ∈ sizeWords m, Text.IsWord w := by
  simp [sizeWords, Text.isWord_digits]

theorem isData_sizeWords : isData (Text.unwords (sizeWords m)) = true :=
  isData_unwords (isWord_sizeWords m) (head_digits_ne _)

end Size

section Text

variable {α : Type} [BinaryScalar α] (t : Triplet α)

/-- The words of a listed coefficient. -/
def coefficientWords : List (List Char) :=
  [Decimal.digits (t.row + 1), Decimal.digits (t.column + 1),
    Decimal.fixed 17 (BinaryScalar.unpack t.value)]

theorem isWord_coefficientWords : ∀ w ∈ coefficientWords t, Text.IsWord w := by
  simp [coefficientWords, Text.isWord_digits, Decimal.isWord_fixed]

theorem isData_coefficientWords : isData (Text.unwords (coefficientWords t)) = true :=
  isData_unwords (isWord_coefficientWords t) (head_digits_ne _)

/-- Three words with a blank between any two. -/
theorem toList_threeWords (a b : ℕ) (word : String) :
    (s!"{a} {b} {word}").toList =
      Text.unwords [Decimal.digits a, Decimal.digits b, word.toList] := by
  have hblank : (toString " ").toList = [' '] := rfl
  have hword : (toString word).toList = word.toList := rfl
  simp only [String.toList_append, Decimal.toList_toString, hblank, hword]
  rw [Text.unwords_cons_cons, Text.unwords_cons_cons, Text.unwords_singleton]
  simp

/-- The lines are the comment and words. -/
theorem toList_coordinateLines (m : BlockMatrix α) :
    m.coordinateLines.map String.toList = commentLine.toList :: Text.unwords (sizeWords m) ::
      m.coefficients.map fun t => Text.unwords (coefficientWords t) := by
  have hcoefficients : (m.rows.mapIdx fun row entries => entries.toList.map fun e =>
      s!"{row + 1} {e.column + 1} {BlockMatrix.fullText e.value}").toList.flatten =
      m.coefficients.map fun t =>
        s!"{t.row + 1} {t.column + 1} {BlockMatrix.fullText t.value}" := by
    rw [BlockMatrix.coefficients, List.map_flatten, Array.toList_mapIdx, Array.toList_mapIdx]
    refine congrArg List.flatten (List.ext_getElem (by simp) fun row hrow hrow' => ?_)
    simp only [List.getElem_map, List.getElem_mapIdx, List.map_map, Function.comp_def]
  have hline : ∀ t : Triplet α,
      (s!"{t.row + 1} {t.column + 1} {BlockMatrix.fullText t.value}").toList =
        Text.unwords (coefficientWords t) := by
    intro t
    rw [toList_threeWords, BlockMatrix.fullText, Decimal.toDigits, String.toList_ofList]
    rfl
  have hsize : (s!"{m.rowCount} {m.rowCount} {m.entryCount}").toList =
      Text.unwords (sizeWords m) := by
    have hwords := toList_threeWords m.rowCount m.rowCount (toString m.entryCount)
    rwa [Decimal.toList_toString] at hwords
  rw [BlockMatrix.coordinateLines, hcoefficients]
  simp only [List.map_append, List.map_cons, List.map_nil, List.map_map, Function.comp_def, hline,
    hsize]
  rfl

theorem isLine_coordinateLines (m : BlockMatrix α) :
    ∀ line ∈ m.coordinateLines, Text.IsLine line.toList := by
  have hlines : ∀ line ∈ m.coordinateLines.map String.toList, Text.IsLine line := by
    rw [toList_coordinateLines]
    refine List.forall_mem_cons.2 ⟨⟨by decide, by decide⟩, List.forall_mem_cons.2 ⟨?_, ?_⟩⟩
    · exact isLine_unwords (isWord_sizeWords m)
    · intro line hline
      obtain ⟨t, -, rfl⟩ := List.mem_map.1 hline
      exact isLine_unwords (isWord_coefficientWords t)
  exact fun line hline => hlines _ (List.mem_map_of_mem hline)

end Text

/-! ### Reading the text -/

section Reading

variable {α : Type} [PackedScalar α] {m : BlockMatrix α}

/-- A listed coefficient is read. -/
theorem isTriplet_coefficientWords {n : ℕ} (hn : n < Text.indexLimit) {t : Triplet α}
    (hrow : t.row < n) (hcolumn : t.column < n) (hvalue : BinaryScalar.IsFinite t.value) :
    IsTriplet Decimal.read? n (coefficientWords t) t :=
  ⟨_, _, _, rfl, ⟨Text.index_digits (by omega), hrow⟩, ⟨Text.index_digits (by omega), hcolumn⟩,
    Decimal.read_fixed hvalue⟩

/-- Every coefficient has a data line, in the order of the list. -/
theorem forall₂_dataLines {n : ℕ} (hn : n < Text.indexLimit) {triplets : List (Triplet α)}
    (hinside : Inside n triplets) (hfinite : ∀ t ∈ triplets, BinaryScalar.IsFinite t.value)
    (number : ℕ) :
    List.Forall₂ (fun d t => IsTriplet Decimal.read? n d.words t)
      (dataLines number (triplets.map fun t => Text.unwords (coefficientWords t))) triplets := by
  induction triplets generalizing number with
  | nil => exact .nil
  | cons t triplets ih =>
    have hwords := isWord_coefficientWords t
    obtain ⟨hrow, hcolumn⟩ := hinside t List.mem_cons_self
    rw [List.map_cons, dataLines_cons, if_pos (isData_coefficientWords t),
      Text.trim_unwords hwords, Text.words_unwords hwords]
    refine .cons ?_ (ih (fun t' ht' => hinside t' (List.mem_cons_of_mem t ht'))
      (fun t' ht' => hfinite t' (List.mem_cons_of_mem t ht')) (number + 1))
    exact isTriplet_coefficientWords hn hrow hcolumn (hfinite t List.mem_cons_self)

/-- **The text of a system has the format that is read.** -/
theorem reads_coordinateLines (hinside : Inside m.rowCount m.coefficients)
    (hfinite : ∀ t ∈ m.coefficients, BinaryScalar.IsFinite t.value)
    (hrows : m.rowCount < Text.indexLimit) (hentries : m.entryCount < Text.indexLimit) :
    Reads Decimal.read? (dataLines 1 (m.coordinateLines.map String.toList)) m.rowCount
      m.coefficients := by
  have hwords := isWord_sizeWords m
  rw [toList_coordinateLines, dataLines_cons, if_neg (by decide), dataLines_cons,
    if_pos (isData_sizeWords m), Text.trim_unwords hwords,
    Text.words_unwords hwords]
  exact ⟨_, _, rfl, ⟨_, _, _, _, rfl, Text.index_digits hrows, Text.index_digits hrows,
    Text.index_digits hentries⟩, forall₂_dataLines hrows hinside hfinite 3⟩

end Reading

/-! ### Solving what was read -/

namespace BlockMatrix

section Solving

variable {α : Type} [Scalar α] {m m' : BlockMatrix α}

/-- A solve depends on rows, right hand side and tolerance alone. -/
theorem endAlike_solve (hrows : m'.rows = m.rows) (hrhs : m'.rhs = m.rhs)
    (htolerance : m'.pivotTolerance = m.pivotTolerance) :
    EndAlike (fun s s' => s'.rows = s.rows ∧ s'.solution = s.solution)
      (fun s s' => s'.rows = s.rows) (solve m) (solve m') := by
  obtain ⟨layout, rows, rhs, x, tolerance⟩ := m
  obtain ⟨layout', rows', rhs', x', tolerance'⟩ := m'
  obtain rfl : rows' = rows := hrows
  obtain rfl : rhs' = rhs := hrhs
  obtain rfl : tolerance' = tolerance := htolerance
  rw [solve_eq_factorise, solve_eq_factorise]
  have henvelope : envelope ⟨layout', rows', rhs', x', tolerance'⟩ =
      envelope ⟨layout, rows', rhs', x, tolerance'⟩ := rfl
  have hscaled : (scaled ⟨layout', rows', rhs', x', tolerance'⟩).coefficient =
      (scaled ⟨layout, rows', rhs', x, tolerance'⟩).coefficient := rfl
  rw [henvelope, hscaled]
  dsimp only
  cases factorise (envelope ⟨layout, rows', rhs', x, tolerance'⟩)
      (scaled ⟨layout, rows', rhs', x, tolerance'⟩).coefficient tolerance' with
  | error pivot => exact .error _ rfl
  | ok F => exact .ok () ⟨rfl, rfl⟩

/-- So does a solve in a workspace. -/
theorem endAlike_solveIn (hm : m.WellFormed) (hm' : m'.WellFormed) (hrows : m'.rows = m.rows)
    (hrhs : m'.rhs = m.rhs) (htolerance : m'.pivotTolerance = m.pivotTolerance)
    {ws ws' : Workspace α} (hws : ws.Fits m.envelope) (hws' : ws'.Fits m'.envelope) :
    EndAlike (fun s s' => s'.1.rows = s.1.rows ∧ s'.1.solution = s.1.solution)
      (fun s s' => s'.1.rows = s.1.rows) (solveIn (m, ws)) (solveIn (m', ws')) := by
  obtain ⟨next, -, hnext⟩ := solveIn_eq hm hws
  obtain ⟨next', -, hnext'⟩ := solveIn_eq hm' hws'
  have hsolve := endAlike_solve hrows hrhs htolerance
  rw [hnext, hnext']
  generalize solve m = result at hsolve ⊢
  generalize solve m' = result' at hsolve ⊢
  cases hsolve with
  | ok u h => exact .ok u h
  | error e h => exact .error e h

omit [Scalar α] in
theorem WellFormed.withRhs (hm : m.WellFormed) {b : Array α} (hb : b.size = m.rowCount)
    (tolerance : α) : WellFormed { m with rhs := b, pivotTolerance := tolerance } :=
  ⟨hb, hm.solution_size, hm.ascending, hm.lt, hm.symm⟩

end Solving

/-! ### A system in both precisions -/

/-- The places of a new system have nothing to do with numbers. -/
theorem pattern_ofCouplings {α : Type} [Scalar α] (layout : Layout) (c : Couplings) :
    (ofCouplings (α := α) layout c).pattern = (List.range layout.nodeCount).toArray.flatMap
      fun node => Array.replicate (layout.sizes.getD node 0) (c.columns layout node).toArray := by
  simp [pattern, ofCouplings, Array.map_flatMap, Function.comp_def]

/-- Two joined nodes. -/
def pairMesh (α : Type) [Scalar α] : Mesh.Topology α where
  nodes := #[⟨[0], 0⟩, ⟨[0], 0⟩]
  elements := #[⟨0, 1, 1, 1, 0⟩]

/-- A system on the pair with one unknown and two. Its coefficients are a negative zero, decimals
that no binary number equals, and the given ones. -/
def mixed {α : Type} [Scalar α] (least greatest : α) : BlockMatrix α where
  layout := .ofSizes #[1, 2]
  rows := #[#[⟨0, 0.1⟩, ⟨1, -0⟩, ⟨2, least⟩], #[⟨0, 0⟩, ⟨1, greatest⟩, ⟨2, 0.3⟩],
    #[⟨0, 1⟩, ⟨1, 0⟩, ⟨2, 7e22⟩]]
  rhs := #[0, 0, 0]
  solution := #[0, 0, 0]
  pivotTolerance := defaultPivotTolerance

theorem built_mixed {α : Type} [Scalar α] (least greatest : α) : (mixed least greatest).Built := by
  have hbase : ofTopology (pairMesh α) #[1, 2] =
      .ok (ofCouplings (.ofSizes #[1, 2]) (.ofPairs 2 [(0, 1)])) := by
    have hsizes : #[1, 2].findIdx? (· == 0) = none := by simp
    rw [ofTopology, if_neg (by simp [pairMesh]), hsizes]
    rfl
  have hpattern : (ofCouplings (α := α) (.ofSizes #[1, 2]) (.ofPairs 2 [(0, 1)])).pattern =
      #[#[0, 1, 2], #[0, 1, 2], #[0, 1, 2]] := by
    rw [pattern_ofCouplings]
    cbv
  exact .ofTopology hbase ⟨rfl, by rw [hpattern]; simp [pattern, mixed], rfl, rfl⟩

/-- A system of finite coefficients. -/
abbrev FiniteSystem (α : Type) [BinaryScalar α] : Type :=
  { m : BlockMatrix α // ∀ entries ∈ m.rows, ∀ e ∈ entries, BinaryScalar.IsFinite e.value }

/-- With the least and the greatest number of double precision. -/
def mixedDouble : FiniteSystem Float :=
  ⟨mixed 5e-324 1.7976931348623157e308, by decide +kernel⟩

/-- With the least and the greatest number of single precision. -/
def mixedSingle : FiniteSystem Float32 :=
  ⟨mixed 1e-45 3.4028235e38, by decide +kernel⟩

/-! ### The round trip -/

section RoundTrip

variable {α : Type} [PackedScalar α] {m : BlockMatrix α}

/-- **A system survives its coordinate file.** Written and read again, a system of finite
coefficients has the rows it had, to the last bit of every coefficient. Only its partition into
blocks is lost, and with the same right hand side and tolerance a solve of what was read ends as one
of the system itself does, whatever either workspace held before. The number of coefficients fits
into the machine, as it does for every system that there is room for. -/
theorem coordinate_round_trip (hm : m.Built)
    (hfinite : ∀ entries ∈ m.rows, ∀ e ∈ entries, BinaryScalar.IsFinite e.value)
    (hcount : m.entryCount < Text.indexLimit) :
    ∃ m' : BlockMatrix α,
      ofCoordinateFile (FileTree.textOfLines m.coordinateLines).toUTF8 = .ok m' ∧
      m'.rowCount = m.rowCount ∧ m'.pattern = m.pattern ∧ m'.rows = m.rows ∧
      ∀ (b : Array α) (tolerance : α), b.size = m.rowCount →
        ∀ ws ws' : Workspace α, ws.Fits m.envelope → ws'.Fits m'.envelope →
          EndAlike (fun s s' => s'.1.rows = s.1.rows ∧ s'.1.solution = s.1.solution)
            (fun s s' => s'.1.rows = s.1.rows)
            (solveIn ({ m with rhs := b, pivotTolerance := tolerance }, ws))
            (solveIn ({ m' with rhs := b, pivotTolerance := tolerance }, ws')) := by
  have hwell := hm.wellFormed
  have hinside : Inside m.rowCount m.coefficients := by
    intro t ht
    have hcolumn := exists_mem_coefficients.1 ⟨t, ht, rfl, rfl⟩
    exact ⟨hwell.lt _ _ (hwell.symm _ _ hcolumn), hwell.lt _ _ hcolumn⟩
  have hvalues : ∀ t ∈ m.coefficients, BinaryScalar.IsFinite t.value := by
    intro t ht
    obtain ⟨hrow, he⟩ := mem_getD_rows.1 (mem_coefficients.1 ht)
    exact hfinite _ (Array.getElem_mem hrow) _ (Array.mem_toList_iff.1 he)
  have hreads := reads_coordinateLines hinside hvalues
    (hm.rowCount_le_entryCount.trans_lt hcount) hcount
  rw [← Text.linesOf_textOfLines (isLine_coordinateLines m)] at hreads
  obtain ⟨m', hm', hmatrix⟩ := exists_matrixOf_of_reads hreads
  have hwell' := wellFormed_ofCoordinateLines hm'
  have hrows := rows_eq_of_matrixOf hm hwell' hmatrix
  have hpattern : m'.pattern = m.pattern := by rw [pattern, pattern, hrows]
  refine ⟨m', hm', hmatrix.rowCount, hpattern, hrows, fun b tolerance hb ws ws' hws hws' => ?_⟩
  have hb' : b.size = m'.rowCount := hb.trans hmatrix.rowCount.symm
  exact endAlike_solveIn (hwell.withRhs hb tolerance) (hwell'.withRhs hb' tolerance) hrows rfl rfl
    hws hws'

/-- The system in both precisions, the first solved in fresh workspaces. -/
theorem coordinate_round_trip_mixed :
    (∃ m', ofCoordinateFile (FileTree.textOfLines mixedDouble.1.coordinateLines).toUTF8 = .ok m' ∧
      m'.rows = mixedDouble.1.rows ∧
      EndAlike (fun s s' => s'.1.rows = s.1.rows ∧ s'.1.solution = s.1.solution)
        (fun s s' => s'.1.rows = s.1.rows)
        (solveIn ({ mixedDouble.1 with rhs := #[1, 2, 3], pivotTolerance := 0 },
          .ofEnvelope mixedDouble.1.envelope))
        (solveIn ({ m' with rhs := #[1, 2, 3], pivotTolerance := 0 }, .ofEnvelope m'.envelope))) ∧
    ∃ m', ofCoordinateFile (FileTree.textOfLines mixedSingle.1.coordinateLines).toUTF8 = .ok m' ∧
      m'.rows = mixedSingle.1.rows := by
  constructor
  · obtain ⟨m', hm', -, -, hrows, hsolve⟩ := coordinate_round_trip (m := mixedDouble.1)
      (built_mixed _ _) mixedDouble.2 (by decide)
    exact ⟨m', hm', hrows, hsolve #[1, 2, 3] 0 rfl _ _ (Workspace.fits_ofEnvelope _)
      (Workspace.fits_ofEnvelope _)⟩
  · obtain ⟨m', hm', -, -, hrows, -⟩ := coordinate_round_trip (m := mixedSingle.1)
      (built_mixed _ _) mixedSingle.2 (by decide)
    exact ⟨m', hm', hrows⟩

end RoundTrip

end BlockMatrix

end CarrierTransport.LinearSystem
