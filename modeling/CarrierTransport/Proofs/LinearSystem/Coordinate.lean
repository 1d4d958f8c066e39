import Mathlib
import CarrierTransport.Proofs.LinearSystem.Addresses
import CarrierTransport.Proofs.Text.Lines

/-!
# What coordinate files say

The lines of a coordinate file that are neither blank nor a comment are its data lines. The first is
a size line, every later one lists a coefficient inside of the matrix (`Reads`); a text of this form
gives a matrix, one without data lines has no header, and any other is refused at the first data
line that does not fit to those before it (`BlockMatrix.ofCoordinateLines_reads`).

The matrix of a text has places on its diagonal, at the listed positions and at these with row and
column exchanged. Of the values listed for one position the last is stored
(`BlockMatrix.matrixOf_ofTriplets`).
-/

namespace CarrierTransport.LinearSystem

open Transition

/-! ### The format -/

/-- A line that is neither blank nor a comment, with its number in the text. -/
structure DataLine where
  number : Nat
  words : List (List Char)
deriving DecidableEq, Repr

/-- Whether something other than a comment stands in a line. -/
def isData (line : List Char) : Bool :=
  let text := Text.trim line
  text ≠ [] && text.head? ≠ some '%'

/-- The data lines among some lines, of which the first has the given number. -/
def dataLines (number : Nat) (lines : List (List Char)) : List DataLine :=
  ((lines.zipIdx number).filter fun p => isData p.1).map fun p => ⟨p.2, Text.words (Text.trim p.1)⟩

/-- Three indices, of which the first two are the number of rows. -/
def IsSize (n : Nat) (words : List (List Char)) : Prop :=
  ∃ rows columns entries k, words = [rows, columns, entries] ∧ Text.index? rows = some n ∧
    Text.index? columns = some n ∧ Text.index? entries = some k

section Format

variable {α : Type}

/-- A row and a column between one and the number of rows, and a value. -/
def IsTriplet (number? : List Char → Option α) (n : Nat) (words : List (List Char))
    (t : Triplet α) : Prop :=
  ∃ row column value, words = [row, column, value] ∧
    (Text.index? row = some (t.row + 1) ∧ t.row + 1 ≤ n) ∧
    (Text.index? column = some (t.column + 1) ∧ t.column + 1 ≤ n) ∧ number? value = some t.value

/-- Data lines that are a size line followed by coefficients. -/
def Reads (number? : List Char → Option α) (ds : List DataLine) (n : Nat)
    (triplets : List (Triplet α)) : Prop :=
  ∃ size rest, ds = size :: rest ∧ IsSize n size.words ∧
    List.Forall₂ (fun d t => IsTriplet number? n d.words t) rest triplets

/-- Data lines that break nothing so far. -/
def Fits (number? : List Char → Option α) (ds : List DataLine) : Prop :=
  ds = [] ∨ ∃ n triplets, Reads number? ds n triplets

/-- The first data line that breaks the format, between those that fit and those behind it. -/
def FirstBreak (number? : List Char → Option α) (ds before : List DataLine) (d : DataLine)
    (after : List DataLine) : Prop :=
  ds = before ++ d :: after ∧ Fits number? before ∧ ¬ Fits number? (before ++ [d])

end Format

/-! ### Reading a line -/

section Reading

variable {α : Type} {number? : List Char → Option α}

theorem IsSize.unique {n n' : Nat} {words : List (List Char)} (h : IsSize n words)
    (h' : IsSize n' words) : n = n' := by
  obtain ⟨rows, columns, entries, k, rfl, hrows, -, -⟩ := h
  obtain ⟨rows', columns', entries', k', hwords, hrows', -, -⟩ := h'
  cases hwords
  exact Option.some.inj (hrows.symm.trans hrows')

theorem readSize_eq_ok {n : Nat} {words : List (List Char)} :
    readSize words = .ok n ↔ IsSize n words := by
  constructor
  · intro h
    unfold readSize at h
    split at h
    · next rows columns entries =>
      split at h
      · next r c k hrows hcolumns hentries =>
        split_ifs at h with hsquare
        cases h
        subst hsquare
        exact ⟨rows, columns, entries, k, rfl, hrows, hcolumns, hentries⟩
      · cases h
    · cases h
  · rintro ⟨rows, columns, entries, k, rfl, hrows, hcolumns, hentries⟩
    simp only [readSize, hrows, hcolumns, hentries, if_true]

theorem readTriplet_eq_ok {n : Nat} {words : List (List Char)} {t : Triplet α} :
    readTriplet number? n words = .ok t ↔ IsTriplet number? n words t := by
  constructor
  · intro h
    unfold readTriplet at h
    split at h
    · next row column value =>
      split at h
      · cases h
      · next r hrow =>
        split at h
        · cases h
        · next c hcolumn =>
          split at h
          · cases h
          · next v hvalue =>
            split_ifs at h with hbounds
            cases h
            obtain ⟨hr, hrn, hc, hcn⟩ := hbounds
            refine ⟨row, column, value, rfl, ?_, ?_, hvalue⟩ <;> dsimp only
            · rw [Nat.sub_add_cancel hr]
              exact ⟨hrow, hrn⟩
            · rw [Nat.sub_add_cancel hc]
              exact ⟨hcolumn, hcn⟩
    · cases h
  · rintro ⟨row, column, value, rfl, ⟨hrow, hr⟩, ⟨hcolumn, hc⟩, hvalue⟩
    simp only [readTriplet, hrow, hcolumn, hvalue]
    rw [if_pos ⟨by omega, hr, by omega, hc⟩]
    rfl

/-- The words that the reader takes from a line are those of a data line. -/
theorem dataWords_ofList (line : List Char) :
    dataWords? (String.ofList line) =
      if isData line then some (Text.words (Text.trim line)) else none := by
  rw [dataWords?, String.toList_ofList, isData]
  cases htrim : Text.trim line with
  | nil => simp
  | cons c text =>
    by_cases hc : c = '%'
    · subst hc
      simp
    · rw [if_pos (by simp [hc])]
      split
      · next h => cases h
      · next h => exact absurd (List.cons.inj h).1 hc
      · rfl

theorem dataLines_cons (number : Nat) (line : List Char) (lines : List (List Char)) :
    dataLines number (line :: lines) =
      (if isData line then [⟨number, Text.words (Text.trim line)⟩] else []) ++
        dataLines (number + 1) lines := by
  rw [dataLines, List.zipIdx_cons, List.filter_cons]
  split_ifs <;> rfl

/-! ### Reading lines -/

/-- What has been read of some data lines that fit. -/
def Read (number? : List Char → Option α) (ds : List DataLine) : CoordinateState α → Prop
  | none => ds = []
  | some (n, triplets) => Reads number? ds n triplets.reverse

theorem Read.fits {ds : List DataLine} {state : CoordinateState α}
    (h : Read number? ds state) : Fits number? ds := by
  cases state with
  | none => exact .inl h
  | some state => exact .inr ⟨_, _, h⟩

theorem reads_singleton {n : Nat} {d : DataLine} (h : IsSize n d.words) :
    Reads number? [d] n [] :=
  ⟨d, [], rfl, h, .nil⟩

theorem Reads.append {n : Nat} {ds : List DataLine} {d : DataLine} {triplets : List (Triplet α)}
    {t : Triplet α} (h : Reads number? ds n triplets) (ht : IsTriplet number? n d.words t) :
    Reads number? (ds ++ [d]) n (triplets ++ [t]) := by
  obtain ⟨size, rest, rfl, hsize, hrest⟩ := h
  exact ⟨size, rest ++ [d], rfl, hsize, List.rel_append hrest (.cons ht .nil)⟩

/-- A data line that fits to others lists a coefficient of their matrix. -/
theorem Reads.exists_triplet {n : Nat} {ds : List DataLine} {d : DataLine}
    {triplets : List (Triplet α)} (h : Reads number? ds n triplets)
    (hfits : Fits number? (ds ++ [d])) : ∃ t, IsTriplet number? n d.words t := by
  obtain ⟨size, rest, rfl, hsize, -⟩ := h
  obtain hnil | ⟨n', triplets', size', rest', hds, hsize', hrest'⟩ := hfits
  · cases hnil
  · rw [List.cons_append, List.cons.injEq] at hds
    obtain ⟨rfl, rfl⟩ := hds
    obtain rfl := hsize.unique hsize'
    rw [← List.forall₂_reverse_iff, List.reverse_append] at hrest'
    obtain ⟨t, -, ht, -, -⟩ := List.forall₂_cons_left_iff.1 hrest'
    exact ⟨t, ht⟩

theorem IsTriplet.unique {n : Nat} {words : List (List Char)} {t t' : Triplet α}
    (h : IsTriplet number? n words t) (h' : IsTriplet number? n words t') : t = t' :=
  Except.ok.inj ((readTriplet_eq_ok.2 h).symm.trans (readTriplet_eq_ok.2 h'))

theorem Reads.unique {n n' : Nat} {ds : List DataLine} {triplets triplets' : List (Triplet α)}
    (h : Reads number? ds n triplets) (h' : Reads number? ds n' triplets') :
    n = n' ∧ triplets = triplets' := by
  obtain ⟨size, rest, rfl, hsize, hrest⟩ := h
  obtain ⟨size', rest', hds, hsize', hrest'⟩ := h'
  cases hds
  obtain rfl := hsize.unique hsize'
  have hunique : Relator.RightUnique fun (d : DataLine) (t : Triplet α) =>
      IsTriplet number? n d.words t := fun _ _ _ => IsTriplet.unique
  exact ⟨rfl, List.right_unique_forall₂' hunique hrest hrest'⟩

theorem Reads.inside {n : Nat} {ds : List DataLine} {triplets : List (Triplet α)}
    (h : Reads number? ds n triplets) : Inside n triplets := by
  obtain ⟨size, rest, -, -, hrest⟩ := h
  induction hrest with
  | nil => exact fun t ht => absurd ht List.not_mem_nil
  | cons hd _ ih =>
    obtain ⟨row, column, value, -, ⟨-, hrow⟩, ⟨-, hcolumn⟩, -⟩ := hd
    exact List.forall_mem_cons.2 ⟨⟨hrow, hcolumn⟩, ih⟩

/-- What fits does so from its first line on. -/
theorem Fits.of_append {ds ds' : List DataLine} (h : Fits number? (ds ++ ds')) :
    Fits number? ds := by
  cases ds with
  | nil => exact .inl rfl
  | cons size rest =>
    obtain hnil | ⟨n, triplets, size', rest', hds, hsize, hrest⟩ := h
    · cases hnil
    · rw [List.cons_append, List.cons.injEq] at hds
      obtain ⟨rfl, rfl⟩ := hds
      have hprefix := List.forall₂_take rest.length hrest
      rw [List.take_left] at hprefix
      exact .inr ⟨n, _, size, rest, rfl, hsize, hprefix⟩

theorem FirstBreak.not_fits {ds before after : List DataLine} {d : DataLine}
    (h : FirstBreak number? ds before d after) : ¬ Fits number? ds := by
  obtain ⟨rfl, -, hbreak⟩ := h
  intro hfits
  rw [List.append_cons] at hfits
  exact hbreak hfits.of_append

/-- There is one first break at most. -/
theorem FirstBreak.unique {ds before before' after after' : List DataLine} {d d' : DataLine}
    (h : FirstBreak number? ds before d after) (h' : FirstBreak number? ds before' d' after') :
    d = d' := by
  obtain ⟨rfl, hfits, hbreak⟩ := h
  obtain ⟨hds, hfits', hbreak'⟩ := h'
  rw [List.append_eq_append_iff] at hds
  -- the longer of the two beginnings would hold the break of the other
  obtain ⟨more, rfl, hmore⟩ | ⟨more, rfl, hmore⟩ := hds
  · cases more with
    | nil => exact (List.cons.inj hmore).1
    | cons c more =>
      obtain ⟨rfl, -⟩ := List.cons.inj hmore
      rw [List.append_cons] at hfits'
      exact absurd hfits'.of_append hbreak
  · cases more with
    | nil => exact (List.cons.inj hmore).1.symm
    | cons c more =>
      obtain ⟨rfl, -⟩ := List.cons.inj hmore
      rw [List.append_cons] at hfits
      exact absurd hfits.of_append hbreak'

/-- One more data line is read if it fits to those before it, and blamed if it does not. -/
theorem readLine_data {ds : List DataLine} {state : CoordinateState α} (number : Nat)
    {line : List Char} (hstate : Read number? ds state) (hdata : isData line = true) :
    let d : DataLine := ⟨number, Text.words (Text.trim line)⟩
    (∃ next, readLine number? state number (String.ofList line) = .ok next ∧
      Read number? (ds ++ [d]) next) ∨
    ∃ fault, readLine number? state number (String.ofList line) = .error (.malformed number fault) ∧
      ¬ Fits number? (ds ++ [d]) := by
  intro d
  rw [readLine, dataWords_ofList, if_pos hdata]
  cases state with
  | none =>
    obtain rfl : ds = [] := hstate
    cases hsize : readSize d.words with
    | ok n =>
      refine .inl ⟨some (n, []), by dsimp only; rw [hsize], ?_⟩
      exact reads_singleton (readSize_eq_ok.1 hsize)
    | error fault =>
      refine .inr ⟨fault, by dsimp only; rw [hsize], ?_⟩
      rintro (hnil | ⟨n, triplets, size, rest, hds, hsize', -⟩)
      · cases hnil
      · cases hds
        rw [readSize_eq_ok.2 hsize'] at hsize
        cases hsize
  | some state =>
    obtain ⟨n, triplets⟩ := state
    cases htriplet : readTriplet number? n d.words with
    | ok t =>
      refine .inl ⟨some (n, t :: triplets), by dsimp only; rw [htriplet], ?_⟩
      have hreads := Reads.append hstate (readTriplet_eq_ok.1 htriplet)
      rwa [← List.reverse_cons] at hreads
    | error fault =>
      refine .inr ⟨fault, by dsimp only; rw [htriplet], fun hfits => ?_⟩
      obtain ⟨t, ht⟩ := Reads.exists_triplet hstate hfits
      rw [readTriplet_eq_ok.2 ht] at htriplet
      cases htriplet

theorem readLine_blank {state : CoordinateState α} {number : Nat} {line : List Char}
    (hdata : ¬ isData line = true) :
    readLine number? state number (String.ofList line) = .ok state := by
  rw [readLine, dataWords_ofList, if_neg hdata]

/-- Lines are read as long as their data lines fit, and the first one that breaks the format ends
the reading. -/
theorem readLines_data {ds : List DataLine} {state : CoordinateState α} (number : Nat)
    (lines : List (List Char)) (hstate : Read number? ds state) :
    (∃ next, readLines number? state number (lines.map fun l => .ok (String.ofList l)) = .ok next ∧
      Read number? (ds ++ dataLines number lines) next) ∨
    ∃ before d after fault, FirstBreak number? (ds ++ dataLines number lines) before d after ∧
      readLines number? state number (lines.map fun l => .ok (String.ofList l)) =
        .error (.malformed d.number fault) := by
  induction lines generalizing ds state number with
  | nil =>
    refine .inl ⟨state, rfl, ?_⟩
    change Read number? (ds ++ []) state
    rwa [List.append_nil]
  | cons line lines ih =>
    rw [List.map_cons, readLines, dataLines_cons]
    by_cases hdata : isData line = true
    · rw [if_pos hdata, ← List.append_assoc]
      obtain ⟨next, hnext, hread⟩ | ⟨fault, hfault, hbreak⟩ := readLine_data number hstate hdata
      · rw [hnext]
        exact ih (number + 1) hread
      · rw [hfault]
        refine .inr ⟨ds, _, dataLines (number + 1) lines, fault, ⟨?_, hstate.fits, hbreak⟩, rfl⟩
        rw [List.append_assoc, List.singleton_append]
    · rw [if_neg hdata, readLine_blank hdata, List.nil_append]
      exact ih (number + 1) hstate

end Reading

/-! ### The matrix of some coefficients -/

section Matrix

variable {α : Type} [Scalar α]

/-- The last value listed for a position, zero if there is none. -/
def lastValue (triplets : List (Triplet α)) (row column : Nat) : α :=
  (triplets.filter fun t => t.row == row && t.column == column).getLast?.elim 0 Triplet.value

namespace BlockMatrix

/-- A matrix of `n` unknowns that stores listed coefficients. -/
structure MatrixOf (n : Nat) (triplets : List (Triplet α)) (m : BlockMatrix α) : Prop where
  /-- There are `n` blocks of one unknown. -/
  sizes : m.layout.sizes = Array.replicate n 1
  rowCount : m.rowCount = n
  rhs : m.rhs = Array.replicate n 0
  /-- There are places on the diagonal, at the positions listed, and at these exchanged. -/
  mem_columnsOf : ∀ row column, column ∈ m.columnsOf row ↔ row < n ∧ column = row ∨
    ∃ t ∈ triplets, t.row = row ∧ t.column = column ∨ t.row = column ∧ t.column = row
  entry : ∀ row, ∀ column ∈ m.columnsOf row,
    m.entry row column = .ok (lastValue triplets row column)

omit [Scalar α] in
theorem rhs_of_modifyEntry {m m' : BlockMatrix α} {row column : Nat} {f : α → α}
    (h : m.modifyEntry row column f = .ok m') : m'.rhs = m.rhs := by
  obtain ⟨k, -, hm'⟩ := except_bind_eq_ok.1 h
  cases hm'
  rfl

theorem entry_of_mem {m : BlockMatrix α} {row column : Nat} (h : column ∈ m.columnsOf row) :
    m.entry row column = .ok (m.coefficient row column) := by
  obtain ⟨k, hk⟩ := exists_position h
  exact except_bind_eq_ok.2 ⟨k, hk, rfl⟩

/-- Nothing but zeros is stored before coefficients are written. -/
theorem coefficient_ofCouplings (layout : Layout) (c : Couplings) (row column : Nat) :
    (ofCouplings (α := α) layout c).coefficient row column = 0 := by
  by_cases hplace : column ∈ (ofCouplings (α := α) layout c).columnsOf row
  · obtain ⟨node, hrow, -⟩ := exists_of_mem_columnsOf_ofCouplings layout c hplace
    rw [coefficient_eq_elim, getD_rows_ofCouplings layout c hrow, List.find?_map]
    cases (c.columns layout node).find? _ <;> rfl
  · exact coefficient_eq_zero hplace

/-- Coefficients are written in order, so a later one replaces an earlier one at its position. -/
theorem exists_foldlM_modifyEntry {triplets : List (Triplet α)} {m : BlockMatrix α}
    (h : ∀ t ∈ triplets, t.column ∈ m.columnsOf t.row) :
    ∃ m', triplets.foldlM (fun m t => m.modifyEntry t.row t.column fun _ => t.value) m = .ok m' ∧
      m'.rhs = m.rhs ∧ ∀ row column, m'.coefficient row column =
        (triplets.filter fun t => t.row == row && t.column == column).getLast?.elim
          (m.coefficient row column) Triplet.value := by
  induction triplets generalizing m with
  | nil => exact ⟨m, rfl, rfl, fun row column => rfl⟩
  | cons t triplets ih =>
    obtain ⟨next, hnext⟩ := exists_modifyEntry (h t List.mem_cons_self) fun _ => t.value
    have hcolumns := (samePlaces_of_modifyEntry hnext).columnsOf
    obtain ⟨m', hm', hrhs, hcoefficient⟩ := ih (m := next) fun t' ht' => by
      rw [hcolumns]
      exact h t' (List.mem_cons_of_mem t ht')
    refine ⟨m', ?_, hrhs.trans (rhs_of_modifyEntry hnext), fun row column => ?_⟩
    · rw [List.foldlM_cons, hnext]
      exact hm'
    · rw [hcoefficient, coefficient_modifyEntry hnext, List.filter_cons]
      by_cases hposition : t.row = row ∧ t.column = column
      · rw [if_pos ⟨hposition.1.symm, hposition.2.symm⟩, if_pos (by simpa using hposition),
          List.getLast?_cons]
        cases (triplets.filter fun t => t.row == row && t.column == column).getLast? <;> rfl
      · rw [if_neg (by rwa [eq_comm, eq_comm (a := column)]), if_neg (by simpa using hposition)]

/-- The places of a matrix of single unknowns are its couplings. -/
theorem mem_columnsOf_ofPairs {n : Nat} {pairs : List (Nat × Nat)}
    (hpairs : ∀ p ∈ pairs, p.1 < n ∧ p.2 < n) (row column : Nat) :
    column ∈ (ofCouplings (α := α) (.ofSizes (.replicate n 1))
        (Couplings.ofPairs n pairs)).columnsOf row ↔
      row < n ∧ column = row ∨ (row, column) ∈ pairs ∨ (column, row) ∈ pairs := by
  have hcount : (Layout.ofSizes (.replicate n 1)).nodeCount = n := Array.size_replicate
  have htotal : (Layout.ofSizes (.replicate n 1)).total = n := by
    rw [Layout.total, hcount, Layout.offset_ofSizes_replicate le_rfl]
  have hwell : (ofCouplings (α := α) (.ofSizes (.replicate n 1))
      (Couplings.ofPairs n pairs)).WellFormed :=
    wellFormed_ofCouplings (hcount.symm ▸ Couplings.proper_ofPairs hpairs)
  rw [← Couplings.mem_getD_ofPairs hpairs]
  by_cases hbounds : row < n ∧ column < n
  · have hsize : ∀ {node}, node < n → 0 < (Layout.ofSizes (.replicate n 1)).sizes.getD node 0 := by
      intro node hnode
      simp [Layout.ofSizes, hnode]
    have hplace := mem_columnsOf_ofCouplings (α := α) _ (Couplings.ofPairs n pairs)
      (hsize hbounds.1) (hsize hbounds.2)
    rwa [Layout.offset_ofSizes_replicate hbounds.1.le,
      Layout.offset_ofSizes_replicate hbounds.2.le] at hplace
  · refine iff_of_false (fun hmem => hbounds ?_) fun hmem => hbounds ?_
    · have hcolumn := hwell.lt _ _ hmem
      have hrow := hwell.lt _ _ (hwell.symm _ _ hmem)
      rw [rowCount_ofCouplings, htotal] at hcolumn hrow
      exact ⟨hrow, hcolumn⟩
    · rcases (Couplings.mem_getD_ofPairs hpairs).1 hmem with ⟨hrow, rfl⟩ | hmem | hmem
      · exact ⟨hrow, hrow⟩
      · exact hpairs _ hmem
      · exact (hpairs _ hmem).symm

/-- **The matrix of coefficients inside of it stores them.** -/
theorem matrixOf_ofTriplets {n : Nat} {triplets : List (Triplet α)} (hinside : Inside n triplets) :
    ∃ m, ofTriplets n triplets = .ok m ∧ m.MatrixOf n triplets := by
  have hpairs : ∀ p ∈ triplets.map fun t => (t.row, t.column), p.1 < n ∧ p.2 < n := by
    intro p hp
    obtain ⟨t, ht, rfl⟩ := List.mem_map.1 hp
    exact hinside t ht
  have hplaces := mem_columnsOf_ofPairs (α := α) hpairs
  have hlisted : ∀ t ∈ triplets, t.column ∈ (ofCouplings (α := α) (.ofSizes (.replicate n 1))
      (Couplings.ofPairs n (triplets.map fun t => (t.row, t.column)))).columnsOf t.row := by
    intro t ht
    rw [hplaces]
    exact .inr (.inl (List.mem_map.2 ⟨t, ht, rfl⟩))
  obtain ⟨m, hm, hrhs, hcoefficient⟩ := exists_foldlM_modifyEntry hlisted
  have hsame := samePlaces_of_foldlM_modifyEntry hm
  have htotal : (Layout.ofSizes (.replicate n 1)).total = n := by
    rw [Layout.total, Layout.nodeCount, Layout.ofSizes, Array.size_replicate]
    exact Layout.offset_ofSizes_replicate le_rfl
  refine ⟨m, hm, ?_⟩
  constructor
  case sizes => rw [hsame.layout]; rfl
  case rowCount => rw [hsame.rowCount, rowCount_ofCouplings, htotal]
  case rhs => rw [hrhs, ofCouplings, htotal]
  case mem_columnsOf =>
    intro row column
    rw [hsame.columnsOf, hplaces, List.mem_map, List.mem_map, ← exists_or]
    simp only [Prod.mk.injEq, ← and_or_left]
  case entry =>
    intro row column hplace
    rw [entry_of_mem hplace, hcoefficient, coefficient_ofCouplings]
    rfl

/-- What comes of a text, by its data lines. -/
theorem ofCoordinateLines_cases (number? : List Char → Option α) (text : String) :
    (dataLines 1 (Text.linesOf text.toList) = [] ∧
      ofCoordinateLines number? (Text.lines text.toUTF8) = .error .missingHeader) ∨
    (∃ n triplets m, Reads number? (dataLines 1 (Text.linesOf text.toList)) n triplets ∧
      ofCoordinateLines number? (Text.lines text.toUTF8) = .ok m ∧ m.MatrixOf n triplets) ∨
    ∃ before d after fault,
      FirstBreak number? (dataLines 1 (Text.linesOf text.toList)) before d after ∧
      ofCoordinateLines number? (Text.lines text.toUTF8) = .error (.malformed d.number fault) := by
  have hnothing : Read number? [] none := rfl
  have hlines := readLines_data 1 (Text.linesOf text.toList) hnothing
  rw [List.nil_append, ← Text.lines_toUTF8] at hlines
  obtain ⟨state, hstate, hread⟩ | ⟨before, d, after, fault, hbreak, herror⟩ := hlines
  · rw [ofCoordinateLines, hstate]
    cases state with
    | none => exact .inl ⟨hread, rfl⟩
    | some state =>
      obtain ⟨m, hm, hmatrix⟩ := matrixOf_ofTriplets (Reads.inside hread)
      exact .inr (.inl ⟨_, _, m, hread, hm, hmatrix⟩)
  · rw [ofCoordinateLines, herror]
    exact .inr (.inr ⟨before, d, after, fault, hbreak, rfl⟩)

/-- A text of the format gives the matrix of what is listed in it. -/
theorem exists_matrixOf_of_reads {text : String} {n : Nat} {triplets : List (Triplet α)}
    (h : Reads number? (dataLines 1 (Text.linesOf text.toList)) n triplets) :
    ∃ m, ofCoordinateLines number? (Text.lines text.toUTF8) = .ok m ∧ m.MatrixOf n triplets := by
  obtain ⟨hnil, -⟩ | ⟨n', triplets', m, hreads, hm, hmatrix⟩ | ⟨_, _, _, _, hbreak, -⟩ :=
    ofCoordinateLines_cases number? text
  · obtain ⟨size, rest, hds, -⟩ := h
    cases hnil.symm.trans hds
  · obtain ⟨rfl, rfl⟩ := h.unique hreads
    exact ⟨m, hm, hmatrix⟩
  · exact absurd (.inr ⟨n, triplets, h⟩) hbreak.not_fits

/-- A coefficient in a word of decimal digits. -/
def wholeNumber? (word : List Char) : Option ℚ :=
  (Text.natural? word).map Nat.cast

/-- A comment, an empty line, a size line ended by a carriage return and a line feed, and three
coefficients, of which the last is listed for the position of the one before. -/
def repeatedText : String :=
  "% two rows\n\n2 2 3\r\n1 1 5\n  1 2 7 \n1 2 9"

/-- A coefficient outside of the matrix behind a comment. -/
def outsideText : String :=
  "2 2 2\n1 1 5\n% below\n3 1 4\n0 0 0"

/-- **A text gives a matrix exactly if it has the format of a coordinate file.** A text without data
lines has no header, any other text that gives no matrix is refused at the first data line that
breaks the format, and the matrix of a text stores what is listed in it. A file is read in this way
with `Decimal.read?` for `number?`. -/
theorem ofCoordinateLines_reads (number? : List Char → Option α) (text : String) :
    let ds := dataLines 1 (Text.linesOf text.toList)
    let result := ofCoordinateLines number? (Text.lines text.toUTF8)
    ((∃ m, result = .ok m) ↔ ∃ n triplets, Reads number? ds n triplets) ∧
    (result = .error .missingHeader ↔ ds = []) ∧
    (∀ number, (∃ fault, result = .error (.malformed number fault)) ↔
      ∃ before d after, FirstBreak number? ds before d after ∧ d.number = number) ∧
    (∀ e, result = .error e → e = .missingHeader ∨ ∃ number fault, e = .malformed number fault) ∧
    ∀ n triplets, Reads number? ds n triplets → ∃ m, result = .ok m ∧ m.MatrixOf n triplets := by
  intro ds result
  have hcases := ofCoordinateLines_cases number? text
  change (ds = [] ∧ result = _) ∨ (∃ n triplets m, Reads number? ds n triplets ∧ result = _ ∧ _) ∨
    ∃ before d after fault, FirstBreak number? ds before d after ∧ result = _ at hcases
  generalize result = result at hcases ⊢
  generalize ds = ds at hcases ⊢
  obtain ⟨rfl, rfl⟩ | ⟨n, triplets, m, hreads, rfl, hmatrix⟩ |
    ⟨before, d, after, fault, hbreak, rfl⟩ := hcases
  · have hnone : ∀ {n triplets}, ¬ Reads number? [] n triplets := by
      rintro n triplets ⟨size, rest, hds, -⟩
      cases hds
    refine ⟨?_, by simp, fun number => ?_, by simp, fun n triplets h => absurd h hnone⟩
    · exact iff_of_false nofun fun ⟨_, _, h⟩ => hnone h
    · exact iff_of_false nofun fun ⟨_, _, _, hbreak, _⟩ => hbreak.not_fits (.inl rfl)
  · refine ⟨iff_of_true ⟨m, rfl⟩ ⟨n, triplets, hreads⟩, ?_, fun number => ?_, nofun, ?_⟩
    · refine iff_of_false nofun ?_
      rintro rfl
      obtain ⟨size, rest, hds, -⟩ := hreads
      cases hds
    · exact iff_of_false nofun fun ⟨_, _, _, hbreak, _⟩ => hbreak.not_fits (.inr ⟨_, _, hreads⟩)
    · intro n' triplets' hreads'
      obtain ⟨rfl, rfl⟩ := hreads.unique hreads'
      exact ⟨m, rfl, hmatrix⟩
  · refine ⟨?_, ?_, fun number => ⟨?_, ?_⟩, ?_, fun n triplets hreads => ?_⟩
    · exact iff_of_false nofun fun ⟨_, _, h⟩ => hbreak.not_fits (.inr ⟨_, _, h⟩)
    · exact iff_of_false nofun fun h => hbreak.not_fits (.inl h)
    · rintro ⟨fault', hfault⟩
      cases hfault
      exact ⟨before, d, after, hbreak, rfl⟩
    · rintro ⟨before', d', after', hbreak', rfl⟩
      rw [hbreak.unique hbreak']
      exact ⟨fault, rfl⟩
    · rintro e ⟨⟩
      exact .inr ⟨_, _, rfl⟩
    · exact absurd (.inr ⟨_, _, hreads⟩) hbreak.not_fits

/-- The last of two coefficients listed for a position is stored, zero is stored across the
diagonal, and the line of a coefficient outside of the matrix is blamed by its number in the
text. -/
theorem ofCoordinateLines_reads_repeatedText :
    (∃ m, ofCoordinateLines wholeNumber? (Text.lines repeatedText.toUTF8) = .ok m ∧
      m.rowCount = 2 ∧ m.entry 0 1 = .ok 9 ∧ m.entry 1 0 = .ok 0) ∧
    ∃ fault, ofCoordinateLines wholeNumber? (Text.lines outsideText.toUTF8) =
      .error (.malformed 4 fault) := by
  constructor
  · have hreads : Reads wholeNumber? (dataLines 1 (Text.linesOf repeatedText.toList)) 2
        [⟨0, 0, 5⟩, ⟨0, 1, 7⟩, ⟨0, 1, 9⟩] := by
      refine ⟨⟨3, [['2'], ['2'], ['3']]⟩, [⟨4, [['1'], ['1'], ['5']]⟩, ⟨5, [['1'], ['2'], ['7']]⟩,
        ⟨6, [['1'], ['2'], ['9']]⟩], by decide, ⟨['2'], ['2'], ['3'], 3, rfl, rfl, rfl, rfl⟩, ?_⟩
      refine .cons ?_ (.cons ?_ (.cons ?_ .nil)) <;>
        exact ⟨_, _, _, rfl, ⟨rfl, by decide⟩, ⟨rfl, by decide⟩, rfl⟩
    obtain ⟨-, -, -, -, hmatrix⟩ := ofCoordinateLines_reads wholeNumber? repeatedText
    obtain ⟨m, hm, hstores⟩ := hmatrix _ _ hreads
    refine ⟨m, hm, hstores.rowCount, ?_, ?_⟩
    · exact hstores.entry 0 1 ((hstores.mem_columnsOf 0 1).2 (.inr ⟨⟨0, 1, 7⟩, by simp, by simp⟩))
    · exact hstores.entry 1 0 ((hstores.mem_columnsOf 1 0).2 (.inr ⟨⟨0, 1, 7⟩, by simp, by simp⟩))
  · have hbefore : Reads wholeNumber? [⟨1, [['2'], ['2'], ['2']]⟩, ⟨2, [['1'], ['1'], ['5']]⟩] 2
        [⟨0, 0, 5⟩] := by
      refine ⟨_, _, rfl, ⟨['2'], ['2'], ['2'], 2, rfl, rfl, rfl, rfl⟩, ?_⟩
      exact .cons ⟨_, _, _, rfl, ⟨rfl, by decide⟩, ⟨rfl, by decide⟩, rfl⟩ .nil
    obtain ⟨-, -, hmalformed, -⟩ := ofCoordinateLines_reads wholeNumber? outsideText
    refine (hmalformed 4).2 ⟨_, ⟨4, [['3'], ['1'], ['4']]⟩, [⟨5, [['0'], ['0'], ['0']]⟩],
      ⟨by decide, .inr ⟨_, _, hbefore⟩, fun hfits => ?_⟩, rfl⟩
    obtain ⟨t, ht⟩ := hbefore.exists_triplet hfits
    have houtside : readTriplet wholeNumber? 2 [['3'], ['1'], ['4']] = .error .outside := rfl
    rw [readTriplet_eq_ok.2 ht] at houtside
    cases houtside

end BlockMatrix

end Matrix

end CarrierTransport.LinearSystem
