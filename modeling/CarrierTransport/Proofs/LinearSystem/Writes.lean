import Mathlib
import CarrierTransport.Proofs.LinearSystem.Reuse
import CarrierTransport.Proofs.LinearSystem.Storage

/-!
# Writes at addresses

A coefficient is named by its row and column or by two nodes and numbers within their blocks, a
right hand side by a node and a number. Either an address names one place of the system, or it is
refused, by reads and writes alike (`BlockMatrix.read_eq`, `BlockMatrix.WellFormed.run_write`). Two
addresses may name one place, but a place is one number: a write changes it for all accessors and
changes no other (`BlockMatrix.WrittenAt`). So after any number of writes a place holds what the
writes to it have made of it, in their order (`BlockMatrix.writes_do_not_alias`).

Where the rows are kept one after the other in a single array a write changes one number of that
array too.
-/

namespace CarrierTransport.LinearSystem

open Transition

/-! ### Addresses and places -/

/-- A number of the equations of a system. -/
inductive Place where
  | coefficient (row column : Nat)
  | rhs (row : Nat)
deriving DecidableEq, Repr

/-- What a number of the equations can be read and written at. -/
inductive Address where
  | entry (row column : Nat)
  | blockEntry (rowNode columnNode rowSub columnSub : Nat)
  | blockRhs (node sub : Nat)
deriving DecidableEq, Repr

/-- The write that replaces the number at an address by a function of itself. -/
def Address.write {α : Type} (f : α → α) : Address → Write α
  | entry row column => .entry row column f
  | blockEntry rowNode columnNode rowSub columnSub =>
    .blockEntry rowNode columnNode rowSub columnSub f
  | blockRhs node sub => .blockRhs node sub f

namespace BlockMatrix

section Places

variable {α : Type} {m m' : BlockMatrix α}

/-- The coefficient at a row and column, if it is stored. -/
def entryPlace (m : BlockMatrix α) (row column : Nat) : Except (MatrixError α) Place := do
  let _ ← m.position row column
  return .coefficient row column

/-- The place that an address names, or how it is refused. -/
def resolve (m : BlockMatrix α) : Address → Except (MatrixError α) Place
  | .entry row column => m.entryPlace row column
  | .blockEntry rowNode columnNode rowSub columnSub => do
    let (row, column) ← m.address rowNode columnNode rowSub columnSub
    m.entryPlace row column
  | .blockRhs node sub => return .rhs (← m.layout.index node sub)

def Names (m : BlockMatrix α) (a : Address) (p : Place) : Prop :=
  (m.resolve a).toOption = some p

instance (m : BlockMatrix α) (a : Address) (p : Place) : Decidable (m.Names a p) :=
  inferInstanceAs (Decidable (_ = _))

theorem names_iff {a : Address} {p : Place} : m.Names a p ↔ m.resolve a = .ok p := by
  rw [Names]
  cases m.resolve a with
  | error e => exact iff_of_false nofun nofun
  | ok q =>
    rw [Except.ok.injEq]
    exact Option.some_inj

theorem names_iff_of_ok {a : Address} {p q : Place} (h : m.resolve a = .ok q) :
    m.Names a p ↔ p = q := by
  rw [names_iff, h, Except.ok.injEq, eq_comm]

theorem not_names_of_error {a : Address} {p : Place} {e : MatrixError α}
    (h : m.resolve a = .error e) : ¬ m.Names a p := by
  rw [names_iff, h]
  exact nofun

theorem SamePlaces.resolve_eq (h : m.SamePlaces m') (a : Address) :
    m'.resolve a = m.resolve a := by
  cases a <;> simp only [resolve, entryPlace, address, h.position_eq, h.layout]

/-- The system stores a number at a place. -/
def HasPlace (m : BlockMatrix α) : Place → Prop
  | .coefficient row column => column ∈ m.columnsOf row
  | .rhs row => row < m.rhs.size

theorem SamePlaces.hasPlace_iff (h : m.SamePlaces m') {p : Place} :
    m'.HasPlace p ↔ m.HasPlace p := by
  cases p with
  | coefficient row column => rw [HasPlace, HasPlace, h.columnsOf]
  | rhs row => rw [HasPlace, HasPlace, h.rhs_size]

theorem names_entry_iff {row column : Nat} {p : Place} :
    m.Names (.entry row column) p ↔ column ∈ m.columnsOf row ∧ p = .coefficient row column := by
  refine names_iff.trans (except_bind_eq_ok.trans ⟨?_, ?_⟩)
  · rintro ⟨k, hk, h⟩
    cases h
    exact ⟨mem_columnsOf_of_position hk, rfl⟩
  · rintro ⟨hplace, rfl⟩
    obtain ⟨k, hk⟩ := exists_position hplace
    exact ⟨k, hk, rfl⟩

theorem names_blockEntry_iff {i j k l : Nat} {p : Place} :
    m.Names (.blockEntry i j k l) p ↔
      ∃ row column, m.Numbers i k row ∧ m.Numbers j l column ∧ m.Names (.entry row column) p := by
  constructor
  · intro h
    obtain ⟨⟨row, column⟩, haddress, h⟩ := except_bind_eq_ok.1 (names_iff.1 h)
    obtain ⟨row', hrow, haddress⟩ := except_bind_eq_ok.1 haddress
    obtain ⟨column', hcolumn, haddress⟩ := except_bind_eq_ok.1 haddress
    cases haddress
    exact ⟨row, column, hrow, hcolumn, names_iff.2 h⟩
  · rintro ⟨row, column, hrow, hcolumn, h⟩
    rw [names_iff] at h ⊢
    rw [resolve, address, hrow, hcolumn]
    exact h

theorem names_blockRhs_iff {i k : Nat} {p : Place} :
    m.Names (.blockRhs i k) p ↔ ∃ row, m.Numbers i k row ∧ p = .rhs row := by
  refine names_iff.trans (except_bind_eq_ok.trans (exists_congr fun row => ?_))
  refine and_congr_right fun _ => ⟨fun h => ?_, fun h => ?_⟩
  · cases h
    rfl
  · rw [h]
    rfl

theorem Numbers.inj {i j k l row : Nat} (h : m.Numbers i k row) (h' : m.Numbers j l row) :
    i = j ∧ k = l := by
  have hlt := (Layout.index_lt_index_iff h h').not.1 (lt_irrefl row)
  have hgt := (Layout.index_lt_index_iff h' h).not.1 (lt_irrefl row)
  omega

end Places

section Reading

variable {α : Type} [Scalar α] {m : BlockMatrix α}

/-- Every system has as many rows as unknowns. -/
theorem Built.rowCount_eq_total (hm : m.Built) : m.rowCount = m.layout.total := by
  cases hm with
  | ofTopology hbase hplaces =>
    obtain ⟨-, -, c, -, rfl⟩ := ofTopology_eq_ok.1 hbase
    rw [hplaces.rowCount, hplaces.layout]
    exact rowCount_ofCouplings _ c
  | ofCoordinateLines hbase hplaces =>
    obtain ⟨n, triplets, -, htriplets⟩ := exists_ofTriplets hbase
    have hplaces := (samePlaces_of_foldlM_modifyEntry htriplets).trans hplaces
    rw [hplaces.rowCount, hplaces.layout]
    exact rowCount_ofCouplings _ _

theorem Built.hasPlace (hm : m.Built) {a : Address} {p : Place} (h : m.Names a p) :
    m.HasPlace p := by
  cases a with
  | entry row column =>
    obtain ⟨hplace, rfl⟩ := names_entry_iff.1 h
    exact hplace
  | blockEntry i j k l =>
    obtain ⟨row, column, -, -, h⟩ := names_blockEntry_iff.1 h
    obtain ⟨hplace, rfl⟩ := names_entry_iff.1 h
    exact hplace
  | blockRhs i k =>
    obtain ⟨row, hrow, rfl⟩ := names_blockRhs_iff.1 h
    rw [HasPlace, hm.wellFormed.rhs_size, hm.rowCount_eq_total]
    exact Layout.exists_index_iff.1 ⟨i, k, hrow⟩

/-- What the addresses of a system name. -/
structure Addressed (m : BlockMatrix α) : Prop where
  entry_iff : ∀ row column p,
    m.Names (.entry row column) p ↔ column ∈ m.columnsOf row ∧ p = .coefficient row column
  /-- An address of two nodes leads through the numbers of two unknowns. -/
  blockEntry_iff : ∀ i j k l p, m.Names (.blockEntry i j k l) p ↔
    ∃ row column, m.Numbers i k row ∧ m.Numbers j l column ∧ m.Names (.entry row column) p
  blockRhs_iff : ∀ i k p, m.Names (.blockRhs i k) p ↔ ∃ row, m.Numbers i k row ∧ p = .rhs row
  row_iff : ∀ row, row < m.rowCount ↔ ∃ node sub, m.Numbers node sub row
  numbers_inj : ∀ i j k l row, m.Numbers i k row → m.Numbers j l row → i = j ∧ k = l
  hasPlace_iff : ∀ p, m.HasPlace p ↔ ∃ a, m.Names a p

theorem Built.addressed (hm : m.Built) : m.Addressed := by
  have hrow : ∀ row, row < m.rowCount ↔ ∃ node sub, m.Numbers node sub row := by
    intro row
    rw [hm.rowCount_eq_total]
    exact Layout.exists_index_iff.symm
  constructor
  case entry_iff => exact fun _ _ _ => names_entry_iff
  case blockEntry_iff => exact fun _ _ _ _ _ => names_blockEntry_iff
  case blockRhs_iff => exact fun _ _ _ => names_blockRhs_iff
  case row_iff => exact hrow
  case numbers_inj => exact fun _ _ _ _ _ h h' => h.inj h'
  case hasPlace_iff =>
    intro p
    constructor
    · intro hp
      cases p with
      | coefficient row column => exact ⟨.entry row column, names_entry_iff.2 ⟨hp, rfl⟩⟩
      | rhs row =>
        rw [HasPlace, hm.wellFormed.rhs_size, hrow] at hp
        obtain ⟨node, sub, hnumber⟩ := hp
        exact ⟨.blockRhs node sub, names_blockRhs_iff.2 ⟨row, hnumber, rfl⟩⟩
    · rintro ⟨a, ha⟩
      exact hm.hasPlace ha

/-- The number at a place. -/
def valueAt (m : BlockMatrix α) : Place → α
  | .coefficient row column => m.coefficient row column
  | .rhs row => m.rhs.getD row 0

/-- What is read at an address. -/
def read (m : BlockMatrix α) : Address → Except (MatrixError α) α
  | .entry row column => m.entry row column
  | .blockEntry rowNode columnNode rowSub columnSub =>
    m.blockEntry rowNode columnNode rowSub columnSub
  | .blockRhs node sub => m.blockRhs node sub

/-- An address is read at its place. -/
theorem read_eq (m : BlockMatrix α) (a : Address) : m.read a = (m.resolve a).map m.valueAt := by
  have hentry : ∀ row column, m.entry row column = (m.entryPlace row column).map m.valueAt := by
    intro row column
    rw [entry, entryPlace]
    cases m.position row column <;> rfl
  cases a with
  | entry row column => exact hentry row column
  | blockEntry i j k l =>
    rw [read, resolve, blockEntry]
    cases m.address i j k l with
    | error e => rfl
    | ok place => exact hentry place.1 place.2
  | blockRhs i k =>
    rw [read, resolve, blockRhs]
    cases (m.layout.index i k : Except (MatrixError α) Nat) <;> rfl

end Reading

/-! ### One write -/

section Writing

variable {α : Type} {m : BlockMatrix α}

/-- The system with the number at a place replaced by a function of itself. -/
def updated (m : BlockMatrix α) (p : Place) (f : α → α) : BlockMatrix α :=
  { m.mapEntries fun row column value => if p = .coefficient row column then f value else value with
    rhs := m.rhs.mapIdx fun row value => if p = .rhs row then f value else value }

theorem sameSystem_updated (m : BlockMatrix α) (p : Place) (f : α → α) :
    m.SameSystem (m.updated p f) := by
  obtain ⟨hplaces, htolerance⟩ := m.sameSystem_mapEntries
    fun row column value => if p = .coefficient row column then f value else value
  exact ⟨⟨hplaces.layout, hplaces.pattern, Array.size_mapIdx, hplaces.solution_size⟩, htolerance⟩

theorem getD_rows_updated (m : BlockMatrix α) (p : Place) (f : α → α) (row : Nat) :
    (m.updated p f).rows.getD row #[] = (m.rows.getD row #[]).map fun e =>
      { e with value := if p = .coefficient row e.column then f e.value else e.value } := by
  rw [updated, mapEntries, Array.getD_eq_getD_getElem?, Array.getD_eq_getD_getElem?,
    Array.getElem?_mapIdx]
  cases m.rows[row]? <;> simp

theorem updated_rhs (m : BlockMatrix α) (row : Nat) (f : α → α) :
    m.updated (.rhs row) f = { m with rhs := m.rhs.modify row f } := by
  rw [updated, mapEntries_eq_self]
  · refine congrArg (fun rhs => { m with rhs }) ?_
    refine Array.ext (by simp) fun i hi hi' => ?_
    simp only [Array.getElem_mapIdx, Array.getElem_modify, Place.rhs.injEq]
  · intro i j value
    exact if_neg nofun

variable [Scalar α]

theorem rhs_updated (m : BlockMatrix α) (p : Place) (f : α → α) {row : Nat}
    (hrow : row < m.rhs.size) :
    (m.updated p f).rhs.getD row 0 =
      if p = .rhs row then f (m.rhs.getD row 0) else m.rhs.getD row 0 := by
  rw [updated, Array.getD_eq_getD_getElem?, Array.getD_eq_getD_getElem?, Array.getElem?_mapIdx,
    Array.getElem?_eq_getElem hrow]
  rfl

theorem WellFormed.coefficient_updated (hm : m.WellFormed) (p : Place) (f : α → α)
    {row column : Nat} (h : column ∈ m.columnsOf row) :
    (m.updated p f).coefficient row column =
      if p = .coefficient row column then f (m.coefficient row column)
      else m.coefficient row column := by
  have hsame := m.sameSystem_updated p f
  rw [columnsOf_eq_map] at h
  obtain ⟨e, he, rfl⟩ := List.mem_map.1 h
  have hmem : { e with value := if p = .coefficient row e.column then f e.value else e.value } ∈
      ((m.updated p f).rows.getD row #[]).toList := by
    rw [getD_rows_updated, Array.toList_map]
    exact List.mem_map_of_mem he
  have hvalue := (hm.of_samePlaces hsame.toSamePlaces).coefficient_eq_value hmem
  rw [hm.coefficient_eq_value he]
  exact hvalue

/-- An update changes the number at its place and no other. -/
theorem WellFormed.valueAt_updated (hm : m.WellFormed) {p q : Place} (hq : m.HasPlace q)
    (f : α → α) :
    (m.updated p f).valueAt q = if q = p then f (m.valueAt q) else m.valueAt q := by
  simp only [eq_comm (a := q)]
  cases q with
  | coefficient row column => exact hm.coefficient_updated p f hq
  | rhs row => exact m.rhs_updated p f hq

theorem WellFormed.modifyEntry_of_mem (hm : m.WellFormed) {row column : Nat}
    (h : column ∈ m.columnsOf row) (f : α → α) :
    m.modifyEntry row column f = .ok (m.updated (.coefficient row column) f) := by
  obtain ⟨m', hm'⟩ := exists_modifyEntry h f
  have hupdated := m.sameSystem_updated (.coefficient row column) f
  have hsame := sameSystem_of_modifyEntry hm'
  -- both have the places of the system, so their coefficients tell their rows
  have hrows : m'.rows = (m.updated (.coefficient row column) f).rows := by
    apply (hm.of_samePlaces hupdated.toSamePlaces).rows_eq (hm.of_samePlaces hsame.toSamePlaces)
    · rw [hsame.rowCount, hupdated.rowCount]
    · intro i
      rw [hsame.columnsOf, hupdated.columnsOf]
    · intro i j hj
      rw [hupdated.columnsOf] at hj
      rw [coefficient_modifyEntry hm', hm.coefficient_updated _ f hj]
      simp only [Place.coefficient.injEq, eq_comm (a := row), eq_comm (a := column)]
  obtain ⟨k, -, hmodified⟩ := except_bind_eq_ok.1 hm'
  have hrhs : (m.updated (.coefficient row column) f).rhs = m.rhs :=
    Array.ext (by simp [updated]) fun i hi hi' => by simp [updated]
  rw [hm']
  cases hmodified
  refine congrArg Except.ok ?_
  rw [updated, mapEntries] at hrows hrhs ⊢
  dsimp only at hrows hrhs ⊢
  rw [hrows, hrhs]

/-- A write updates the place of its address, or is refused as a read is. -/
theorem WellFormed.run_write (hm : m.WellFormed) (a : Address) (f : α → α) :
    (a.write f).run m = (m.resolve a).map fun p => m.updated p f := by
  have hentry : ∀ row column,
      m.modifyEntry row column f = (m.entryPlace row column).map fun p => m.updated p f := by
    intro row column
    cases hk : m.position row column with
    | error e =>
      rw [modifyEntry, entryPlace, hk]
      rfl
    | ok k =>
      rw [entryPlace, hk]
      exact hm.modifyEntry_of_mem (mem_columnsOf_of_position hk) f
  cases a with
  | entry row column => exact hentry row column
  | blockEntry i j k l =>
    rw [Address.write, Write.run, modifyBlockEntry, resolve]
    cases m.address i j k l with
    | error e => rfl
    | ok place => exact hentry place.1 place.2
  | blockRhs i k =>
    rw [Address.write, Write.run, modifyBlockRhs, resolve]
    cases (m.layout.index i k : Except (MatrixError α) Nat) with
    | error e => rfl
    | ok row => exact congrArg Except.ok (m.updated_rhs row f).symm

theorem WellFormed.storage_updated (hm : m.WellFormed) {row column n : Nat} (f : α → α)
    (h : m.slot row column = .ok n) :
    (m.updated (.coefficient row column) f).storage = m.storage.modify n f := by
  have hsame := (m.sameSystem_updated (.coefficient row column) f).toSamePlaces
  have hsize : (m.updated (.coefficient row column) f).storage.size = m.storage.size := by
    rw [size_storage, size_storage, hsame.rowLayout_eq]
  refine Array.ext_getElem? fun i => ?_
  rw [Array.getElem?_modify]
  rcases Nat.lt_or_ge i m.storage.size with hi | hi
  · obtain ⟨row', column', hslot⟩ := hm.exists_slot hi
    have hnumber : Place.coefficient row column = .coefficient row' column' ↔ n = i := by
      rw [Place.coefficient.injEq]
      constructor
      · rintro ⟨rfl, rfl⟩
        exact Except.ok.inj (h.symm.trans hslot)
      · rintro rfl
        exact hm.slot_inj h hslot
    rw [(hm.of_samePlaces hsame).getElem?_storage_of_slot (hsame.slot_eq_ok_iff.2 hslot),
      hm.coefficient_updated _ f (mem_columnsOf_of_slot hslot), hm.getElem?_storage_of_slot hslot]
    simp only [hnumber]
    split_ifs <;> rfl
  · rw [Array.getElem?_eq_none (hsize.trans_le hi), Array.getElem?_eq_none hi]
    split_ifs <;> rfl

end Writing

/-! ### What a write changes -/

section Written

variable {α : Type} [Scalar α] {m : BlockMatrix α}

/-- What a write to a place does: every accessor that names the place sees the new number, and
nothing else has changed. -/
structure WrittenAt (m : BlockMatrix α) (p : Place) (f : α → α) (m' : BlockMatrix α) : Prop where
  sameSystem : m.SameSystem m'
  read : ∀ b, m'.read b = if m.Names b p then (m.read b).map f else m.read b
  row : ∀ row, m'.rows.getD row #[] = (m.rows.getD row #[]).map fun e =>
    { e with value := if p = .coefficient row e.column then f e.value else e.value }
  rhs : ∀ row < m.rhs.size, m'.rhs.getD row 0 =
    if p = .rhs row then f (m.rhs.getD row 0) else m.rhs.getD row 0
  storage : ∀ row column n, p = .coefficient row column → m.slot row column = .ok n →
    m'.storage = m.storage.modify n f
  solution : m'.solution = m.solution

theorem Built.writtenAt (hm : m.Built) (p : Place) (f : α → α) :
    m.WrittenAt p f (m.updated p f) := by
  have hsame := m.sameSystem_updated p f
  constructor
  case sameSystem => exact hsame
  case read =>
    intro b
    rw [read_eq, read_eq, hsame.resolve_eq]
    cases hb : m.resolve b with
    | error e =>
      rw [if_neg (not_names_of_error hb)]
      rfl
    | ok q =>
      have hvalue := hm.wellFormed.valueAt_updated (p := p) (hm.hasPlace (names_iff.2 hb)) f
      simp only [names_iff_of_ok hb, eq_comm (a := p)]
      refine (congrArg Except.ok hvalue).trans ?_
      split_ifs <;> rfl
  case row => exact m.getD_rows_updated p f
  case rhs => exact fun row hrow => m.rhs_updated p f hrow
  case storage =>
    rintro row column n rfl h
    exact hm.wellFormed.storage_updated f h
  case solution => rfl

end Written

/-! ### Any number of writes -/

section Sequences

variable {α : Type} {m : BlockMatrix α}

/-- What the writes to a place make of a number, one after the other. -/
def accumulated (m : BlockMatrix α) (writes : List (Address × (α → α))) (p : Place) (v : α) : α :=
  (writes.filter fun w => m.Names w.1 p).foldl (fun v w => w.2 v) v

theorem accumulated_append (m : BlockMatrix α) (writes : List (Address × (α → α)))
    (w : Address × (α → α)) (p : Place) (v : α) :
    m.accumulated (writes ++ [w]) p v =
      if m.Names w.1 p then w.2 (m.accumulated writes p v)
      else m.accumulated writes p v := by
  rw [accumulated, List.filter_append, List.foldl_append]
  by_cases hw : m.Names w.1 p
  · rw [if_pos hw, List.filter_cons_of_pos (by simpa using hw)]
    rfl
  · rw [if_neg hw, List.filter_cons_of_neg (by simpa using hw)]
    rfl

variable [Scalar α]

theorem foldl_calls_write (writes : List (Write α)) (m : BlockMatrix α) (ws : Workspace α) :
    (writes.map Call.write).foldl (fun s call => left (call.run s)) (m, ws) =
      (writes.foldl (fun m w => left (replace w.run m)) m, ws) := by
  induction writes generalizing m with
  | nil => rfl
  | cons w writes ih =>
    rw [List.map_cons, List.foldl_cons, List.foldl_cons, ← ih]
    refine congrArg (List.foldl _ · _) ?_
    simp only [Call.run, onFirst, replace]
    cases w.run m <;> rfl

/-- The system that writes at addresses lead to; a write that is refused changes nothing. -/
def afterAddressed (m : BlockMatrix α) (writes : List (Address × (α → α))) : BlockMatrix α :=
  (m.afterWrites (writes.map fun w => w.1.write w.2)).1

/-- **A place holds what the writes to it have made of it.** -/
theorem Built.afterAddressed (hm : m.Built) (writes : List (Address × (α → α))) :
    m.SameSystem (m.afterAddressed writes) ∧ (m.afterAddressed writes).solution = m.solution ∧
      ∀ p, m.HasPlace p →
        (m.afterAddressed writes).valueAt p = m.accumulated writes p (m.valueAt p) := by
  rw [BlockMatrix.afterAddressed, afterWrites, afterCalls, inWorkspace, foldl_calls_write,
    List.foldl_map]
  refine Loop.foldl_invariant (fun done m' => m.SameSystem m' ∧ m'.solution = m.solution ∧
    ∀ p, m.HasPlace p → m'.valueAt p = m.accumulated done p (m.valueAt p))
    ⟨.rfl, rfl, fun p _ => rfl⟩ ?_
  rintro done ⟨a, f⟩ m' ⟨hsame, hsolution, hvalues⟩
  have hm' := hm.wellFormed.of_samePlaces hsame.toSamePlaces
  rw [replace, hm'.run_write, hsame.resolve_eq]
  simp only [accumulated_append]
  cases ha : m.resolve a with
  | error e =>
    refine ⟨hsame, hsolution, fun p hp => ?_⟩
    rw [if_neg (not_names_of_error ha)]
    exact hvalues p hp
  | ok q =>
    refine ⟨hsame.trans (m'.sameSystem_updated q f), hsolution, fun p hp => ?_⟩
    simp only [names_iff_of_ok ha]
    rw [← hvalues p hp]
    exact hm'.valueAt_updated (hsame.hasPlace_iff.2 hp) f

/-- **Writes do not alias.** In every system an address names one place that the system stores, or
is refused. A write through it updates that place for every accessor that names it and changes
nothing else, or is refused as a read is and changes nothing. So after any writes, some of which may
have been refused, an address reads what the writes to its place have made of the number there, in
their order. -/
theorem writes_do_not_alias (hm : m.Built) :
    m.Addressed ∧ m.KeptApart ∧
    (∀ a f, match m.resolve a with
      | .ok p => m.HasPlace p ∧ m.read a = .ok (m.valueAt p) ∧
          ∃ m', (a.write f).run m = .ok m' ∧ m'.read a = .ok (f (m.valueAt p)) ∧
            m.WrittenAt p f m'
      | .error e => m.read a = .error e ∧ replace (a.write f).run m = .error e m) ∧
    ∀ writes, m.SameSystem (m.afterAddressed writes) ∧
      (m.afterAddressed writes).solution = m.solution ∧
      ∀ b, (m.afterAddressed writes).read b =
        (m.resolve b).map fun p => m.accumulated writes p (m.valueAt p) := by
  refine ⟨hm.addressed, hm.wellFormed.keptApart, ?_, ?_⟩
  · intro a f
    have hread := m.read_eq a
    have hwrite := hm.wellFormed.run_write a f
    cases ha : m.resolve a with
    | error e =>
      rw [ha] at hread hwrite
      refine ⟨hread, ?_⟩
      rw [replace, hwrite]
      rfl
    | ok p =>
      have hp := hm.hasPlace (names_iff.2 ha)
      have hread' := (m.updated p f).read_eq a
      rw [(m.sameSystem_updated p f).resolve_eq, ha] at hread'
      rw [ha] at hread hwrite
      refine ⟨hp, hread, _, hwrite, ?_, hm.writtenAt p f⟩
      rw [hread']
      refine congrArg Except.ok ?_
      rw [hm.wellFormed.valueAt_updated hp, if_pos rfl]
  · intro writes
    obtain ⟨hsame, hsolution, hvalues⟩ := hm.afterAddressed writes
    refine ⟨hsame, hsolution, fun b => ?_⟩
    rw [read_eq, hsame.resolve_eq]
    cases hb : m.resolve b with
    | error e => rfl
    | ok p => exact congrArg Except.ok (hvalues p (hm.hasPlace (names_iff.2 hb)))

end Sequences

/-! ### Blocks of different sizes -/

/-- Writes to one coefficient by either of its addresses, and between them one that is refused and
others to other places. -/
def loopWrites : List (Address × (ℚ → ℚ)) :=
  [(.blockEntry 1 0 1 0, (· + 1)), (.blockEntry 0 2 0 0, (· + 7)), (.blockEntry 0 1 0 1, (· + 5)),
    (.blockRhs 1 1, (· + 2)), (.entry 2 0, (· * 3))]

/-- The system of a mesh with blocks of different sizes. The last unknown of the second node is the
third one of all; the first and the last node are not coupled. -/
def loopBase : { m : BlockMatrix ℚ // ofTopology loopMesh #[1, 2, 1] = .ok m ∧
    m.Names (.blockEntry 1 0 1 0) (.coefficient 2 0) ∧ m.Names (.entry 2 0) (.coefficient 2 0) ∧
    (m.resolve (.blockEntry 0 2 0 0)).toOption = none ∧
    m.accumulated loopWrites (.coefficient 2 0) (m.valueAt (.coefficient 2 0)) = 3 } :=
  ⟨ofCouplings (.ofSizes #[1, 2, 1]) (.ofPairs 3 [(0, 1), (1, 0), (2, 2)]), by
    have hsizes : #[1, 2, 1].findIdx? (· == 0) = none := by simp
    refine ⟨?_, by decide +kernel, by decide +kernel, by decide +kernel, by decide +kernel⟩
    rw [ofTopology, if_neg (by decide), hsizes]
    rfl⟩

/-- A coefficient written by one of its addresses is read back by the other. -/
theorem writes_do_not_alias_loopMesh :
    loopBase.1.Built ∧
    (∃ m', (Address.write (fun _ => 7) (.blockEntry 1 0 1 0)).run loopBase.1 = .ok m' ∧
      m'.read (.blockEntry 1 0 1 0) = .ok 7 ∧ m'.read (.entry 2 0) = .ok 7) ∧
    (∃ e, loopBase.1.read (.blockEntry 0 2 0 0) = .error e ∧
      replace (Address.write (fun _ => 7) (.blockEntry 0 2 0 0)).run loopBase.1 =
        .error e loopBase.1) ∧
    (loopBase.1.afterAddressed loopWrites).read (.entry 2 0) = .ok 3 := by
  obtain ⟨hm, hblock, hentry, hrefused, hsum⟩ := loopBase.2
  have hbuilt : loopBase.1.Built := .ofTopology hm .rfl
  obtain ⟨-, -, hwrite, hafter⟩ := writes_do_not_alias hbuilt
  refine ⟨hbuilt, ?_, ?_, ?_⟩
  · have hwritten := hwrite (.blockEntry 1 0 1 0) fun _ => 7
    rw [names_iff.1 hblock] at hwritten
    obtain ⟨-, -, m', hm', hread, hat⟩ := hwritten
    refine ⟨m', hm', hread, ?_⟩
    rw [hat.read, if_pos hentry, read_eq, names_iff.1 hentry]
    rfl
  · cases ha : loopBase.1.resolve (.blockEntry 0 2 0 0) with
    | ok p =>
      rw [ha] at hrefused
      cases hrefused
    | error e =>
      have hwritten := hwrite (.blockEntry 0 2 0 0) fun _ => 7
      rw [ha] at hwritten
      exact ⟨e, hwritten⟩
  · obtain ⟨-, -, hread⟩ := hafter loopWrites
    rw [hread, names_iff.1 hentry]
    exact congrArg Except.ok hsum

end BlockMatrix

end CarrierTransport.LinearSystem
