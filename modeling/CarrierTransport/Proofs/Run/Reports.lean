import CarrierTransport.Proofs.Decimal.Digits
import CarrierTransport.Proofs.Storage.FileTree
import CarrierTransport.Run.Sweep

/-!
# The files of a sweep

The file of a quantity is named by the quantity and by when it is reported. No two of these names
are the same (`fileName_inj`): the name of a quantity has no underscore, a number has only digits,
and `00` is the number of no step. Nor is one of them the name of a file of diagnostics.

So no file of a sweep is written twice (`distinct_sweepEntries`): the reports of a sweep are those
of `sweepEntries`, and of them no two have the same quantity and the same stamp.
-/

namespace CarrierTransport.Run

open CarrierTransport.Configuration (Plan)
open CarrierTransport.Path (IsFileName)
open LinearSystem (BlockMatrix)
open State (NodeField Quantity)

/-! ### Names -/

/-- When a quantity is reported. -/
inductive Stamp where
  /-- Before the steps. -/
  | initial
  | step (number : Nat)
  | round (step number : Nat)
deriving DecidableEq, Repr

namespace Stamp

def text : Stamp → String
  | initial => initialSuffix
  | step k => stepSuffix k
  | round k i => roundSuffix k i

/-- The step that something is reported in. -/
def step? : Stamp → Option Nat
  | initial => none
  | step k => some k
  | round k _ => some k

theorem toList_step (k : Nat) : (step k).text.toList = Decimal.digits k :=
  Decimal.toList_toString k

theorem toList_round (k i : Nat) :
    (round k i).text.toList = Decimal.digits k ++ '_' :: Decimal.digits i := by
  have hmark : (toString "_").toList = ['_'] := rfl
  simp only [text, roundSuffix, String.toList_append, Decimal.toList_toString, hmark]
  simp

end Stamp

theorem mark_notMem_digits (n : Nat) : '_' ∉ Decimal.digits n :=
  fun h => absurd (Decimal.isDigit_of_mem_digits h) (by decide)

/-- Texts that are put together at a mark are the same if their parts are, for the first mark that
is met is that one. -/
theorem append_mark_inj {mark : Char} {front front' rest rest' : List Char} (h : mark ∉ front)
    (h' : mark ∉ front') :
    front ++ mark :: rest = front' ++ mark :: rest' ↔ front = front' ∧ rest = rest' := by
  constructor
  · intro heq
    have hsplit := congrArg (List.splitOn mark) heq
    rw [List.splitOn_append_cons_self_of_not_mem h,
      List.splitOn_append_cons_self_of_not_mem h'] at hsplit
    obtain rfl : front = front' := (List.cons.inj hsplit).1
    exact ⟨rfl, (List.cons.inj (List.append_cancel_left heq)).2⟩
  · rintro ⟨rfl, rfl⟩
    rfl

theorem digits_ne_zeros (k : Nat) : Decimal.digits k ≠ ['0', '0'] := by
  intro h
  have hvalue : Nat.ofDigitChars 10 (Decimal.digits k) 0 = k := Nat.ofDigitChars_ten_toDigits
  rw [h] at hvalue
  rw [← hvalue] at h
  revert h
  decide

theorem Stamp.text_injective : Function.Injective Stamp.text := by
  have hinitial : Stamp.initial.text.toList = ['0', '0'] := rfl
  have hstep : ∀ k t, (Stamp.step k).text = t.text → Stamp.step k = t := by
    intro k t h
    have hlist := congrArg String.toList h
    rw [toList_step] at hlist
    cases t with
    | initial => exact (digits_ne_zeros k (hlist.trans hinitial)).elim
    | step k' =>
      rw [toList_step] at hlist
      rw [Decimal.digits_injective hlist]
    | round k' i =>
      rw [toList_round] at hlist
      exact (mark_notMem_digits k (by simp [hlist])).elim
  have hround : ∀ k i t, (Stamp.round k i).text = t.text → Stamp.round k i = t := by
    intro k i t h
    cases t with
    | initial =>
      have hlist := congrArg String.toList h
      rw [toList_round, hinitial] at hlist
      have hmark : '_' ∈ ['0', '0'] := by simp [← hlist]
      exact absurd hmark (by decide)
    | step k' => exact (hstep k' _ h.symm).symm
    | round k' i' =>
      have hlist := congrArg String.toList h
      rw [toList_round, toList_round,
        append_mark_inj (mark_notMem_digits k) (mark_notMem_digits k')] at hlist
      rw [Decimal.digits_injective hlist.1, Decimal.digits_injective hlist.2]
  intro s t h
  cases s with
  | step k => exact hstep k t h
  | round k i => exact hround k i t h
  | initial =>
    cases t with
    | initial => rfl
    | step k => exact (hstep k _ h.symm).symm
    | round k i => exact (hround k i _ h.symm).symm

theorem toList_fileName (q : Quantity) (suffix : String) :
    (fileName q suffix).toList = q.name.toList ++ '_' :: suffix.toList := by
  have htext : ∀ text : String, toString text = text := fun _ => rfl
  simp only [fileName, String.toList_append, htext]
  simp

theorem name_injective : Function.Injective Quantity.name := by
  intro q q' h
  have hname := Quantity.ofName?_name q
  rw [h, Quantity.ofName?_name q'] at hname
  exact (Option.some.inj hname).symm

/-- **No two reports have the same name.** -/
theorem fileName_inj {q q' : Quantity} {s s' : Stamp} :
    fileName q s.text = fileName q' s'.text ↔ q = q' ∧ s = s' := by
  have hname : ∀ q : Quantity, '_' ∉ q.name.toList := by
    intro q
    cases q <;> decide
  rw [← String.toList_inj, toList_fileName, toList_fileName, append_mark_inj (hname q) (hname q'),
    String.toList_inj, String.toList_inj, name_injective.eq_iff, Stamp.text_injective.eq_iff]

/-- The name of a report is made of letters, digits and underscores. -/
theorem isAlphanum_of_mem_fileName {q : Quantity} {s : Stamp} {c : Char}
    (hc : c ∈ (fileName q s.text).toList) : c.isAlphanum = true ∨ c = '_' := by
  have hname : q.name.toList.all Char.isAlphanum = true := by
    cases q <;> decide
  have hzeros : Stamp.initial.text.toList.all Char.isAlphanum = true := by
    decide
  have hdigit : ∀ k, c ∈ Decimal.digits k → c.isAlphanum = true := by
    intro k h
    rw [Char.isAlphanum, Decimal.isDigit_of_mem_digits h, Bool.or_true]
  rw [toList_fileName, List.mem_append, List.mem_cons] at hc
  rcases hc with hc | hc | hc
  · exact .inl (List.all_eq_true.1 hname c hc)
  · exact .inr hc
  · cases s with
    | initial => exact .inl (List.all_eq_true.1 hzeros c hc)
    | step k =>
      rw [Stamp.toList_step] at hc
      exact .inl (hdigit k hc)
    | round k i =>
      rw [Stamp.toList_round, List.mem_append, List.mem_cons] at hc
      rcases hc with hc | hc | hc
      · exact .inl (hdigit k hc)
      · exact .inr hc
      · exact .inl (hdigit i hc)

theorem dot_notMem_fileName (q : Quantity) (s : Stamp) : '.' ∉ (fileName q s.text).toList :=
  fun h => absurd (isAlphanum_of_mem_fileName h) (by decide)

theorem isFileName_fileName (q : Quantity) (s : Stamp) : IsFileName (fileName q s.text) where
  plain h := absurd (isAlphanum_of_mem_fileName h) (by decide)
  nonempty h := by
    have hmark : '_' ∈ (fileName q s.text).toList := by simp [toList_fileName]
    rw [h] at hmark
    exact absurd hmark (by decide)
  notHere h := dot_notMem_fileName q s (h ▸ by decide)
  notAbove h := dot_notMem_fileName q s (h ▸ by decide)

/-- The files that a solve leaves its diagnostics in. -/
def diagnosticFiles : List String :=
  [BlockMatrix.systemFile, BlockMatrix.solutionFile]

theorem isFileName_of_mem_diagnosticFiles {name : String} (h : name ∈ diagnosticFiles) :
    IsFileName name := by
  have hplain : ∀ name ∈ diagnosticFiles,
      '/' ∉ name.toList ∧ name ≠ "" ∧ name ≠ "." ∧ name ≠ ".." := by
    decide
  obtain ⟨hslash, hempty, hhere, habove⟩ := hplain name h
  exact ⟨hslash, hempty, hhere, habove⟩

theorem fileName_notMem_diagnosticFiles (q : Quantity) (s : Stamp) :
    fileName q s.text ∉ diagnosticFiles := by
  have hdot : ∀ name ∈ diagnosticFiles, '.' ∈ name.toList := by
    decide
  exact fun h => dot_notMem_fileName q s (hdot _ h)

/-! ### Entries -/

/-- A quantity of a field, reported at some time. -/
structure Entry (α : Type) where
  quantity : Quantity
  stamp : Stamp
  field : NodeField α

section Entries

variable {α : Type}

namespace Entry

def file (e : Entry α) : String :=
  fileName e.quantity e.stamp.text

def lines [BinaryScalar α] (e : Entry α) : List String :=
  e.field.lines e.quantity

/-- What tells two entries apart. -/
def key (e : Entry α) : Quantity × Stamp :=
  (e.quantity, e.stamp)

theorem isFileName (e : Entry α) : IsFileName e.file :=
  isFileName_fileName e.quantity e.stamp

/-- A heading and a line for every node. -/
theorem lines_eq [BinaryScalar α] (e : Entry α) :
    ∃ values : List String, e.lines = s!"### {e.quantity.name}" :: values ∧
      values.length = e.field.nodeCount := by
  refine ⟨_, rfl, ?_⟩
  simp [NodeField.values, NodeField.nodeCount]

end Entry

/-- Some quantities of a field. -/
def fieldEntries (quantities : List Quantity) (stamp : Stamp) (field : NodeField α) :
    List (Entry α) :=
  quantities.map fun q => ⟨q, stamp, field⟩

/-- The solutions after the rounds of a step, the first of which has the given number. -/
def roundEntries (step first : Nat) (fields : List (NodeField α)) : List (Entry α) :=
  (fields.zipIdx first).flatMap fun (field, i) =>
    fieldEntries solutionQuantities (.round step i) field

/-- What is reported in a step whose rounds lead to some fields: if the plan asks for it all of
them, in any case the last. -/
def stepEntries (plan : Plan α) (step : Nat) (fields : List (NodeField α)) : List (Entry α) :=
  (if plan.writeIterations then roundEntries step 1 fields else []) ++
    fields.getLast?.toList.flatMap (fieldEntries solutionQuantities (.step step))

/-- What is reported in some steps, the first of which has the given number. -/
def stepsEntries (plan : Plan α) (first : Nat) (rounds : List (List (NodeField α))) :
    List (Entry α) :=
  (rounds.zipIdx first).flatMap fun (fields, k) => stepEntries plan k fields

/-- What a sweep reports: the doping of the field it starts from, the solution of the relaxed field,
then its steps. -/
def sweepEntries (plan : Plan α) (initial relaxed : NodeField α)
    (rounds : List (List (NodeField α))) : List (Entry α) :=
  fieldEntries dopingQuantities .initial initial ++
    fieldEntries solutionQuantities .initial relaxed ++ stepsEntries plan 0 rounds

/-! ### Entries of a sweep -/

variable {e : Entry α} {plan : Plan α}

theorem stamp_of_mem_fieldEntries {quantities : List Quantity} {s : Stamp} {field : NodeField α}
    (h : e ∈ fieldEntries quantities s field) : e.stamp = s := by
  obtain ⟨q, -, rfl⟩ := List.mem_map.1 h
  rfl

theorem stamp_of_mem_roundEntries {step first : Nat} {fields : List (NodeField α)}
    (h : e ∈ roundEntries step first fields) : ∃ i, first ≤ i ∧ e.stamp = .round step i := by
  obtain ⟨⟨field, i⟩, hfield, he⟩ := List.mem_flatMap.1 h
  exact ⟨i, List.le_snd_of_mem_zipIdx hfield, stamp_of_mem_fieldEntries he⟩

theorem stamp_of_mem_stepEntries {step : Nat} {fields : List (NodeField α)}
    (h : e ∈ stepEntries plan step fields) : e.stamp.step? = some step := by
  rcases List.mem_append.1 h with h | h
  · split_ifs at h
    · obtain ⟨i, -, hstamp⟩ := stamp_of_mem_roundEntries h
      rw [hstamp, Stamp.step?]
    · cases h
  · obtain ⟨field, -, he⟩ := List.mem_flatMap.1 h
    rw [stamp_of_mem_fieldEntries he, Stamp.step?]

theorem stamp_of_mem_stepsEntries {first : Nat} {rounds : List (List (NodeField α))}
    (h : e ∈ stepsEntries plan first rounds) :
    ∃ k, first ≤ k ∧ e.stamp.step? = some k := by
  obtain ⟨⟨fields, k⟩, hfields, he⟩ := List.mem_flatMap.1 h
  exact ⟨k, List.le_snd_of_mem_zipIdx hfields, stamp_of_mem_stepEntries he⟩

theorem roundEntries_cons (step first : Nat) (field : NodeField α) (fields : List (NodeField α)) :
    roundEntries step first (field :: fields) =
      fieldEntries solutionQuantities (.round step first) field ++
        roundEntries step (first + 1) fields :=
  rfl

theorem stepsEntries_cons (first : Nat) (fields : List (NodeField α))
    (rounds : List (List (NodeField α))) :
    stepsEntries plan first (fields :: rounds) =
      stepEntries plan first fields ++ stepsEntries plan (first + 1) rounds :=
  rfl

theorem mem_roundEntries_iff {step : Nat} {fields : List (NodeField α)} :
    e ∈ roundEntries step 1 fields ↔ ∃ i field, fields[i]? = some field ∧
      ∃ q ∈ solutionQuantities, e = ⟨q, .round step (i + 1), field⟩ := by
  constructor
  · intro h
    obtain ⟨⟨field, i⟩, hfield, he⟩ := List.mem_flatMap.1 h
    obtain ⟨q, hq, rfl⟩ := List.mem_map.1 he
    obtain ⟨hi, hget⟩ := List.mk_mem_zipIdx_iff_le_and_getElem?_sub.1 hfield
    exact ⟨i - 1, field, hget, q, hq, by rw [Nat.sub_add_cancel hi]⟩
  · rintro ⟨i, field, hget, q, hq, rfl⟩
    refine List.mem_flatMap.2 ⟨(field, i + 1), ?_, List.mem_map.2 ⟨q, hq, rfl⟩⟩
    exact List.mk_mem_zipIdx_iff_le_and_getElem?_sub.2 ⟨Nat.le_add_left 1 i, hget⟩

theorem mem_stepEntries_iff {step : Nat} {fields : List (NodeField α)} :
    e ∈ stepEntries plan step fields ↔
      (plan.writeIterations = true ∧ ∃ i field, fields[i]? = some field ∧
        ∃ q ∈ solutionQuantities, e = ⟨q, .round step (i + 1), field⟩) ∨
      ∃ field, fields.getLast? = some field ∧
        ∃ q ∈ solutionQuantities, e = ⟨q, .step step, field⟩ := by
  have hlast : e ∈ fields.getLast?.toList.flatMap (fieldEntries solutionQuantities (.step step)) ↔
      ∃ field, fields.getLast? = some field ∧
        ∃ q ∈ solutionQuantities, e = ⟨q, .step step, field⟩ := by
    simp [fieldEntries, eq_comm]
  rw [stepEntries, List.mem_append, hlast, ← mem_roundEntries_iff]
  refine or_congr ?_ Iff.rfl
  split_ifs with hwrite <;> simp [hwrite]

/-- The last round of a step is reported once more for the step. -/
theorem exists_last_mem_stepEntries (step : Nat) {fields : List (NodeField α)} {q : Quantity}
    (hwrite : plan.writeIterations = true) (hne : fields ≠ []) (hq : q ∈ solutionQuantities) :
    ∃ field, ⟨q, .step step, field⟩ ∈ stepEntries plan step fields ∧
      ⟨q, .round step fields.length, field⟩ ∈ stepEntries plan step fields := by
  have hlast : fields.getLast? = some (fields.getLast hne) := List.getLast?_eq_some_getLast hne
  have hindex : fields[fields.length - 1]? = some (fields.getLast hne) := by
    rw [← List.getLast?_eq_getElem?, hlast]
  have hcount : fields.length - 1 + 1 = fields.length :=
    Nat.sub_add_cancel (List.length_pos_iff.2 hne)
  refine ⟨fields.getLast hne, ?_, ?_⟩
  · exact mem_stepEntries_iff.2 (.inr ⟨_, hlast, q, hq, rfl⟩)
  · exact mem_stepEntries_iff.2 (.inl ⟨hwrite, _, _, hindex, q, hq, by rw [hcount]⟩)

/-- **What a sweep reports:** the doping of the field it starts from, the solution of the relaxed
field, and of every step the solution behind its last round and, if the plan asks for it, behind
every round. -/
theorem mem_sweepEntries_iff {initial relaxed : NodeField α} {rounds : List (List (NodeField α))} :
    e ∈ sweepEntries plan initial relaxed rounds ↔
      (∃ q ∈ dopingQuantities, e = ⟨q, .initial, initial⟩) ∨
      (∃ q ∈ solutionQuantities, e = ⟨q, .initial, relaxed⟩) ∨
      ∃ k fields, rounds[k]? = some fields ∧ e ∈ stepEntries plan k fields := by
  have hsteps : e ∈ stepsEntries plan 0 rounds ↔
      ∃ k fields, rounds[k]? = some fields ∧ e ∈ stepEntries plan k fields := by
    rw [stepsEntries, List.mem_flatMap]
    constructor
    · rintro ⟨⟨fields, k⟩, hfields, he⟩
      exact ⟨k, fields, List.mk_mem_zipIdx_iff_getElem?.1 hfields, he⟩
    · rintro ⟨k, fields, hfields, he⟩
      exact ⟨(fields, k), List.mk_mem_zipIdx_iff_getElem?.2 hfields, he⟩
  rw [sweepEntries, List.mem_append, List.mem_append, hsteps, or_assoc]
  simp only [fieldEntries, List.mem_map, eq_comm]

theorem step_lt_of_mem_sweepEntries {initial relaxed : NodeField α}
    {rounds : List (List (NodeField α))} (h : e ∈ sweepEntries plan initial relaxed rounds)
    {k : Nat} (hk : e.stamp.step? = some k) : k < rounds.length := by
  rcases mem_sweepEntries_iff.1 h with ⟨q, -, rfl⟩ | ⟨q, -, rfl⟩ | ⟨k', fields, hfields, he⟩
  · cases hk
  · cases hk
  · rw [stamp_of_mem_stepEntries he] at hk
    cases hk
    exact (List.getElem?_eq_some_iff.1 hfields).1

/-! ### Distinct entries -/

/-- Of these entries no two have the same quantity and the same stamp. -/
def Distinct (entries : List (Entry α)) : Prop :=
  (entries.map Entry.key).Nodup

theorem Distinct.nodup_files {entries : List (Entry α)} (h : Distinct entries) :
    (entries.map Entry.file).Nodup := by
  have hfile : entries.map Entry.file =
      (entries.map Entry.key).map fun key => fileName key.1 key.2.text := by
    rw [List.map_map]
    rfl
  rw [hfile]
  exact h.map fun _ _ hname => Prod.ext_iff.2 (fileName_inj.1 hname)

theorem Distinct.append {entries entries' : List (Entry α)} (h : Distinct entries)
    (h' : Distinct entries') (hne : ∀ e ∈ entries, ∀ e' ∈ entries', e.key ≠ e'.key) :
    Distinct (entries ++ entries') := by
  rw [Distinct, List.map_append, List.nodup_append]
  refine ⟨h, h', ?_⟩
  simpa using hne

/-- Entries of different times are different. -/
theorem Distinct.append_of_stamp {entries entries' : List (Entry α)} (h : Distinct entries)
    (h' : Distinct entries') (hne : ∀ e ∈ entries, ∀ e' ∈ entries', e.stamp ≠ e'.stamp) :
    Distinct (entries ++ entries') :=
  h.append h' fun e he e' he' hkey => hne e he e' he' (Prod.mk.inj hkey).2

theorem distinct_fieldEntries {quantities : List Quantity} (h : quantities.Nodup) (s : Stamp)
    (field : NodeField α) : Distinct (fieldEntries quantities s field) := by
  rw [Distinct, fieldEntries, List.map_map]
  exact h.map fun q q' hq => (Prod.mk.inj hq).1

theorem distinct_solution (s : Stamp) (field : NodeField α) :
    Distinct (fieldEntries solutionQuantities s field) :=
  distinct_fieldEntries (by decide) s field

theorem distinct_roundEntries (step first : Nat) (fields : List (NodeField α)) :
    Distinct (roundEntries step first fields) := by
  induction fields generalizing first with
  | nil => exact List.nodup_nil
  | cons field fields ih =>
    rw [roundEntries_cons]
    refine (distinct_solution _ field).append_of_stamp (ih (first + 1)) ?_
    intro e he e' he' hsame
    obtain ⟨i, hi, hstamp⟩ := stamp_of_mem_roundEntries he'
    rw [stamp_of_mem_fieldEntries he, hstamp] at hsame
    cases hsame
    omega

theorem distinct_stepEntries (plan : Plan α) (step : Nat) (fields : List (NodeField α)) :
    Distinct (stepEntries plan step fields) := by
  refine Distinct.append_of_stamp ?_ ?_ ?_
  · split_ifs
    · exact distinct_roundEntries step 1 fields
    · exact List.nodup_nil
  · cases fields.getLast? with
    | none => exact List.nodup_nil
    | some field => simpa using distinct_solution (.step step) field
  · intro e he e' he' hsame
    obtain ⟨field, -, hfield⟩ := List.mem_flatMap.1 he'
    split_ifs at he
    · obtain ⟨i, -, hstamp⟩ := stamp_of_mem_roundEntries he
      rw [stamp_of_mem_fieldEntries hfield, hstamp] at hsame
      cases hsame
    · cases he

theorem distinct_stepsEntries (plan : Plan α) (first : Nat) (rounds : List (List (NodeField α))) :
    Distinct (stepsEntries plan first rounds) := by
  induction rounds generalizing first with
  | nil => exact List.nodup_nil
  | cons fields rounds ih =>
    rw [stepsEntries_cons]
    refine (distinct_stepEntries plan first fields).append_of_stamp (ih (first + 1)) ?_
    intro e he e' he' hsame
    obtain ⟨k, hk, hstep⟩ := stamp_of_mem_stepsEntries he'
    rw [← hsame, stamp_of_mem_stepEntries he] at hstep
    cases hstep
    omega

/-- **A sweep reports nothing twice.** -/
theorem distinct_sweepEntries (plan : Plan α) (initial relaxed : NodeField α)
    (rounds : List (List (NodeField α))) :
    Distinct (sweepEntries plan initial relaxed rounds) := by
  have hinitial : Distinct (fieldEntries dopingQuantities .initial initial ++
      fieldEntries solutionQuantities .initial relaxed) := by
    refine (distinct_fieldEntries (by decide) _ _).append (distinct_solution _ _) ?_
    intro e he e' he' hkey
    obtain ⟨q, hq, rfl⟩ := List.mem_map.1 he
    obtain ⟨q', hq', rfl⟩ := List.mem_map.1 he'
    obtain rfl : q = q' := (Prod.mk.inj hkey).1
    revert hq hq'
    cases q <;> decide
  refine hinitial.append_of_stamp (distinct_stepsEntries plan 0 rounds) ?_
  intro e he e' he' hsame
  obtain ⟨k, -, hstep⟩ := stamp_of_mem_stepsEntries he'
  have hfirst : e.stamp = .initial := by
    rcases List.mem_append.1 he with he | he <;> exact stamp_of_mem_fieldEntries he
  rw [← hsame, hfirst] at hstep
  cases hstep

/-- A step of two rounds. -/
example (plan : Plan α) (hwrite : plan.writeIterations = true) (f g : NodeField α) :
    (sweepEntries plan f f [[f, g]]).map Entry.file =
      ["Nd_00", "Na_00", "psi_00", "elec_00", "hole_00", "psi_0_1", "elec_0_1", "hole_0_1",
        "psi_0_2", "elec_0_2", "hole_0_2", "psi_0", "elec_0", "hole_0"] := by
  simp only [sweepEntries, stepsEntries, stepEntries, List.zipIdx_cons, List.flatMap_cons, hwrite,
    if_true]
  rfl

end Entries

end CarrierTransport.Run
