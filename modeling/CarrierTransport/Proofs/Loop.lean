import Mathlib
import CarrierTransport.Proofs.Transition

/-!
# Loops

The algorithms of the library are folds, most of them over `List.range'`. An invariant of such a
loop is stated of the number the loop has reached, that of another of the items it has gone
through, and a loop that takes terms off an accumulator is a difference of the accumulator and a
finite sum.
-/

namespace CarrierTransport.Loop

/-- **The invariant rule.** What holds at `start` and is carried from `k` to `k + 1` by the step at
`k` holds behind the last number. -/
theorem foldl_range'_invariant {β : Type*} (P : Nat → β → Prop) {f : β → Nat → β}
    {start count : Nat} {b : β} (hstart : P start b)
    (hstep : ∀ k b, start ≤ k → k < start + count → P k b → P (k + 1) (f b k)) :
    P (start + count) ((List.range' start count).foldl f b) := by
  induction count generalizing start b with
  | zero => exact hstart
  | succ count ih =>
    rw [List.range'_succ, List.foldl_cons, show start + (count + 1) = start + 1 + count by omega]
    apply ih (hstep start b le_rfl (by omega) hstart)
    intro k c hk hlt
    exact hstep k c (by omega) (by omega)

/-- The invariant rule for two loops over the same numbers. -/
theorem foldl_range'_pair {β γ : Type*} (P : Nat → β → γ → Prop) {f : β → Nat → β}
    {g : γ → Nat → γ} {start count : Nat} {b : β} {c : γ} (hstart : P start b c)
    (hstep : ∀ k b c, start ≤ k → k < start + count → P k b c → P (k + 1) (f b k) (g c k)) :
    P (start + count) ((List.range' start count).foldl f b)
      ((List.range' start count).foldl g c) := by
  induction count generalizing start b c with
  | zero => exact hstart
  | succ count ih =>
    rw [List.range'_succ, List.foldl_cons, List.foldl_cons,
      show start + (count + 1) = start + 1 + count by omega]
    apply ih (hstep start b c le_rfl (by omega) hstart)
    intro k b' c' hk hlt
    exact hstep k b' c' (by omega) (by omega)

theorem foldl_range_invariant {β : Type*} (P : Nat → β → Prop) {f : β → Nat → β} {count : Nat}
    {b : β} (hstart : P 0 b) (hstep : ∀ k b, k < count → P k b → P (k + 1) (f b k)) :
    P count ((List.range count).foldl f b) := by
  have hloop : P (0 + count) ((List.range' 0 count).foldl f b) :=
    foldl_range'_invariant P hstart fun k c _ hk => hstep k c (by omega)
  rwa [Nat.zero_add, ← List.range_eq_range'] at hloop

theorem foldl_range_pair {β γ : Type*} (P : Nat → β → γ → Prop) {f : β → Nat → β}
    {g : γ → Nat → γ} {count : Nat} {b : β} {c : γ} (hstart : P 0 b c)
    (hstep : ∀ k b c, k < count → P k b c → P (k + 1) (f b k) (g c k)) :
    P count ((List.range count).foldl f b) ((List.range count).foldl g c) := by
  have hloop : P (0 + count) ((List.range' 0 count).foldl f b) ((List.range' 0 count).foldl g c) :=
    foldl_range'_pair P hstart fun k b' c' _ hk => hstep k b' c' (by omega)
  rwa [Nat.zero_add, ← List.range_eq_range'] at hloop

/-- The invariant rule for a loop that counts down to zero. -/
theorem foldl_reverse_range_invariant {β : Type*} (P : Nat → β → Prop) {f : β → Nat → β}
    {count : Nat} {b : β} (hstart : P count b)
    (hstep : ∀ k b, k < count → P (k + 1) b → P k (f b k)) :
    P 0 ((List.range count).reverse.foldl f b) := by
  induction count generalizing b with
  | zero => exact hstart
  | succ count ih =>
    rw [List.range_succ, List.reverse_append, List.reverse_singleton, List.singleton_append,
      List.foldl_cons]
    exact ih (hstep count b (by omega) hstart) fun k c hk => hstep k c (by omega)

/-- The invariant rule for a loop over a list, stated of the items that are done. -/
theorem foldl_invariant {ι β : Type*} (P : List ι → β → Prop) {f : β → ι → β} {items : List ι}
    {b : β} (hstart : P [] b) (hstep : ∀ done i b, P done b → P (done ++ [i]) (f b i)) :
    P items (items.foldl f b) := by
  induction items using List.reverseRecOn with
  | nil => exact hstart
  | append_singleton items i ih =>
    rw [List.foldl_append]
    exact hstep items i _ ih

/-- The invariant rule for a loop over a list that may fail. -/
theorem foldlM_invariant {ε ι β : Type} (P : List ι → β → Prop) {f : β → ι → Except ε β}
    {items : List ι} {b b' : β} (hstart : P [] b)
    (hstep : ∀ done i b b', P done b → f b i = .ok b' → P (done ++ [i]) b')
    (h : items.foldlM f b = .ok b') : P items b' := by
  induction items using List.reverseRecOn generalizing b' with
  | nil =>
    cases h
    exact hstart
  | append_singleton items i ih =>
    rw [List.foldlM_append] at h
    obtain ⟨c, hitems, hlast⟩ := Transition.except_bind_eq_ok.1 h
    rw [List.foldlM_cons] at hlast
    obtain ⟨d, hstep', hdone⟩ := Transition.except_bind_eq_ok.1 hlast
    cases hdone
    exact hstep items i c b' (ih hitems) hstep'

/-- A traversal succeeds with what every item gives. -/
theorem mapM_eq_ok {ε ι β : Type} {f : ι → Except ε β} {items : List ι} {results : List β} :
    items.mapM f = .ok results ↔ List.Forall₂ (fun i b => f i = .ok b) items results := by
  induction items generalizing results with
  | nil =>
    rw [List.mapM_nil, List.forall₂_nil_left_iff]
    exact ⟨fun h => by cases h; rfl, fun h => by rw [h]; rfl⟩
  | cons i items ih =>
    rw [List.mapM_cons, Transition.except_bind_eq_ok, List.forall₂_cons_left_iff]
    constructor
    · rintro ⟨b, hb, h⟩
      obtain ⟨bs, hbs, h⟩ := Transition.except_bind_eq_ok.1 h
      cases h
      exact ⟨b, bs, hb, ih.1 hbs, rfl⟩
    · rintro ⟨b, bs, hb, hbs, rfl⟩
      exact ⟨b, hb, Transition.except_bind_eq_ok.2 ⟨bs, ih.2 hbs, rfl⟩⟩

/-- A traversal finds something if it does for every item. -/
theorem mapM_eq_some {ι β : Type} {f : ι → Option β} {items : List ι} {results : List β} :
    items.mapM f = some results ↔ List.Forall₂ (fun i b => f i = some b) items results := by
  induction items generalizing results with
  | nil =>
    rw [List.mapM_nil, List.forall₂_nil_left_iff]
    exact ⟨fun h => by cases h; rfl, fun h => by rw [h]; rfl⟩
  | cons i items ih =>
    rw [List.mapM_cons, List.forall₂_cons_left_iff]
    simp only [Option.bind_eq_bind, Option.bind_eq_some_iff, ih]
    constructor
    · rintro ⟨b, hb, bs, hbs, h⟩
      cases h
      exact ⟨b, bs, hb, hbs, rfl⟩
    · rintro ⟨b, bs, hb, hbs, rfl⟩
      exact ⟨b, hb, bs, hbs, rfl⟩

theorem mapM_eq_some_map {ι β : Type} {f : ι → Option β} {g : ι → β} {items : List ι}
    (h : ∀ i ∈ items, f i = some (g i)) : items.mapM f = some (items.map g) :=
  mapM_eq_some.2 (List.forall₂_map_right_iff.2 (List.forall₂_same.2 h))

/-- A traversal that finds something for every item finds nothing else. -/
theorem exists_mapM_some {ι β : Type} {f : ι → Option β} {items : List ι}
    (h : ∀ i ∈ items, ∃ b, f i = some b) :
    ∃ results, items.mapM f = some results ∧ ∀ b ∈ results, ∃ i ∈ items, f i = some b := by
  induction items with
  | nil => exact ⟨[], rfl, by simp⟩
  | cons i items ih =>
    obtain ⟨b, hb⟩ := h i List.mem_cons_self
    obtain ⟨bs, hbs, hmem⟩ := ih fun j hj => h j (List.mem_cons_of_mem i hj)
    refine ⟨b :: bs, by simp [hb, hbs], ?_⟩
    intro b' hb'
    rcases List.mem_cons.1 hb' with rfl | hb'
    · exact ⟨i, List.mem_cons_self, hb⟩
    · obtain ⟨j, hj, hfj⟩ := hmem b' hb'
      exact ⟨j, List.mem_cons_of_mem i hj, hfj⟩

theorem exists_mapM {ε ι β : Type} {f : ι → Except ε β} {items : List ι}
    (h : ∀ i ∈ items, ∃ b, f i = .ok b) : ∃ results, items.mapM f = .ok results := by
  induction items with
  | nil => exact ⟨[], rfl⟩
  | cons i items ih =>
    obtain ⟨b, hb⟩ := h i List.mem_cons_self
    obtain ⟨bs, hbs⟩ := ih fun j hj => h j (List.mem_cons_of_mem i hj)
    exact ⟨b :: bs, mapM_eq_ok.2 (.cons hb (mapM_eq_ok.1 hbs))⟩

/-- The first item of a list that is at fault is its head, or the head is not and there is one
behind it. -/
theorem exists_first_cons_iff {ι : Type} {Sound : ι → Prop} {Faulty : Nat → ι → Prop}
    {head : ι} {items : List ι} :
    (∃ i item, (head :: items)[i]? = some item ∧ (∀ before ∈ (head :: items).take i, Sound before) ∧
        Faulty i item) ↔
      Faulty 0 head ∨ Sound head ∧ ∃ i item, items[i]? = some item ∧
        (∀ before ∈ items.take i, Sound before) ∧ Faulty (i + 1) item := by
  constructor
  · rintro ⟨i, item, hitem, hbefore, hfault⟩
    cases i with
    | zero =>
      cases hitem
      exact .inl hfault
    | succ i =>
      obtain ⟨hsound, hbefore⟩ := List.forall_mem_cons.1 hbefore
      exact .inr ⟨hsound, i, item, hitem, hbefore, hfault⟩
  · rintro (hfault | ⟨hsound, i, item, hitem, hbefore, hfault⟩)
    · exact ⟨0, head, rfl, by simp, hfault⟩
    · exact ⟨i + 1, item, hitem, List.forall_mem_cons.2 ⟨hsound, hbefore⟩, hfault⟩

/-- A traversal fails like the first item that fails. -/
theorem mapM_eq_error_iff {ε ι β : Type} {f : ι → Except ε β} {items : List ι} {e : ε} :
    items.mapM f = .error e ↔ ∃ i item, items[i]? = some item ∧
      (∀ before ∈ items.take i, ∃ b, f before = .ok b) ∧ f item = .error e := by
  induction items with
  | nil => simp [pure, Except.pure]
  | cons head items ih =>
    rw [exists_first_cons_iff, ← ih, List.mapM_cons]
    cases hhead : f head with
    | error e' => simp [bind, Except.bind]
    | ok b =>
      cases items.mapM f with
      | error e' => simp [bind, Except.bind]
      | ok bs => simp [bind, Except.bind, pure, Except.pure]

/-- In an ascending list the first number that is not below a bound is the least of these. -/
theorem find?_eq_some_iff_least {bound n : Nat} {ns : List Nat} (h : ns.Pairwise (· < ·)) :
    ns.find? (fun k => decide (bound ≤ k)) = some n ↔
      n ∈ ns ∧ bound ≤ n ∧ ∀ k ∈ ns, bound ≤ k → n ≤ k := by
  induction ns with
  | nil => simp
  | cons first ns ih =>
    obtain ⟨hfirst, hns⟩ := List.pairwise_cons.1 h
    rcases le_or_gt bound first with hle | hlt
    · rw [List.find?_cons_of_pos (by simpa using hle), Option.some_inj]
      constructor
      · rintro rfl
        exact ⟨List.mem_cons_self, hle, List.forall_mem_cons.2
          ⟨fun _ => le_rfl, fun k hk _ => (hfirst k hk).le⟩⟩
      · rintro ⟨hn, -, hleast⟩
        refine (List.mem_cons.1 hn).elim Eq.symm fun hn => ?_
        exact absurd (hleast first List.mem_cons_self hle) (hfirst n hn).not_ge
    · rw [List.find?_cons_of_neg (by simpa using hlt), ih hns]
      constructor
      · rintro ⟨hn, hbound, hleast⟩
        exact ⟨List.mem_cons_of_mem _ hn, hbound, List.forall_mem_cons.2
          ⟨fun hle => absurd hle hlt.not_ge, hleast⟩⟩
      · rintro ⟨hn, hbound, hleast⟩
        refine ⟨(List.mem_cons.1 hn).resolve_left ?_, hbound, (List.forall_mem_cons.1 hleast).2⟩
        rintro rfl
        exact hlt.not_ge hbound

theorem exists_foldlM {ε ι β : Type} {f : β → ι → Except ε β} {items : List ι} (b : β)
    (h : ∀ i ∈ items, ∀ b, ∃ b', f b i = .ok b') : ∃ b', items.foldlM f b = .ok b' := by
  induction items generalizing b with
  | nil => exact ⟨b, rfl⟩
  | cons i items ih =>
    obtain ⟨b', hb'⟩ := h i List.mem_cons_self b
    obtain ⟨c, hc⟩ := ih b' fun j hj => h j (List.mem_cons_of_mem i hj)
    exact ⟨c, by rw [List.foldlM_cons]; exact Transition.except_bind_eq_ok.2 ⟨b', hb', hc⟩⟩

/-- A loop whose first steps do nothing may start behind them; the steps behind may be replaced by
equal ones. -/
theorem foldl_range'_skip {β : Type*} {f g : β → Nat → β} {start stop first : Nat} {b : β}
    (hskip : ∀ k, start ≤ k → k < first → ∀ b, f b k = b)
    (hsame : ∀ k, max first start ≤ k → k < stop → ∀ b, f b k = g b k) :
    (List.range' start (stop - start)).foldl f b =
      (List.range' (max first start) (stop - max first start)).foldl g b := by
  obtain ⟨count, hcount⟩ : ∃ count, count = stop - start := ⟨_, rfl⟩
  rw [← hcount]
  induction count generalizing start b with
  | zero =>
    rw [show stop - max first start = 0 by omega]
    rfl
  | succ count ih =>
    rw [List.range'_succ, List.foldl_cons]
    rcases Nat.lt_or_ge start first with hlt | hge
    · rw [hskip start le_rfl hlt, ih (fun k hk => hskip k (by omega))
        (fun k hk => hsame k (by omega)) (by omega), max_eq_left hlt, max_eq_left hlt.le]
    · rw [ih (fun k hk => hskip k (by omega)) (fun k hk => hsame k (by omega)) (by omega),
        max_eq_right hge, max_eq_right (by omega), hsame start (by omega) (by omega),
        show stop - start = stop - (start + 1) + 1 by omega, List.range'_succ, List.foldl_cons]

/-- What the items of an array give, item by item. -/
theorem flatten_mapIdx {β γ : Type} (values : Array β) (f : Nat → β → List γ) :
    (values.mapIdx f).toList.flatten =
      (List.range values.size).flatMap fun i => (values[i]?).elim [] (f i) := by
  rw [List.flatMap_def]
  refine congrArg List.flatten (List.ext_getElem (by simp) fun i hi hi' => ?_)
  have hlt : i < values.size := by simpa using hi
  simp [hlt]

/-- Only what the item at one index gives counts. -/
theorem sum_range_elim {β γ δ : Type*} [AddCommMonoid δ] {items : Array β} {f : Nat → β → List γ}
    {amount : List γ → δ} {index : Nat} {value : β → δ} (hnil : amount [] = 0)
    (h : ∀ i item, items[i]? = some item →
      amount (f i item) = if i = index then value item else 0) :
    ((List.range items.size).map fun i => amount ((items[i]?).elim [] (f i))).sum =
      (items[index]?).elim 0 value := by
  have hterm : ∀ i, amount ((items[i]?).elim [] (f i)) =
      if i = index then (items[index]?).elim 0 value else 0 := by
    intro i
    cases hi : items[i]? with
    | none =>
      rw [Option.elim_none, hnil]
      split_ifs with heq
      · rw [← heq, hi, Option.elim_none]
      · rfl
    | some item =>
      rw [Option.elim_some, h i item hi]
      split_ifs with heq
      · rw [← heq, hi, Option.elim_some]
      · rfl
  change ∑ i ∈ Finset.range items.size, _ = _
  simp only [hterm, Finset.sum_ite_eq', Finset.mem_range]
  split_ifs with hlt
  · rfl
  · rw [Array.getElem?_eq_none (not_lt.1 hlt), Option.elim_none]

/-- A sum over an array is one over its indices. -/
theorem sum_map_toList {α ι : Type*} [AddCommMonoid α] {items : Array ι} {count : Nat}
    (hcount : items.size = count) {f : ι → α} {g : Nat → α}
    (h : ∀ i item, items[i]? = some item → f item = g i) :
    (items.toList.map f).sum = ∑ i ∈ Finset.range count, g i := by
  have hmap : items.toList.map f = (List.range count).map g := by
    refine List.ext_getElem (by simp [hcount]) fun i hi hi' => ?_
    have hlt : i < items.size := by simpa using hi
    rw [List.getElem_map, Array.getElem_toList, List.getElem_map, List.getElem_range]
    exact h i _ (Array.getElem?_eq_getElem hlt)
  rw [hmap]
  rfl

/-- A sum over what a filter keeps counts nothing for the other items. -/
theorem sum_map_filter {α ι : Type*} [AddMonoid α] (p : ι → Bool) (f : ι → α) (items : List ι) :
    ((items.filter p).map f).sum = (items.map fun i => if p i then f i else 0).sum := by
  induction items with
  | nil => rfl
  | cons i items ih =>
    rw [List.map_cons, List.sum_cons, ← ih]
    cases hp : p i with
    | false =>
      rw [List.filter_cons_of_neg (by simp [hp]), if_neg Bool.false_ne_true, zero_add]
    | true => rw [List.filter_cons_of_pos hp, List.map_cons, List.sum_cons, if_pos rfl]

theorem foldl_sub {α β : Type*} [AddCommGroup α] (f : β → α) (items : List β) (a : α) :
    items.foldl (fun acc item => acc - f item) a = a - (items.map f).sum := by
  induction items generalizing a with
  | nil => simp
  | cons item items ih => rw [List.foldl_cons, ih, List.map_cons, List.sum_cons, sub_sub]

theorem foldl_range'_sub {α : Type*} [AddCommGroup α] (f : Nat → α) (start count : Nat) (a : α) :
    (List.range' start count).foldl (fun acc k => acc - f k) a =
      a - ∑ k ∈ Finset.Ico start (start + count), f k := by
  refine foldl_range'_invariant
    (fun k acc => acc = a - ∑ i ∈ Finset.Ico start k, f i) (by simp) ?_
  rintro k acc hk - rfl
  rw [Finset.sum_Ico_succ_top hk, sub_sub]

theorem foldl_range'_sub_pair {α : Type*} [AddCommGroup α] (f g : Nat → α) (start count : Nat)
    (a b : α) :
    (List.range' start count).foldl (fun (x, y) k => (x - f k, y - g k)) (a, b) =
      (a - ∑ k ∈ Finset.Ico start (start + count), f k,
        b - ∑ k ∈ Finset.Ico start (start + count), g k) := by
  refine foldl_range'_invariant
    (fun k acc => acc = (a - ∑ i ∈ Finset.Ico start k, f i, b - ∑ i ∈ Finset.Ico start k, g i))
    (by simp) ?_
  rintro k acc hk - rfl
  simp only [Finset.sum_Ico_succ_top hk, sub_sub]

/-- A sum whose first terms vanish. -/
theorem sum_Ico_eq_sum_range {α : Type*} [AddCommMonoid α] {f : Nat → α} {start stop : Nat}
    (hf : ∀ k < start, f k = 0) :
    ∑ k ∈ Finset.Ico start stop, f k = ∑ k ∈ Finset.range stop, f k := by
  refine Finset.sum_subset (fun k hk => ?_) (fun k hk hk' => hf k ?_)
  · exact Finset.mem_range.2 (Finset.mem_Ico.1 hk).2
  · by_contra hle
    exact hk' (Finset.mem_Ico.2 ⟨by omega, Finset.mem_range.1 hk⟩)

end CarrierTransport.Loop
