import Mathlib.Algebra.BigOperators.Group.List.Lemmas
import Mathlib.Algebra.GroupWithZero.Nat
import Mathlib.Data.List.Pairwise
import Mathlib.Data.List.Sort
import Mathlib.Tactic.SplitIfs

/-!
# Selections with nulls and joins

A comparison with a null is neither true nor false, and `WHERE` keeps the rows for
which its condition is true. A join pairs every row with its partners; whether it
drops or repeats a row depends on how many partners the row has.
-/
namespace StarkbankTrial.SqlSelections

/-- A truth value of SQL; `none` is null. -/
abbrev Truth := Option Bool

def holds (t : Truth) : Bool := t == some true

def conj : Truth → Truth → Truth
  | some false, _ => some false
  | _, some false => some false
  | some true, some true => some true
  | _, _ => none

def disj : Truth → Truth → Truth
  | some true, _ => some true
  | _, some true => some true
  | some false, some false => some false
  | _, _ => none

def neg (t : Truth) : Truth := t.map not

section
variable {A B R : Type}

def equals [DecidableEq A] : Option A → Option A → Truth
  | some a, some b => some (a == b)
  | _, _ => none

/-- `value IN (values)`: false of no values at all, even for a null. -/
def among [DecidableEq A] (value : Option A) (values : List (Option A)) : Truth :=
  values.foldr (fun v t => disj (equals value v) t) (some false)

/-- `and_(*conditions)`. -/
def conjunction (ts : List Truth) : Truth := ts.foldr conj (some true)

/-- The rows that `WHERE` keeps. -/
def selectWhere (conditions : List (R → Truth)) (rows : List R) : List R :=
  rows.filter fun r => holds (conjunction (conditions.map fun c => c r))

/-- A filter that a query may leave out. -/
def given (value : Option A) (condition : A → R → Truth) : List (R → Truth) :=
  value.toList.map condition

/-- The rows on the other side of a join. -/
def partnersOf (on : A → B → Truth) (partners : List B) (a : A) : List B :=
  partners.filter fun b => holds (on a b)

def innerJoin (on : A → B → Truth) (rows : List A) (partners : List B) : List (A × B) :=
  rows.flatMap fun a => (partnersOf on partners a).map fun b => (a, b)

/-- A row without a partner is kept beside nulls. -/
def outerJoin (on : A → B → Truth) (rows : List A) (partners : List B) : List (A × Option B) :=
  rows.flatMap fun a =>
    match partnersOf on partners a with
    | [] => [(a, none)]
    | bs => bs.map fun b => (a, some b)

/-- `SELECT column, count(*) … GROUP BY column ORDER BY column`. -/
def grouped [DecidableEq A] (collation : LinearOrder A) (column : R → A) (rows : List R) :
    List (A × ℕ) :=
  ((rows.map column).dedup.insertionSort collation.le).map fun v =>
    (v, (rows.map column).count v)

/-! ### Truth -/

@[simp] theorem holds_some {b : Bool} : holds (some b) = b := by cases b <;> rfl

@[simp] theorem holds_none : holds none = false := rfl

@[simp] theorem holds_conj {t u : Truth} : holds (conj t u) = (holds t && holds u) := by
  rcases t with _ | _ | _ <;> rcases u with _ | _ | _ <;> rfl

@[simp] theorem disj_some {a b : Bool} : disj (some a) (some b) = some (a || b) := by
  cases a <;> cases b <;> rfl

@[simp] theorem holds_disj {t u : Truth} : holds (disj t u) = (holds t || holds u) := by
  rcases t with _ | _ | _ <;> rcases u with _ | _ | _ <;> rfl

@[simp] theorem holds_conjunction {ts : List Truth} :
    holds (conjunction ts) = ts.all holds := by
  induction ts with
  | nil => rfl
  | cons t ts ih => exact holds_conj.trans (congrArg (holds t && ·) ih)

theorem holds_equals [DecidableEq A] {a b : Option A} :
    holds (equals a b) = true ↔ ∃ x, a = some x ∧ b = some x := by
  rcases a with _ | a <;> rcases b with _ | b <;> simp only [equals, holds_none, holds_some]
  · simp
  · simp
  · simp
  · simp only [beq_iff_eq, Option.some.injEq, exists_eq_left']
    exact eq_comm

/-- A null is in no list of values, and not in an empty list only. -/
theorem among_null [DecidableEq A] (values : List (Option A)) :
    among none values = if values = [] then some false else none := by
  induction values with
  | nil => rfl
  | cons v values ih =>
      change disj none (among none values) = none
      rw [ih]
      split_ifs <;> rfl

/-- Without nulls the membership of a value is true or false. -/
theorem among_value [DecidableEq A] {x : A} {values : List (Option A)}
    (h : ∀ v ∈ values, v.isSome = true) : among (some x) values = some (decide (some x ∈ values)) := by
  induction values with
  | nil => simp [among]
  | cons v values ih =>
      obtain ⟨y, rfl⟩ := Option.isSome_iff_exists.mp (h v List.mem_cons_self)
      have hrest := ih fun v hv => h v (List.mem_cons_of_mem _ hv)
      change disj (equals (some x) (some y)) (among (some x) values) = _
      rw [hrest, equals, disj_some, Option.some.injEq, Bool.eq_iff_iff]
      simp

@[simp] theorem mem_selectWhere {conditions : List (R → Truth)} {rows : List R} {r : R} :
    r ∈ selectWhere conditions rows ↔ r ∈ rows ∧ ∀ c ∈ conditions, holds (c r) = true := by
  simp [selectWhere]

@[simp] theorem selectWhere_nil {rows : List R} : selectWhere [] rows = rows := by
  simp [selectWhere, conjunction]

/-- One condition that no row meets leaves no rows. -/
theorem selectWhere_eq_nil {conditions : List (R → Truth)} {rows : List R} {c : R → Truth}
    (hc : c ∈ conditions) (h : ∀ r ∈ rows, holds (c r) ≠ true) :
    selectWhere conditions rows = [] := by
  rw [List.eq_nil_iff_forall_not_mem]
  intro r hr
  obtain ⟨hrow, hall⟩ := mem_selectWhere.mp hr
  exact h r hrow (hall c hc)

theorem selectWhere_source_append {conditions : List (R → Truth)} {rows more : List R} :
    selectWhere conditions (rows ++ more) =
      selectWhere conditions rows ++ selectWhere conditions more := List.filter_append ..

/-- Conditions on a part of a joined row can be asked before or after the join. -/
theorem selectWhere_map {J : Type} {conditions : List (R → Truth)} {f : J → R} {rows : List J} :
    (selectWhere (conditions.map fun c j => c (f j)) rows).map f =
      selectWhere conditions (rows.map f) := by
  simp only [selectWhere, List.filter_map, List.map_map, Function.comp_def]

/-! ### Joins -/

variable {on : A → B → Truth} {rows : List A} {partners : List B} {a : A}

@[simp] theorem mem_partnersOf {b : B} :
    b ∈ partnersOf on partners a ↔ b ∈ partners ∧ holds (on a b) = true := List.mem_filter

/-- No two partners of one row, as when the join condition reads a unique column. -/
theorem partnersOf_le_one
    (h : partners.Pairwise fun b b' => holds (on a b) = true → holds (on a b') = false) :
    (partnersOf on partners a).length ≤ 1 := by
  have hp : (partnersOf on partners a).Pairwise fun b b' =>
      holds (on a b) = true → holds (on a b') = false := h.sublist List.filter_sublist
  match hb : partnersOf on partners a with
  | [] => simp
  | [_] => simp
  | b :: b' :: bs =>
      rw [hb] at hp
      have hon := (mem_partnersOf.mp (hb ▸ List.mem_cons_self : b ∈ partnersOf on partners a)).2
      have hon' : holds (on a b') = true :=
        (mem_partnersOf.mp (hb ▸ by simp : b' ∈ partnersOf on partners a)).2
      rw [(List.pairwise_cons.mp hp).1 b' List.mem_cons_self hon] at hon'
      exact Bool.noConfusion hon'

/-- A row without exactly one partner would be dropped or repeated. -/
theorem innerJoin_fst (h : ∀ a ∈ rows, (partnersOf on partners a).length = 1) :
    (innerJoin on rows partners).map Prod.fst = rows := by
  unfold innerJoin
  induction rows with
  | nil => rfl
  | cons a rows ih =>
      obtain ⟨b, hb⟩ := List.length_eq_one_iff.mp (h a List.mem_cons_self)
      have hrows := ih fun x hx => h x (List.mem_cons_of_mem a hx)
      simpa [hb] using hrows

theorem outerJoin_fst (h : ∀ a ∈ rows, (partnersOf on partners a).length ≤ 1) :
    (outerJoin on rows partners).map Prod.fst = rows := by
  unfold outerJoin
  induction rows with
  | nil => rfl
  | cons a rows ih =>
      have hrows := ih fun x hx => h x (List.mem_cons_of_mem a hx)
      have ha := h a List.mem_cons_self
      match hb : partnersOf on partners a with
      | [] => simpa [hb] using hrows
      | [b] => simpa [hb] using hrows
      | b :: b' :: bs => simp [hb] at ha

theorem innerJoin_append (more : List A) : innerJoin on (rows ++ more) partners =
    innerJoin on rows partners ++ innerJoin on more partners := List.flatMap_append

theorem outerJoin_append (more : List A) : outerJoin on (rows ++ more) partners =
    outerJoin on rows partners ++ outerJoin on more partners := List.flatMap_append

/-- The rows of an outer join that have a partner are those of the inner join. -/
theorem outerJoin_filter_isSome : (outerJoin on rows partners).filter (fun p => p.2.isSome) =
    (innerJoin on rows partners).map fun p => (p.1, some p.2) := by
  simp only [outerJoin, innerJoin, List.filter_flatMap, List.map_flatMap, List.map_map]
  refine List.flatMap_congr fun a _ => ?_
  split
  · next hnone => simp [hnone]
  · simp [List.filter_map, Function.comp_def]

/-- Rows without partners can be left out of an inner join. -/
theorem innerJoin_filter {keep : A → Bool}
    (h : ∀ a ∈ rows, keep a = false → partnersOf on partners a = []) :
    innerJoin on (rows.filter keep) partners = innerJoin on rows partners := by
  unfold innerJoin
  induction rows with
  | nil => rfl
  | cons a rows ih =>
      have hrows := ih fun x hx => h x (List.mem_cons_of_mem a hx)
      cases ha : keep a with
      | true => rw [List.filter_cons_of_pos ha, List.flatMap_cons, List.flatMap_cons, hrows]
      | false =>
          rw [List.filter_cons_of_neg (by simp [ha]), List.flatMap_cons, hrows,
            h a List.mem_cons_self ha]
          rfl

theorem innerJoin_map {J : Type} (f : J → A) (js : List J) :
    innerJoin on (js.map f) partners =
      (innerJoin (fun j b => on (f j) b) js partners).map fun p => (f p.1, p.2) := by
  simp only [innerJoin, List.flatMap_map, List.map_flatMap, List.map_map]
  rfl

theorem equals_comm [DecidableEq A] (a b : Option A) : equals a b = equals b a := by
  cases a <;> cases b <;> simp only [equals, Bool.beq_comm]

theorem mem_innerJoin {b : B} : (a, b) ∈ innerJoin on rows partners ↔
    a ∈ rows ∧ b ∈ partners ∧ holds (on a b) = true := by
  simp [innerJoin]

/-! ### Groups -/

section
variable [DecidableEq A] (collation : LinearOrder A) (column : R → A) (rows : List R)

theorem grouped_sum : ((grouped collation column rows).map Prod.snd).sum = rows.length := by
  have hperm := List.perm_insertionSort collation.le (rows.map column).dedup
  rw [grouped, List.map_map, (hperm.map _).sum_eq]
  exact (List.sum_map_count_dedup_eq_length (rows.map column)).trans (List.length_map _)

theorem lookup_map (f : A → ℕ) (v : A) (vs : List A) :
    (vs.map fun v => (v, f v)).lookup v = if v ∈ vs then some (f v) else none := by
  induction vs with
  | nil => rfl
  | cons w vs ih =>
      rw [List.map_cons, List.lookup_cons]
      by_cases hv : v = w
      · simp [hv]
      · rw [beq_false_of_ne hv, ih]
        simp [hv]

/-- A value that no row has is in no group, and counts as zero. -/
theorem grouped_lookup (v : A) : ((grouped collation column rows).lookup v).getD 0 =
    (rows.map column).count v := by
  rw [grouped, lookup_map]
  split_ifs with hv
  · rfl
  · rw [List.mem_insertionSort, List.mem_dedup] at hv
    exact (List.count_eq_zero.mpr hv).symm

end

end

end StarkbankTrial.SqlSelections
