import StarkbankTrial.InteractivePrograms
import Mathlib.Algebra.GroupWithZero.Nat
import Mathlib.Data.List.Pairwise
import Mathlib.Data.List.Sort

/-!
# Tables with constraints and the statements on them

A database is one list of rows for every table. The order of a list is the
physical order of the rows: it settles what SQL leaves open, the choice between
rows that a sort key does not tell apart. A schema names the primary key, the
unique constraints, the row checks and the references of each table.

`respond` is the meaning of one statement for a reader who is alone. A statement
either has its whole effect or reports the broken constraint and has none.
-/
namespace StarkbankTrial.RelationalTables
open InteractivePrograms

/-- The constraints of a database. Two rows clash when they cannot both be stored;
rows with one primary key always clash. References are checked when a row is
inserted, so an assignment that uses this library leaves reference columns alone. -/
structure Schema {Table : Type} (Row : Table → Type) (Key : Type) where
  key : (t : Table) → Row t → Key
  clash : (t : Table) → Row t → Row t → Bool
  check : (t : Table) → Row t → Bool
  refs : (t : Table) → Row t → List (Table × Key)
  clash_comm : ∀ t a b, clash t a b = clash t b a
  clash_of_key : ∀ t a b, key t a = key t b → clash t a b = true

abbrev Database {Table : Type} (Row : Table → Type) := (t : Table) → List (Row t)

/-- The statements that programs use. `lockFirst` is the query with `ORDER BY`,
`LIMIT 1` and `FOR UPDATE SKIP LOCKED`, `insertIfAbsent` the insert with
`ON CONFLICT DO NOTHING` on the primary key. -/
inductive Statement {Table : Type} (Row : Table → Type) : Type where
  | select (t : Table) (condition : Row t → Bool)
  | lockFirst (t : Table) (condition : Row t → Bool) (before : Row t → Row t → Bool)
  | insert (t : Table) (rows : List (Row t))
  | insertIfAbsent (t : Table) (row : Row t)
  | update (t : Table) (condition : Row t → Bool) (assign : Row t → Row t)

/-- A broken constraint is `false` or `none`; an update counts its rows. -/
abbrev Statement.Answer {Table : Type} {Row : Table → Type} : Statement Row → Type
  | .select t _ => List (Row t)
  | .lockFirst t _ _ => Option (Row t)
  | .insert _ _ => Bool
  | .insertIfAbsent _ _ => Bool
  | .update _ _ _ => Option ℕ

section
variable {Table : Type} {Row : Table → Type} {Key : Type}

/-- The table that the statement may change. -/
def Statement.Writes : Statement Row → Table → Prop
  | .select _ _, _ => False
  | .lockFirst _ _ _, _ => False
  | .insert t _, u => t = u
  | .insertIfAbsent t _, u => t = u
  | .update t _ _, u => t = u

namespace Statement
variable {t u : Table}

@[simp] theorem select_writes {c : Row t → Bool} :
    (Statement.select t c).Writes u ↔ False := Iff.rfl

@[simp] theorem lockFirst_writes {c : Row t → Bool} {before : Row t → Row t → Bool} :
    (Statement.lockFirst t c before).Writes u ↔ False := Iff.rfl

@[simp] theorem insert_writes {rows : List (Row t)} :
    (Statement.insert t rows).Writes u ↔ t = u := Iff.rfl

@[simp] theorem insertIfAbsent_writes {row : Row t} :
    (Statement.insertIfAbsent t row).Writes u ↔ t = u := Iff.rfl

@[simp] theorem update_writes {c : Row t → Bool} {a : Row t → Row t} :
    (Statement.update t c a).Writes u ↔ t = u := Iff.rfl

end Statement

/-- A transaction is a program over statements; a raise rolls it back. -/
abbrev Transaction (Row : Table → Type) (E A : Type) : Type :=
  Program (Statement Row) Statement.Answer E A

namespace Transaction
variable {E A : Type} {t : Table}

def select (t : Table) (condition : Row t → Bool) : Transaction Row E (List (Row t)) :=
  .call (.select t condition) .done

def lockFirst (t : Table) (condition : Row t → Bool) (before : Row t → Row t → Bool) :
    Transaction Row E (Option (Row t)) :=
  .call (.lockFirst t condition before) .done

def insert (t : Table) (rows : List (Row t)) : Transaction Row E Bool :=
  .call (.insert t rows) .done

def insertIfAbsent (t : Table) (row : Row t) : Transaction Row E Bool :=
  .call (.insertIfAbsent t row) .done

def update (t : Table) (condition : Row t → Bool) (assign : Row t → Row t) :
    Transaction Row E (Option ℕ) :=
  .call (.update t condition assign) .done

@[simp] theorem select_bind (condition : Row t → Bool)
    (f : List (Row t) → Transaction Row E A) :
    (select t condition : Transaction Row E _) >>= f = .call (.select t condition) f := rfl

@[simp] theorem lockFirst_bind (condition : Row t → Bool) (before : Row t → Row t → Bool)
    (f : Option (Row t) → Transaction Row E A) :
    (lockFirst t condition before : Transaction Row E _) >>= f =
      .call (.lockFirst t condition before) f := rfl

@[simp] theorem insert_bind (rows : List (Row t)) (f : Bool → Transaction Row E A) :
    (insert t rows : Transaction Row E _) >>= f = .call (.insert t rows) f := rfl

@[simp] theorem insertIfAbsent_bind (row : Row t) (f : Bool → Transaction Row E A) :
    (insertIfAbsent t row : Transaction Row E _) >>= f = .call (.insertIfAbsent t row) f := rfl

@[simp] theorem update_bind (condition : Row t → Bool) (assign : Row t → Row t)
    (f : Option ℕ → Transaction Row E A) :
    (update t condition assign : Transaction Row E _) >>= f =
      .call (.update t condition assign) f := rfl

end Transaction

/-- All checks and unique constraints of one table. -/
def Schema.Valid (S : Schema Row Key) (t : Table) (rows : List (Row t)) : Prop :=
  (∀ r ∈ rows, S.check t r = true) ∧ rows.Pairwise fun a b => S.clash t a b = false

instance (S : Schema Row Key) (t : Table) (rows : List (Row t)) : Decidable (S.Valid t rows) :=
  inferInstanceAs (Decidable (_ ∧ _))

def assignWhere {R : Type} (condition : R → Bool) (assign : R → R) (rows : List R) : List R :=
  rows.map fun r => if condition r then assign r else r

/-- The first row of a stable sort. -/
def firstBy {R : Type} (before : R → R → Bool) (rows : List R) : Option R :=
  (rows.insertionSort fun a b => before a b).head?

/-! ### Row lists -/

@[simp] theorem mem_assignWhere {R : Type} {condition : R → Bool} {assign : R → R}
    {rows : List R} {r : R} : r ∈ assignWhere condition assign rows ↔
      (∃ a ∈ rows, condition a = true ∧ assign a = r) ∨ (r ∈ rows ∧ condition r = false) := by
  simp only [assignWhere, List.mem_map]
  constructor
  · rintro ⟨a, ha, rfl⟩
    by_cases hc : condition a = true
    · exact .inl ⟨a, ha, hc, by simp [hc]⟩
    · exact .inr ⟨by simpa [hc] using ha, by simp [hc]⟩
  · rintro (⟨a, ha, hc, rfl⟩ | ⟨hr, hc⟩)
    · exact ⟨a, ha, by simp [hc]⟩
    · exact ⟨r, hr, by simp [hc]⟩

theorem assignWhere_none {R : Type} {condition : R → Bool} {assign : R → R} {rows : List R}
    (h : ∀ r ∈ rows, condition r = false) : assignWhere condition assign rows = rows := by
  unfold assignWhere
  conv_rhs => rw [← List.map_id rows]
  exact List.map_congr_left fun r hr => by simp [h r hr]

/-- Two assignments to the same rows are one. -/
theorem assignWhere_assignWhere {R : Type} {condition : R → Bool} {assign assign' : R → R}
    {rows : List R} (h : ∀ r, condition (assign' r) = condition r) :
    assignWhere condition assign (assignWhere condition assign' rows) =
      assignWhere condition (fun r => assign (assign' r)) rows := by
  simp only [assignWhere, List.map_map]
  refine List.map_congr_left fun r _ => ?_
  by_cases hr : condition r = true
  · simp [hr, h r]
  · simp [hr]

/-- What the rows weigh together. -/
def total {R : Type} (weight : R → ℕ) (rows : List R) : ℕ := (rows.map weight).sum

theorem total_append {R : Type} {weight : R → ℕ} {rows new : List R} :
    total weight (rows ++ new) = total weight rows + total weight new := by
  simp [total]

theorem total_perm {R : Type} {weight : R → ℕ} {rows rows' : List R} (h : rows.Perm rows') :
    total weight rows = total weight rows' := (h.map weight).sum_nat

theorem total_eq_zero {R : Type} {weight : R → ℕ} {rows : List R} :
    total weight rows = 0 ↔ ∀ r ∈ rows, weight r = 0 := by
  simp [total, List.sum_eq_zero_iff_forall_eq_nat]

theorem total_assignWhere_le {R : Type} {weight : R → ℕ} {condition : R → Bool} {assign : R → R}
    {rows : List R} (h : ∀ r ∈ rows, condition r = true → weight (assign r) ≤ weight r) :
    total weight (assignWhere condition assign rows) ≤ total weight rows := by
  induction rows with
  | nil => exact Nat.le_refl _
  | cons r rows ih =>
      have hrest := ih fun a ha => h a (List.mem_cons_of_mem r ha)
      have hfirst : weight (if condition r then assign r else r) ≤ weight r := by
        split_ifs with hc
        · exact h r List.mem_cons_self hc
        · exact Nat.le_refl _
      simpa [total, assignWhere] using Nat.add_le_add hfirst hrest

/-- An assignment that makes no row heavier and one row lighter. -/
theorem total_assignWhere_lt {R : Type} {weight : R → ℕ} {condition : R → Bool} {assign : R → R}
    {rows : List R} (h : ∀ r ∈ rows, condition r = true → weight (assign r) ≤ weight r) {r : R}
    (hr : r ∈ rows) (hc : condition r = true) (hlt : weight (assign r) < weight r) :
    total weight (assignWhere condition assign rows) < total weight rows := by
  obtain ⟨front, back, rfl⟩ := List.append_of_mem hr
  have hfront : total weight (assignWhere condition assign front) ≤ total weight front :=
    total_assignWhere_le fun a ha => h a (by simp [ha])
  have hback : total weight (assignWhere condition assign back) ≤ total weight back :=
    total_assignWhere_le fun a ha => h a (by simp [ha])
  simp only [total, assignWhere, List.map_append, List.map_cons, List.sum_append, List.sum_cons, hc,
    if_true] at hfront hback ⊢
  omega

theorem firstBy_mem {R : Type} {before : R → R → Bool} {rows : List R} {r : R}
    (h : firstBy before rows = some r) : r ∈ rows :=
  (List.mem_insertionSort _).mp (List.mem_of_head? h)

theorem firstBy_eq_none {R : Type} {before : R → R → Bool} {rows : List R} :
    firstBy before rows = none ↔ rows = [] := by
  unfold firstBy
  rw [List.head?_eq_none_iff]
  constructor
  · intro h
    have hp := List.perm_insertionSort (fun a b => before a b = true) rows
    rw [h] at hp
    exact hp.symm.eq_nil
  · rintro rfl
    rfl

/-! ### Consistent databases -/

/-- Every table meets its checks and unique constraints. -/
def Schema.Consistent (S : Schema Row Key) (db : Database Row) : Prop := ∀ t, S.Valid t (db t)

theorem Schema.Valid.eq_of_clash {S : Schema Row Key} {t : Table} {rows : List (Row t)}
    (h : S.Valid t rows) {a b : Row t} (ha : a ∈ rows) (hb : b ∈ rows)
    (hc : S.clash t a b = true) : a = b := by
  by_contra hne
  have : Std.Symm fun a b => S.clash t a b = false :=
    ⟨fun x y hxy => (S.clash_comm t y x).trans hxy⟩
  have hp := h.2.forall ha hb hne
  rw [hc] at hp
  exact Bool.noConfusion hp

theorem Schema.Valid.eq_of_key {S : Schema Row Key} {t : Table} {rows : List (Row t)}
    (h : S.Valid t rows) {a b : Row t} (ha : a ∈ rows) (hb : b ∈ rows)
    (hk : S.key t a = S.key t b) : a = b :=
  h.eq_of_clash ha hb (S.clash_of_key t a b hk)

theorem Schema.Valid.nodup {S : Schema Row Key} {t : Table} {rows : List (Row t)}
    (h : S.Valid t rows) : rows.Nodup := by
  refine h.2.imp fun {a b} hab hne => ?_
  subst hne
  rw [S.clash_of_key t a a rfl] at hab
  exact Bool.noConfusion hab

/-- At most one row has a given key. -/
theorem Schema.Valid.filter_key {S : Schema Row Key} {t : Table} {rows : List (Row t)}
    (h : S.Valid t rows) {p : Row t → Bool}
    (hp : ∀ a b, p a = true → p b = true → S.clash t a b = true) :
    (rows.filter p).length ≤ 1 := by
  have hsub := (h.2.sublist List.filter_sublist : (rows.filter p).Pairwise _)
  match hf : rows.filter p with
  | [] => simp
  | [a] => simp
  | a :: b :: rest =>
      have hab := (List.pairwise_cons.mp (hf ▸ hsub)).1 b (by simp)
      have ha := (List.mem_filter.mp (hf ▸ List.mem_cons_self : a ∈ rows.filter p)).2
      have hb := (List.mem_filter.mp
        (hf ▸ List.mem_cons_of_mem _ List.mem_cons_self : b ∈ rows.filter p)).2
      rw [hp a b ha hb] at hab
      exact Bool.noConfusion hab

theorem Schema.Valid.filter_eq_singleton {S : Schema Row Key} {t : Table} {rows : List (Row t)}
    (h : S.Valid t rows) {p : Row t → Bool}
    (hp : ∀ a b, p a = true → p b = true → S.clash t a b = true) {r : Row t} (hr : r ∈ rows)
    (hpr : p r = true) : rows.filter p = [r] := by
  have hmem : r ∈ rows.filter p := List.mem_filter.mpr ⟨hr, hpr⟩
  obtain ⟨a, ha⟩ := List.length_eq_one_iff.mp
    (Nat.le_antisymm (h.filter_key hp) (List.length_pos_of_mem hmem))
  rw [ha] at hmem ⊢
  rw [List.mem_singleton.mp hmem]

/-- An assignment that leaves the clashes of its rows alone cannot fail. -/
theorem Schema.Valid.assignWhere {S : Schema Row Key} {t : Table} {rows : List (Row t)} (h : S.Valid t rows)
    {condition : Row t → Bool} {assign : Row t → Row t}
    (hcheck : ∀ r ∈ rows, condition r = true → S.check t (assign r) = true)
    (hleft : ∀ a ∈ rows, ∀ b ∈ rows, condition a = true → S.clash t a b = false →
      condition b = false → S.clash t (assign a) b = false)
    (hboth : ∀ a ∈ rows, ∀ b ∈ rows, condition a = true → condition b = true →
      S.clash t a b = false → S.clash t (assign a) (assign b) = false) :
    S.Valid t (assignWhere condition assign rows) := by
  refine ⟨fun r hr => ?_, ?_⟩
  · rcases mem_assignWhere.mp hr with ⟨a, ha, hc, rfl⟩ | ⟨hr, -⟩
    · exact hcheck a ha hc
    · exact h.1 r hr
  · unfold RelationalTables.assignWhere
    rw [List.pairwise_map]
    refine (List.Pairwise.and_mem.mp h.2).imp fun {a b} hab => ?_
    obtain ⟨ha, hb, hab⟩ := hab
    by_cases hca : condition a = true <;> by_cases hcb : condition b = true
    · simpa [hca, hcb] using hboth a ha b hb hca hcb hab
    · simpa [hca, hcb] using hleft a ha b hb hca hab (by simpa using hcb)
    · have := hleft b hb a ha hcb (by rw [S.clash_comm]; exact hab) (by simpa using hca)
      rw [S.clash_comm] at this
      simpa [hca, hcb] using this
    · simpa [hca, hcb] using hab

/-! ### The meaning of statements -/

variable [DecidableEq Key]

/-- The constraints that one more row meets. -/
def Schema.accepts (S : Schema Row Key) (db : Database Row) (t : Table) (row : Row t) : Bool :=
  S.check t row && (db t).all (fun r => !S.clash t r row) &&
    (S.refs t row).all fun ref => (db ref.1).any fun r => S.key ref.1 r == ref.2

theorem Schema.accepts_iff {S : Schema Row Key} {db : Database Row} {t : Table} {row : Row t} :
    S.accepts db t row = true ↔ S.check t row = true ∧
      (∀ r ∈ db t, S.clash t r row = false) ∧
      ∀ ref ∈ S.refs t row, ∃ r ∈ db ref.1, S.key ref.1 r = ref.2 := by
  simp [accepts, and_assoc]

theorem Schema.Valid.append {S : Schema Row Key} {db : Database Row} {t : Table} {row : Row t}
    (h : S.Valid t (db t)) (ha : S.accepts db t row = true) : S.Valid t (db t ++ [row]) := by
  obtain ⟨hc, hu, -⟩ := accepts_iff.mp ha
  refine ⟨fun r hr => ?_, ?_⟩
  · rcases List.mem_append.mp hr with hr | hr
    · exact h.1 r hr
    · exact (List.mem_singleton.mp hr) ▸ hc
  · rw [List.pairwise_append]
    exact ⟨h.2, List.pairwise_singleton _ _, fun a ha' b hb => by
      rw [List.mem_singleton.mp hb]
      exact hu a ha'⟩

variable [DecidableEq Table]

/-- The database with other rows in one table. -/
def Database.set (db : Database Row) (t : Table) (rows : List (Row t)) : Database Row :=
  Function.update db t rows

@[simp] theorem Database.set_self (db : Database Row) (t : Table) (rows : List (Row t)) :
    db.set t rows t = rows := Function.update_self _ _ _

theorem Database.set_of_ne (db : Database Row) {t u : Table} (h : u ≠ t) (rows : List (Row t)) :
    db.set t rows u = db u := Function.update_of_ne h _ _

@[simp] theorem Database.set_eq_self (db : Database Row) (t : Table) : db.set t (db t) = db :=
  Function.update_eq_self _ _

@[simp] theorem Database.set_set (db : Database Row) (t : Table) (rows rows' : List (Row t)) :
    (db.set t rows).set t rows' = db.set t rows' := Function.update_idem _ _ _

theorem Database.mem_set_append {db : Database Row} {t : Table} {row r : Row t} :
    r ∈ (db.set t (db t ++ [row])) t ↔ r ∈ db t ∨ r = row := by
  rw [Database.set_self, List.mem_append, List.mem_singleton]

def Schema.insertRows (S : Schema Row Key) (t : Table) :
    List (Row t) → Database Row → Option (Database Row)
  | [], db => some db
  | row :: rows, db =>
      if S.accepts db t row then S.insertRows t rows (db.set t (db t ++ [row])) else none

def respond (S : Schema Row Key) : (st : Statement Row) → Database Row → st.Answer × Database Row
  | .select t condition, db => ((db t).filter condition, db)
  | .lockFirst t condition before, db => (firstBy before ((db t).filter condition), db)
  | .insert t rows, db =>
      match S.insertRows t rows db with
      | some db' => (true, db')
      | none => (false, db)
  | .insertIfAbsent t row, db =>
      if (db t).any fun r => S.key t r == S.key t row then (true, db) else
        if S.accepts db t row then (true, db.set t (db t ++ [row])) else (false, db)
  | .update t condition assign, db =>
      if S.Valid t (assignWhere condition assign (db t)) then
        (some ((db t).filter condition).length,
          db.set t (assignWhere condition assign (db t)))
      else (none, db)

omit [DecidableEq Key] in
theorem Schema.Consistent.set {S : Schema Row Key} {db : Database Row} (h : S.Consistent db)
    {t : Table} {rows : List (Row t)} (hr : S.Valid t rows) : S.Consistent (db.set t rows) := by
  intro u
  by_cases hu : u = t
  · subst hu
    rw [Database.set_self]
    exact hr
  · rw [Database.set_of_ne _ hu]
    exact h u

/-- A successful insert appends its rows to one table. -/
theorem Schema.insertRows_eq {S : Schema Row Key} {t : Table} {rows : List (Row t)}
    {db db' : Database Row} (h : S.insertRows t rows db = some db') :
    db' = db.set t (db t ++ rows) := by
  induction rows generalizing db with
  | nil =>
      simp only [insertRows, Option.some.injEq] at h
      simp [← h]
  | cons row rows ih =>
      simp only [insertRows] at h
      split at h
      · rw [ih h]
        simp
      · simp at h

/-- Rows that keep the constraints, and refer to stored rows, are inserted. -/
theorem Schema.insertRows_ok {S : Schema Row Key} {t : Table} {rows : List (Row t)}
    {db : Database Row} (h : S.Valid t (db t ++ rows))
    (hrefs : ∀ row ∈ rows, ∀ ref ∈ S.refs t row, ∃ r ∈ db ref.1, S.key ref.1 r = ref.2) :
    S.insertRows t rows db = some (db.set t (db t ++ rows)) := by
  induction rows generalizing db with
  | nil => simp [Schema.insertRows]
  | cons row rows ih =>
      have haccepts : S.accepts db t row = true := by
        refine accepts_iff.mpr ⟨h.1 row (by simp), fun r hr => ?_, hrefs row List.mem_cons_self⟩
        exact (List.pairwise_append.mp h.2).2.2 r hr row List.mem_cons_self
      have hkept : ∀ u, ∀ r ∈ db u, r ∈ (db.set t (db t ++ [row])) u := by
        intro u r hr
        by_cases hu : u = t
        · subst hu
          exact Database.mem_set_append.mpr (.inl hr)
        · rwa [Database.set_of_ne _ hu]
      have hset : (db.set t (db t ++ [row])) t ++ rows = db t ++ row :: rows := by simp
      simp only [Schema.insertRows, haccepts, if_true]
      rw [ih (hset ▸ h) fun row' hrow' ref href => ?_, hset, Database.set_set]
      obtain ⟨r, hr, hkey⟩ := hrefs row' (List.mem_cons_of_mem row hrow') ref href
      exact ⟨r, hkept ref.1 r hr, hkey⟩

theorem Schema.Consistent.insertRows {S : Schema Row Key} {t : Table} {rows : List (Row t)}
    {db db' : Database Row} (h : S.Consistent db) (hi : S.insertRows t rows db = some db') :
    S.Consistent db' := by
  induction rows generalizing db with
  | nil =>
      simp only [Schema.insertRows, Option.some.injEq] at hi
      exact hi ▸ h
  | cons row rows ih =>
      simp only [Schema.insertRows] at hi
      split at hi
      · next ha => exact ih (h.set ((h t).append ha)) hi
      · simp at hi

/-- One accepted row is one successful insert. -/
theorem Schema.insertRows_singleton {S : Schema Row Key} {t : Table} {row : Row t}
    {db : Database Row} : S.insertRows t [row] db =
      if S.accepts db t row then some (db.set t (db t ++ [row])) else none := rfl

/-! ### Statements -/

variable {S : Schema Row Key} {db : Database Row} {t : Table}

@[simp] theorem respond_select (condition : Row t → Bool) :
    respond S (.select t condition) db = ((db t).filter condition, db) := rfl

@[simp] theorem respond_lockFirst (condition : Row t → Bool) (before : Row t → Row t → Bool) :
    respond S (.lockFirst t condition before) db =
      (firstBy before ((db t).filter condition), db) := rfl

theorem respond_consistent (h : S.Consistent db) (st : Statement Row) :
    S.Consistent (respond S st db).2 := by
  cases st with
  | select t condition => exact h
  | lockFirst t condition before => exact h
  | insert t rows =>
      simp only [respond]
      split
      · next hi => exact h.insertRows hi
      · exact h
  | insertIfAbsent t row =>
      simp only [respond]
      split_ifs with hk ha
      · exact h
      · exact h.set ((h t).append ha)
      · exact h
  | update t condition assign =>
      simp only [respond]
      split_ifs with hv
      · exact h.set hv
      · exact h

/-- A statement that writes another table leaves this one alone. -/
theorem respond_frame {st : Statement Row} {u : Table} (h : ¬ st.Writes u) :
    (respond S st db).2 u = db u := by
  cases st with
  | select t condition => rfl
  | lockFirst t condition before => rfl
  | insert t rows =>
      simp only [respond]
      split
      · next hi => rw [Schema.insertRows_eq hi]; exact Database.set_of_ne _ (Ne.symm h) _
      · rfl
  | insertIfAbsent t row =>
      simp only [respond]
      split_ifs
      · rfl
      · exact Database.set_of_ne _ (Ne.symm h) _
      · rfl
  | update t condition assign =>
      simp only [respond]
      split_ifs
      · exact Database.set_of_ne _ (Ne.symm h) _
      · rfl

/-- The statement neither reads nor writes the table, and checks no reference to it. -/
def Statement.Ignores (u : Table) : Statement Row → Prop
  | .select t _ => t ≠ u
  | .lockFirst t _ _ => t ≠ u
  | .update t _ _ => t ≠ u
  | .insert _ _ => False
  | .insertIfAbsent _ _ => False

theorem Database.set_comm (db : Database Row) {t u : Table} (h : t ≠ u) (rows : List (Row t))
    (rows' : List (Row u)) : (db.set t rows).set u rows' = (db.set u rows').set t rows :=
  Function.update_comm h _ _ _

/-- Such a statement answers the same whatever the table holds. -/
theorem respond_set {st : Statement Row} {u : Table} (h : st.Ignores u) (rows : List (Row u)) :
    respond S st (db.set u rows) = ((respond S st db).1, (respond S st db).2.set u rows) := by
  cases st with
  | select t condition => simp only [respond, Database.set_of_ne _ (h : t ≠ u)]
  | lockFirst t condition before => simp only [respond, Database.set_of_ne _ (h : t ≠ u)]
  | insert t rows => exact absurd h id
  | insertIfAbsent t row => exact absurd h id
  | update t condition assign =>
      have hne : t ≠ u := h
      simp only [respond, Database.set_of_ne _ hne]
      split_ifs
      · rw [Database.set_comm _ hne]
      · rfl

/-! ### Transactions -/

section Transactions
variable {E A : Type}

/-! The rules of the statements for a transaction that is alone. -/

section Rules
open Program
variable {post : A → Database Row → Prop}

theorem establishes_insert {rows : List (Row t)} {f : Bool → Transaction Row E A}
    (hok : ∀ db', S.insertRows t rows db = some db' → db' = db.set t (db t ++ rows) →
      Establishes (respond S) (f true) post db')
    (hbad : S.insertRows t rows db = none → Establishes (respond S) (f false) post db) :
    Establishes (respond S) (.call (.insert t rows) f) post db := by
  rw [establishes_call]
  simp only [respond]
  split
  · next db' hi => exact hok db' hi (Schema.insertRows_eq hi)
  · next hi => exact hbad hi

theorem establishes_update {condition : Row t → Bool} {assign : Row t → Row t}
    {f : Option ℕ → Transaction Row E A}
    (hok : S.Valid t (assignWhere condition assign (db t)) →
      Establishes (respond S) (f (some ((db t).filter condition).length)) post
        (db.set t (assignWhere condition assign (db t))))
    (hbad : ¬ S.Valid t (assignWhere condition assign (db t)) →
      Establishes (respond S) (f none) post db) :
    Establishes (respond S) (.call (.update t condition assign) f) post db := by
  rw [establishes_call]
  simp only [respond]
  split_ifs with hv
  · exact hok hv
  · exact hbad hv

/-- A table that no statement of the transaction writes stays as it is. -/
theorem establishes_frame {p : Transaction Row E A} {u : Table}
    (h : p.Issues fun st => ¬ st.Writes u) :
    Establishes (respond S) p (fun _ db' => db' u = db u) db := by
  intro a db' hr
  have hop : ∀ (st : Statement Row) (s : Database Row), ¬ st.Writes u →
      (respond S st s).2 u = s u := fun _ _ hw => respond_frame hw
  have hrel := h.run_rel (fun s s' : Database Row => s' u = s u) (fun _ => rfl)
    (fun _ _ _ hst htu => htu.trans hst) hop db
  rwa [hr] at hrel

/-- A transaction runs the same whatever a table holds that it ignores. -/
theorem run_set {p : Transaction Row E A} {u : Table} (h : p.Issues fun st => st.Ignores u)
    (rows : List (Row u)) : p.run (respond S) (db.set u rows) =
      ((p.run (respond S) db).1, (p.run (respond S) db).2.set u rows) := by
  induction p generalizing db with
  | done a => rfl
  | raise e => rfl
  | call st next ih =>
      rw [run_call, run_call, respond_set h.1 rows]
      exact ih _ (h.2 _)

end Rules

/-- The transaction with nobody else on the database. -/
abbrev atomically (S : Schema Row Key) (p : Transaction Row E A) (db : Database Row) :
    Except E A × Database Row := p.atomically (respond S) db

theorem atomically_consistent (h : S.Consistent db) (p : Transaction Row E A) :
    S.Consistent (atomically S p db).2 := by
  have hall : p.Issues fun _ => True := by
    induction p with
    | done a => trivial
    | raise e => trivial
    | call op next ih => exact ⟨trivial, ih⟩
  exact hall.atomically_rel (fun s t => S.Consistent s → S.Consistent t) (fun _ hs => hs)
    (fun _ _ _ f g hs => g (f hs)) (fun st _ _ hs => respond_consistent hs st) db h

/-- A transaction none of whose statements write a table leaves it alone. -/
theorem atomically_frame {p : Transaction Row E A} {u : Table}
    (h : p.Issues fun st => ¬ st.Writes u) : (atomically S p db).2 u = db u :=
  (establishes_frame h).atomically rfl

end Transactions
end
end StarkbankTrial.RelationalTables
