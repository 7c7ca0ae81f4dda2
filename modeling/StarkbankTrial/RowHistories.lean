import StarkbankTrial.ReadCommitted

/-!
# Rows over time

An evolution says how a stored row may change and which rows may be inserted. Statements that
keep to it never lose a row, and every row they leave goes back to a row that was there or to
one that was inserted. This holds of a statement that is alone, of the transactions built from
such statements, and of what sessions under READ COMMITTED have committed. Where rows keep
their keys and references, no reference is ever left without its row.
-/
namespace StarkbankTrial.RowHistories
open InteractivePrograms InterleavedRuns RelationalTables RowVersions ReadCommitted

/-- How rows may change, one step or many, and which rows may be new. -/
structure Evolution {Table : Type} (Row : Table → Type) where
  moves : (t : Table) → Row t → Row t → Prop
  born : (t : Table) → Row t → Prop
  refl : ∀ t r, moves t r r
  trans : ∀ t a b c, moves t a b → moves t b c → moves t a c

section
variable {Table : Type} {Row : Table → Type} {Key E A ι : Type}

/-- What the statement writes is a move of the row that was there, or a row that may be new. -/
def Evolution.Allows (V : Evolution Row) : Statement Row → Prop
  | .select _ _ => True
  | .lockFirst _ _ _ => True
  | .insert t rows => ∀ r ∈ rows, V.born t r
  | .insertIfAbsent t row => V.born t row
  | .update t condition assign => ∀ r, condition r = true → V.moves t r (assign r)

/-- From one database to a later one. -/
structure Evolution.Leads (V : Evolution Row) (db db' : Database Row) : Prop where
  kept : ∀ t, ∀ r ∈ db t, ∃ r' ∈ db' t, V.moves t r r'
  origin : ∀ t, ∀ r' ∈ db' t, (∃ r ∈ db t, V.moves t r r') ∨ ∃ r, V.born t r ∧ V.moves t r r'

/-- Every reference of a stored row has its row. -/
def Referenced (S : Schema Row Key) (db : Database Row) : Prop :=
  ∀ t, ∀ r ∈ db t, ∀ ref ∈ S.refs t r, ∃ r' ∈ db ref.1, S.key ref.1 r' = ref.2

/-- A row keeps its key and its references. -/
def Evolution.KeepsKeys (V : Evolution Row) (S : Schema Row Key) : Prop :=
  ∀ t r r', V.moves t r r' → S.key t r' = S.key t r ∧ S.refs t r' = S.refs t r

namespace Evolution
variable {V : Evolution Row} {S : Schema Row Key} {db db' db'' : Database Row}

@[simp] theorem allows_select {t : Table} {condition : Row t → Bool} :
    V.Allows (.select t condition) ↔ True := Iff.rfl

@[simp] theorem allows_lockFirst {t : Table} {condition : Row t → Bool}
    {before : Row t → Row t → Bool} : V.Allows (.lockFirst t condition before) ↔ True := Iff.rfl

@[simp] theorem allows_insert {t : Table} {rows : List (Row t)} :
    V.Allows (.insert t rows) ↔ ∀ r ∈ rows, V.born t r := Iff.rfl

@[simp] theorem allows_insertIfAbsent {t : Table} {row : Row t} :
    V.Allows (.insertIfAbsent t row) ↔ V.born t row := Iff.rfl

@[simp] theorem allows_update {t : Table} {condition : Row t → Bool} {assign : Row t → Row t} :
    V.Allows (.update t condition assign) ↔ ∀ r, condition r = true → V.moves t r (assign r) :=
  Iff.rfl

/-! ### From one database to a later one -/

theorem Leads.refl (V : Evolution Row) (db : Database Row) : V.Leads db db where
  kept t r hr := ⟨r, hr, V.refl t r⟩
  origin t r hr := .inl ⟨r, hr, V.refl t r⟩

theorem Leads.trans (h : V.Leads db db') (h' : V.Leads db' db'') : V.Leads db db'' where
  kept t r hr := by
    obtain ⟨r', hr', hmoves⟩ := h.kept t r hr
    obtain ⟨r'', hr'', hmoves'⟩ := h'.kept t r' hr'
    exact ⟨r'', hr'', V.trans t _ _ _ hmoves hmoves'⟩
  origin t r'' hr'' := by
    rcases h'.origin t r'' hr'' with ⟨r', hr', hmoves'⟩ | hborn
    · rcases h.origin t r' hr' with ⟨r, hr, hmoves⟩ | ⟨r, hborn, hmoves⟩
      · exact .inl ⟨r, hr, V.trans t _ _ _ hmoves hmoves'⟩
      · exact .inr ⟨r, hborn, V.trans t _ _ _ hmoves hmoves'⟩
    · exact .inr hborn

/-- The order of the rows is nothing that moves. -/
theorem Leads.of_mem (h : ∀ t r, r ∈ db' t ↔ r ∈ db t) : V.Leads db db' where
  kept t r hr := ⟨r, (h t r).mpr hr, V.refl t r⟩
  origin t r hr := .inl ⟨r, (h t r).mp hr, V.refl t r⟩

/-- The rows that are new in one table may be new, and in others nothing happens. -/
theorem Leads.append {t : Table} {rows : List (Row t)} [DecidableEq Table]
    (hrows : ∀ r ∈ rows, V.born t r) : V.Leads db (db.set t (db t ++ rows)) where
  kept u r hr := by
    refine ⟨r, ?_, V.refl u r⟩
    by_cases hu : u = t
    · subst hu
      rw [Database.set_self]
      exact List.mem_append.mpr (.inl hr)
    · rw [Database.set_of_ne _ hu]
      exact hr
  origin u r hr := by
    by_cases hu : u = t
    · subst hu
      rw [Database.set_self] at hr
      rcases List.mem_append.mp hr with hold | hnew
      · exact .inl ⟨r, hold, V.refl u r⟩
      · exact .inr ⟨r, hrows r hnew, V.refl u r⟩
    · rw [Database.set_of_ne _ hu] at hr
      exact .inl ⟨r, hr, V.refl u r⟩

theorem Leads.assign {t : Table} {condition : Row t → Bool} {assign : Row t → Row t}
    [DecidableEq Table] (h : ∀ r, condition r = true → V.moves t r (assign r)) :
    V.Leads db (db.set t (assignWhere condition assign (db t))) where
  kept u r hr := by
    by_cases hu : u = t
    · subst hu
      rw [Database.set_self]
      refine ⟨_, List.mem_map.mpr ⟨r, hr, rfl⟩, ?_⟩
      split_ifs with hc
      · exact h r hc
      · exact V.refl u r
    · rw [Database.set_of_ne _ hu]
      exact ⟨r, hr, V.refl u r⟩
  origin u r' hr' := by
    by_cases hu : u = t
    · subst hu
      rw [Database.set_self] at hr'
      rcases mem_assignWhere.mp hr' with ⟨r, hr, hc, rfl⟩ | ⟨hr', -⟩
      · exact .inl ⟨r, hr, h r hc⟩
      · exact .inl ⟨r', hr', V.refl u r'⟩
    · rw [Database.set_of_ne _ hu] at hr'
      exact .inl ⟨r', hr', V.refl u r'⟩

/-- References of rows that keep them still have their rows. -/
theorem Leads.referenced (h : V.Leads db db') (hkeys : V.KeepsKeys S) (hdb : Referenced S db)
    {t : Table} {r r' : Row t} (hr : r ∈ db t) (hmoves : V.moves t r r') :
    ∀ ref ∈ S.refs t r', ∃ q ∈ db' ref.1, S.key ref.1 q = ref.2 := by
  intro ref href
  rw [(hkeys t r r' hmoves).2] at href
  obtain ⟨q, hq, hkey⟩ := hdb t r hr ref href
  obtain ⟨q', hq', hmoves'⟩ := h.kept ref.1 q hq
  exact ⟨q', hq', (hkeys ref.1 q q' hmoves').1.trans hkey⟩

/-! ### A transaction that is alone -/

section
variable [DecidableEq Table] [DecidableEq Key]

theorem respond_leads {st : Statement Row} (h : V.Allows st) (db : Database Row) :
    V.Leads db (respond S st db).2 := by
  cases st with
  | select t condition => exact .refl V db
  | lockFirst t condition before => exact .refl V db
  | insert t rows =>
      simp only [respond]
      split
      · next db' hrows => exact Schema.insertRows_eq hrows ▸ .append h
      · exact .refl V db
  | insertIfAbsent t row =>
      simp only [respond]
      split_ifs
      · exact .refl V db
      · exact .append fun r hr => List.mem_singleton.mp hr ▸ h
      · exact .refl V db
  | update t condition assign =>
      simp only [respond]
      split_ifs
      · exact .assign h
      · exact .refl V db

/-- A transaction of such statements leads on, whether it returns or raises. -/
theorem atomically_leads {p : Transaction Row E A} (h : p.Issues V.Allows) (db : Database Row) :
    V.Leads db (atomically S p db).2 :=
  h.atomically_rel V.Leads (fun db => .refl V db) (fun _ _ _ h h' => h.trans h')
    (fun _ db hst => respond_leads hst db) db

end

/-! ### Sessions under READ COMMITTED -/

/-- The committed version of a row has moved to the pending one. -/
def versions (V : Evolution Row) (ι : Type) : RowInvariant ι Row where
  version _ _ := True
  pending t _ committed r :=
    match committed with
    | some q => V.moves t q r
    | none => ∃ q, V.born t q ∧ V.moves t q r

section
variable {s s' : Versions ι Row} {i j : ι} {t : Table} {r : Row t}

theorem versions_untouched (db : Database Row) : (V.versions ι).Holds (untouched db) :=
  .untouched fun _ _ _ => trivial

variable [DecidableEq ι]

/-- The committed version of a row moves to what a session sees of it. -/
theorem versions_visible (h : (V.versions ι).Holds s) {c : Slot ι (Row t)} (hc : c ∈ s t)
    (hr : c.visible i = some r) : (V.versions ι).pending t i c.committed r := by
  rcases Slot.visible_eq_some.mp hr with hpending | ⟨hcommitted, -⟩
  · exact h.pending t c hc i r hpending
  · rw [hcommitted]
    exact V.refl t r

theorem versions_permits (h : (V.versions ι).Holds s) {st : Statement Row} (hst : V.Allows st) :
    (V.versions ι).Permits i s st := by
  cases st with
  | select t condition => trivial
  | lockFirst t condition before => exact fun c hc _ r hr => versions_visible h hc hr
  | insert t rows => exact fun r hr => ⟨trivial, r, hst r hr, V.refl t r⟩
  | insertIfAbsent t row => exact ⟨trivial, row, hst, V.refl t row⟩
  | update t condition assign =>
      intro c hc _ r hr hcondition
      have hmoves := hst r hcondition
      have hbefore := versions_visible h hc hr
      refine ⟨trivial, ?_⟩
      cases hcommitted : c.committed with
      | some q =>
          rw [hcommitted] at hbefore
          exact V.trans t _ _ _ hbefore hmoves
      | none =>
          rw [hcommitted] at hbefore
          obtain ⟨q, hborn, hmoves'⟩ := hbefore
          exact ⟨q, hborn, V.trans t _ _ _ hmoves' hmoves⟩

/-- What is committed leads on to what any session sees. -/
theorem versions_view (h : (V.versions ι).Holds s) (i : ι) : V.Leads (committedRows s) (view i s) where
  kept t r hr := by
    obtain ⟨c, hc, hcommitted⟩ := List.mem_filterMap.mp hr
    have hsome : ∃ r', c.visible i = some r' := by
      cases hown : c.own i with
      | some r' => exact ⟨r', by simp [Slot.visible, hown]⟩
      | none => exact ⟨r, by simp [Slot.visible, hown, hcommitted]⟩
    obtain ⟨r', hr'⟩ := hsome
    have hmoves := versions_visible h hc hr'
    rw [hcommitted] at hmoves
    exact ⟨r', List.mem_filterMap.mpr ⟨c, hc, hr'⟩, hmoves⟩
  origin t r' hr' := by
    obtain ⟨c, hc, hvisible⟩ := List.mem_filterMap.mp hr'
    have hmoves := versions_visible h hc hvisible
    cases hcommitted : c.committed with
    | some r =>
        rw [hcommitted] at hmoves
        exact .inl ⟨r, List.mem_filterMap.mpr ⟨c, hc, hcommitted⟩, hmoves⟩
    | none =>
        rw [hcommitted] at hmoves
        exact .inr hmoves

variable [DecidableEq Table] [DecidableEq Key]

/-- The statements of the operation keep to the evolution. -/
def AllowsOp (V : Evolution Row) (op : SessionOp Row) : Prop := ∀ st, op = .statement st → V.Allows st

theorem perform_leads {op : SessionOp Row} {a : op.Answer} (h : (V.versions ι).Holds s)
    (hop : perform S i op s = some (a, s')) : V.Leads (committedRows s) (committedRows s') := by
  cases op with
  | statement st =>
      have hsame : committedRows s' = committedRows s := execute_committed hop
      rw [hsame]
      exact .refl V _
  | commit =>
      obtain ⟨-, rfl⟩ := Prod.mk.inj (Option.some.inj hop)
      rw [committedRows_commit]
      exact versions_view h i
  | rollback =>
      obtain ⟨-, rfl⟩ := Prod.mk.inj (Option.some.inj hop)
      rw [committedRows_rollback]
      exact .refl V _

/-- What a statement shows its own session is what it would do alone. -/
inductive Shown (S : Schema Row Key) (i : ι) (s : Versions ι Row) :
    Statement Row → Database Row → Prop
  | same {st : Statement Row} : Shown S i s st (view i s)
  | inserted {t : Table} {rows : List (Row t)} {st : Statement Row} :
      st = .insert t rows ∨ (∃ row, st = .insertIfAbsent t row ∧ rows = [row]) →
      (∀ r ∈ rows, referenced S i t s r = true) →
      Shown S i s st ((view i s).set t (view i s t ++ rows))
  | updated {t : Table} {condition : Row t → Bool} {assign : Row t → Row t} :
      Shown S i s (.update t condition assign)
        ((view i s).set t (assignWhere condition assign (view i s t)))

omit [DecidableEq Key] in
/-- The sight of a session after its own write to one table. -/
theorem view_set (t : Table) (slots : List (Slot ι (Row t))) :
    view i (s.set t slots) = (view i s).set t (slots.filterMap (Slot.visible i)) := by
  funext u
  by_cases hu : u = t
  · subst hu
    rw [Database.set_self, view, Versions.set_self]
  · rw [Database.set_of_ne _ hu]
    exact view_congr (Versions.set_of_ne _ hu _)

theorem execute_shown {st : Statement Row} {a : st.Answer} (h : execute S i st s = some (a, s')) :
    Shown S i s st (view i s') := by
  have hinsert : ∀ {t : Table} {rows : List (Row t)} {b : Bool},
      insertSlots S i t rows s = some (b, s') →
      (st = .insert t rows ∨ ∃ row, st = .insertIfAbsent t row ∧ rows = [row]) →
      Shown S i s st (view i s') := by
    intro t rows b hins hst
    unfold insertSlots at hins
    split_ifs at hins with hrefs
    · rcases put_eq_some.mp hins with ⟨-, rfl, -, -⟩ | ⟨-, rfl, -⟩
      · have hnew : (rows.map fun r => (⟨none, some (i, r)⟩ : Slot ι (Row t))).filterMap
            (Slot.visible i) = rows := by
          simp [List.filterMap_map, Function.comp_def, Slot.visible, Slot.own]
        rw [view_set, List.filterMap_append, hnew]
        exact .inserted hst (List.all_eq_true.mp hrefs)
      · exact .same
    · obtain ⟨-, rfl⟩ := Prod.mk.inj (Option.some.inj hins)
      exact .same
  cases st with
  | select t condition =>
      obtain ⟨-, rfl⟩ := Prod.mk.inj (Option.some.inj h)
      exact .same
  | lockFirst t condition before =>
      simp only [execute] at h
      split at h
      · obtain ⟨-, rfl⟩ := Prod.mk.inj (Option.some.inj h)
        exact .same
      · next r _ =>
        obtain ⟨p, hp, hs⟩ := Option.map_eq_some_iff.mp h
        obtain ⟨-, rfl⟩ := Prod.mk.inj hs
        rcases (put_eq_some (b := p.1)).mp hp with ⟨-, hs, -, -⟩ | ⟨-, hs, -⟩
        · rw [hs, view_set]
          have hlocked : ((s t).map fun c => if c.heldByOther i then c else
              c.write i (fun r' => S.key t r' == S.key t r) id).filterMap (Slot.visible i) =
                view i s t := by
            rw [List.filterMap_map]
            refine List.filterMap_congr fun c _ => ?_
            simp only [Function.comp_apply]
            split_ifs
            · rfl
            · rw [Slot.visible_write]
              cases c.visible i <;> simp
          rw [hlocked, Database.set_eq_self]
          exact .same
        · rw [hs]
          exact .same
  | insert t rows => exact hinsert h (.inl rfl)
  | insertIfAbsent t row =>
      simp only [execute] at h
      split_ifs at h
      · obtain ⟨-, rfl⟩ := Prod.mk.inj (Option.some.inj h)
        exact .same
      · exact hinsert h (.inr ⟨row, rfl, rfl⟩)
  | update t condition assign =>
      rcases execute_update h with ⟨-, rfl⟩ | hupdated
      · exact .same
      · have hview : view i s' =
            (view i s).set t (assignWhere condition assign (view i s t)) := by
          funext u
          by_cases hu : u = t
          · subst hu
            rw [Database.set_self]
            exact hupdated.view_eq
          · rw [Database.set_of_ne _ hu]
            exact view_congr (hupdated.frame u hu)
        rw [hview]
        exact .updated

theorem Shown.leads {st : Statement Row} {db : Database Row} (h : Shown S i s st db)
    (hst : V.Allows st) : V.Leads (view i s) db := by
  cases h with
  | same => exact .refl V _
  | inserted hrows _ =>
      refine .append fun r hr => ?_
      rcases hrows with rfl | ⟨row, rfl, rfl⟩
      · exact hst r hr
      · exact List.mem_singleton.mp hr ▸ hst
  | updated => exact .assign hst

/-- New rows refer to what their session sees. -/
theorem Shown.referenced {st : Statement Row} {db : Database Row} (h : Shown S i s st db)
    (hst : V.Allows st) (hkeys : V.KeepsKeys S) (hs : Referenced S (view i s)) :
    Referenced S db := by
  have hleads := h.leads hst
  cases h with
  | same => exact hs
  | @inserted t rows _ _ hrefs =>
      intro u r hr
      by_cases hu : u = t
      · subst hu
        rw [Database.set_self] at hr
        rcases List.mem_append.mp hr with hold | hnew
        · exact hleads.referenced hkeys hs hold (V.refl u r)
        · intro ref href
          have hany := List.all_eq_true.mp (hrefs r hnew) ref href
          obtain ⟨q, hq, hkey⟩ := List.any_eq_true.mp hany
          obtain ⟨q', hq', hmoves⟩ := hleads.kept ref.1 q hq
          exact ⟨q', hq', (hkeys _ _ _ hmoves).1.trans (beq_iff_eq.mp hkey)⟩
      · rw [Database.set_of_ne _ hu] at hr
        exact hleads.referenced hkeys hs hr (V.refl u r)
  | @updated t condition assign =>
      intro u r' hr'
      by_cases hu : u = t
      · subst hu
        rw [Database.set_self] at hr'
        rcases mem_assignWhere.mp hr' with ⟨r, hr, hcondition, rfl⟩ | ⟨hr, -⟩
        · exact hleads.referenced hkeys hs hr (hst r hcondition)
        · exact hleads.referenced hkeys hs hr (V.refl u r')
      · rw [Database.set_of_ne _ hu] at hr'
        exact hleads.referenced hkeys hs hr' (V.refl u r')

/-- Nobody sees a reference without its row. -/
structure Rooted (S : Schema Row Key) (s : Versions ι Row) : Prop where
  committed : Referenced S (committedRows s)
  view : ∀ i, Referenced S (view i s)

omit [DecidableEq Table] [DecidableEq Key] in
theorem rooted_untouched {db : Database Row} (h : Referenced S db) :
    Rooted S (untouched db : Versions ι Row) where
  committed := by rwa [committedRows_untouched]
  view i := by
    have hview : RowVersions.view i (untouched db : Versions ι Row) = db := by
      funext t
      rw [view_of_written_nil (congrFun (atRest_untouched db) t), committedRows_untouched]
    rwa [hview]

theorem Rooted.perform {op : SessionOp Row} {a : op.Answer} (h : Rooted S s)
    (hholds : (V.versions ι).Holds s) (hkeys : V.KeepsKeys S) (hst : AllowsOp V op)
    (hop : perform S i op s = some (a, s')) : Rooted S s' := by
  have hholds' : (V.versions ι).Holds s' :=
    perform_holds hholds (fun st hst' => versions_permits hholds (hst st hst')) hop
  have hleads := perform_leads hholds hop
  cases op with
  | statement st =>
      have hshown := execute_shown hop
      refine ⟨?_, fun j => ?_⟩
      · rw [execute_committed hop]
        exact h.committed
      · by_cases hj : j = i
        · subst hj
          exact hshown.referenced (hst st rfl) hkeys (h.view j)
        · rw [execute_view hop hj]
          exact h.view j
  | commit =>
      obtain ⟨-, rfl⟩ := Prod.mk.inj (Option.some.inj hop)
      have hcommitted : Referenced S (committedRows (RowVersions.commit i s)) := by
        rw [committedRows_commit]
        exact h.view i
      refine ⟨hcommitted, fun j t r hr => ?_⟩
      rcases mem_view hr with hwritten | hr'
      · -- what the session has written refers to what it saw before the commit
        have hj : j ≠ i := by
          rintro rfl
          rw [written_commit_self] at hwritten
          cases hwritten
        rw [written_commit hj] at hwritten
        intro ref href
        obtain ⟨q, hq, hkey⟩ := h.view j t r (mem_written_view hwritten) ref href
        rcases mem_view hq with hq | hq
        · refine ⟨q, mem_written_view ?_, hkey⟩
          rw [written_commit hj]
          exact hq
        · obtain ⟨q', hq', hmoves⟩ := (hleads.trans (versions_view hholds' j)).kept _ q hq
          exact ⟨q', hq', (hkeys _ _ _ hmoves).1.trans hkey⟩
      · exact (versions_view hholds' j).referenced hkeys hcommitted hr' (V.refl t r)
  | rollback =>
      obtain ⟨-, rfl⟩ := Prod.mk.inj (Option.some.inj hop)
      have hcommitted : Referenced S (committedRows (RowVersions.rollback i s)) := by
        rw [committedRows_rollback]
        exact h.committed
      refine ⟨hcommitted, fun j => ?_⟩
      by_cases hj : j = i
      · subst hj
        have hview : RowVersions.view j (RowVersions.rollback j s) =
            committedRows (RowVersions.rollback j s) :=
          funext fun t => view_of_written_nil (congrFun written_rollback_self t)
        rw [hview]
        exact hcommitted
      · rw [view_rollback hj]
        exact h.view j

/-! ### Whole runs -/

omit [DecidableEq Table] in
theorem session_issues {p : Transaction Row E A} (h : p.Issues V.Allows) :
    (session p).Issues (AllowsOp V) := by
  induction p with
  | done a => exact ⟨fun st hst => (by cases hst), fun _ => trivial⟩
  | raise e => exact ⟨fun st hst => (by cases hst), fun _ => trivial⟩
  | call st next ih =>
      obtain ⟨hst, hnext⟩ := h
      refine ⟨fun st' hst' => ?_, fun r => ih r (hnext r)⟩
      cases hst'
      exact hst

variable {txns : ι → Transaction Row E A} {db : Database Row}
variable {c d : Config ι (SessionOp Row) SessionOp.Answer E A (Versions ι Row)}

/-- What every operation within the evolution does, a run does. -/
theorem runs_rel (htxns : ∀ i, (txns i).Issues V.Allows)
    (rel : Versions ι Row → Versions ι Row → Prop) (hrefl : ∀ s, rel s s)
    (htrans : ∀ s t u, rel s t → rel t u → rel s u)
    (hstep : ∀ i (op : SessionOp Row) (a : op.Answer) s s', AllowsOp V op →
      perform S i op s = some (a, s') → rel s s') {s : Versions ι Row}
    (h : Runs (system S txns) (.initial s) c) (h' : Runs (system S txns) c d) :
    rel c.state d.state := by
  have hadmits : ∀ l s i p, (system S txns).admits l s i p → p.Issues (AllowsOp V) := by
    rintro l s i p ⟨rfl, -⟩
    exact session_issues (htxns i)
  refine Runs.issued_rel hadmits rel hrefl htrans ?_ ?_ ?_ h h'
  · exact fun l s i op a s' hop he => hstep i op a s s' hop he
  · exact fun _ _ _ hdrift => False.elim hdrift
  · exact fun _ _ _ _ hdies => False.elim hdies

theorem runs_holds (htxns : ∀ i, (txns i).Issues V.Allows)
    (h : Runs (system S txns) (.initial (untouched db)) c) : (V.versions ι).Holds c.state :=
  runs_rel htxns (fun s s' => (V.versions ι).Holds s → (V.versions ι).Holds s') (fun _ => id)
    (fun _ _ _ hst htu hs => htu (hst hs))
    (fun _ _ _ _ _ hop he hs => perform_holds hs (fun st hst => versions_permits hs (hop st hst)) he)
    .refl h (versions_untouched db)

/-- What was committed leads on to what is committed later. -/
theorem runs_leads (htxns : ∀ i, (txns i).Issues V.Allows)
    (h : Runs (system S txns) (.initial (untouched db)) c) (h' : Runs (system S txns) c d) :
    V.Leads (committedRows c.state) (committedRows d.state) := by
  refine (runs_rel htxns (fun s s' => (V.versions ι).Holds s → (V.versions ι).Holds s' ∧
    V.Leads (committedRows s) (committedRows s')) (fun s hs => ⟨hs, .refl V _⟩)
    (fun s t u hst htu hs => ?_) (fun i op a s s' hop he hs => ⟨?_, perform_leads hs he⟩) h h'
    (runs_holds htxns h)).2
  · obtain ⟨ht, hleads⟩ := hst hs
    obtain ⟨hu, hleads'⟩ := htu ht
    exact ⟨hu, hleads.trans hleads'⟩
  · exact perform_holds hs (fun st hst => versions_permits hs (hop st hst)) he

/-- No reference is ever left without its row. -/
theorem runs_rooted (htxns : ∀ i, (txns i).Issues V.Allows) (hkeys : V.KeepsKeys S)
    (hdb : Referenced S db) (h : Runs (system S txns) (.initial (untouched db)) c) :
    Rooted S c.state := by
  refine (runs_rel htxns (fun s s' => (V.versions ι).Holds s ∧ Rooted S s →
    (V.versions ι).Holds s' ∧ Rooted S s') (fun _ => id)
    (fun _ _ _ hst htu hs => htu (hst hs)) (fun i op a s s' hop he hs => ⟨?_, ?_⟩) .refl h
    ⟨versions_untouched db, rooted_untouched hdb⟩).2
  · exact perform_holds hs.1 (fun st hst => versions_permits hs.1 (hop st hst)) he
  · exact hs.2.perform hs.1 hkeys hop he

end

end Evolution
end
end StarkbankTrial.RowHistories
