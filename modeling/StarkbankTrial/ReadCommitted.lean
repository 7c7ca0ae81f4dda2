import StarkbankTrial.InterleavedRuns
import StarkbankTrial.RowVersions

/-!
# Concurrent transactions under READ COMMITTED

Every session runs one transaction, statement by statement, and then commits, or rolls back
where the transaction raises. The sessions take their steps in any order; a statement that
must wait has no step until it need not wait any more.
-/
namespace StarkbankTrial.ReadCommitted
open InteractivePrograms InterleavedRuns RelationalTables RowVersions

inductive SessionOp {Table : Type} (Row : Table → Type) : Type where
  | statement (st : Statement Row)
  | commit
  | rollback

abbrev SessionOp.Answer {Table : Type} {Row : Table → Type} : SessionOp Row → Type
  | .statement st => st.Answer
  | .commit => Unit
  | .rollback => Unit

section
variable {Table : Type} {Row : Table → Type} {Key ι E A B : Type}

/-- A program of a session. -/
abbrev Session (Row : Table → Type) (E A : Type) : Type :=
  Program (SessionOp Row) SessionOp.Answer E A

/-- The statements of a transaction. -/
def statements : Transaction Row E A → Session Row E A
  | .done a => .done a
  | .raise e => .raise e
  | .call st next => .call (.statement st) fun r => statements (next r)

/-- `with engine.begin()`: the statements, and the commit or the rollback. -/
def session : Transaction Row E A → Session Row E A
  | .done a => .call .commit fun _ => .done a
  | .raise e => .call .rollback fun _ => .raise e
  | .call st next => .call (.statement st) fun r => session (next r)

@[simp] theorem statements_bind (p : Transaction Row E A) (f : A → Transaction Row E B) :
    statements (p >>= f) = statements p >>= fun a => statements (f a) := by
  induction p with
  | done a => rfl
  | raise e => rfl
  | call st next ih => exact congrArg (Program.call (SessionOp.statement st)) (funext ih)

variable [DecidableEq ι] [DecidableEq Table] [DecidableEq Key]

/-- One step of a session, when it does not have to wait. -/
def perform (S : Schema Row Key) (i : ι) :
    (op : SessionOp Row) → Versions ι Row → Option (op.Answer × Versions ι Row)
  | .statement st, s => execute S i st s
  | .commit, s => some ((), commit i s)
  | .rollback, s => some ((), rollback i s)

/-- Each session runs its transaction once. -/
def system (S : Schema Row Key) (txns : ι → Transaction Row E A) :
    System ι (SessionOp Row) SessionOp.Answer E A (Versions ι Row) where
  admits l _ i p := p = session (txns i) ∧ ∀ e ∈ l, e.process ≠ i
  exec _ s i op r t := perform S i op s = some (r, t)
  drift _ _ _ := False
  dies _ _ _ _ := False

/-- The runs whose steps all meet a condition on the log and the state before them. -/
def restricted (sys : System ι (SessionOp Row) SessionOp.Answer E A (Versions ι Row))
    (meets : Log ι (SessionOp Row) SessionOp.Answer → ι → SessionOp Row → Versions ι Row → Prop) :
    System ι (SessionOp Row) SessionOp.Answer E A (Versions ι Row) where
  admits := sys.admits
  exec l s i op r t := sys.exec l s i op r t ∧ meets l i op s
  drift := sys.drift
  dies := sys.dies

omit [DecidableEq Table] in
theorem runs_of_restricted
    {sys : System ι (SessionOp Row) SessionOp.Answer E A (Versions ι Row)}
    {meets : Log ι (SessionOp Row) SessionOp.Answer → ι → SessionOp Row → Versions ι Row → Prop}
    {c d : Config ι (SessionOp Row) SessionOp.Answer E A (Versions ι Row)}
    (h : Runs (restricted sys meets) c d) : Runs sys c d := by
  refine Runs.mono ?_ ?_ ?_ ?_ h
  · exact fun _ _ _ _ hadmits => hadmits
  · exact fun _ _ _ _ _ _ hexec => hexec.1
  · exact fun _ _ _ hdrift => hdrift
  · exact fun _ _ _ _ hdies => hdies

omit [DecidableEq Table] in
/-- Without a condition all runs are left. -/
theorem runs_restricted_true
    {sys : System ι (SessionOp Row) SessionOp.Answer E A (Versions ι Row)}
    {c d : Config ι (SessionOp Row) SessionOp.Answer E A (Versions ι Row)} (h : Runs sys c d) :
    Runs (restricted sys fun _ _ _ _ => True) c d := by
  refine Runs.mono ?_ ?_ ?_ ?_ h
  · exact fun _ _ _ _ hadmits => hadmits
  · exact fun _ _ _ _ _ _ hexec => ⟨hexec, trivial⟩
  · exact fun _ _ _ hdrift => hdrift
  · exact fun _ _ _ _ hdies => hdies

/-! ### Proofs about sessions -/

/-- A statement about what has been performed and the state after it. -/
abbrev Fact (ι : Type) {Table : Type} (Row : Table → Type) : Type :=
  Log ι (SessionOp Row) SessionOp.Answer → Versions ι Row → Prop

/-- A step of some other session, from and into a state with the invariant. -/
structure OtherStep (S : Schema Row Key) (inv : Fact ι Row) (i : ι)
    (c c' : Log ι (SessionOp Row) SessionOp.Answer × Versions ι Row) : Prop where
  before : inv c.1 c.2
  after : inv c'.1 c'.2
  step : ∃ j, j ≠ i ∧ ∃ (op : SessionOp Row) (r : op.Answer),
    perform S j op c.2 = some (r, c'.2) ∧ c'.1 = ⟨j, op, r⟩ :: c.1

/-- The protocol of an invariant: a session counts on nothing but that the steps of the
others keep it. -/
def protocol (S : Schema Row Key) (txns : ι → Transaction Row E A)
    (meets : Log ι (SessionOp Row) SessionOp.Answer → ι → SessionOp Row → Versions ι Row → Prop)
    (inv : Fact ι Row) (demand : ι → SessionOp Row → Fact ι Row) :
    Protocol ι (SessionOp Row) SessionOp.Answer E A (Versions ι Row) where
  toSystem := restricted (system S txns) meets
  inv := inv
  rely i l s l' s' := Relation.ReflTransGen (OtherStep S inv i) (l, s) (l', s')
  demand := demand

section
variable {S : Schema Row Key} {txns : ι → Transaction Row E A}
variable {meets : Log ι (SessionOp Row) SessionOp.Answer → ι → SessionOp Row → Versions ι Row → Prop}
variable {inv : Fact ι Row} {demand : ι → SessionOp Row → Fact ι Row} {i : ι}
variable {l l' : Log ι (SessionOp Row) SessionOp.Answer} {s s' : Versions ι Row}

theorem protocol_sound : (protocol S txns meets inv demand).Sound where
  rely_refl _ _ _ := .refl
  rely_trans _ _ _ _ _ _ _ h h' := h.trans h'
  drift_keeps _ _ _ _ h := h.elim
  dies_keeps _ _ _ _ _ h := h.elim

/-! ### Facts that the others leave alone -/

def Persists (S : Schema Row Key) (inv : Fact ι Row) (i : ι) (fact : Fact ι Row) : Prop :=
  ∀ l s l' s', fact l s → OtherStep S inv i (l, s) (l', s') → fact l' s'

theorem Persists.stable {fact : Fact ι Row} (h : Persists S inv i fact) :
    (protocol S txns meets inv demand).Stable i fact := by
  have hmany : ∀ c c', Relation.ReflTransGen (OtherStep S inv i) c c' → fact c.1 c.2 →
      fact c'.1 c'.2 := by
    intro c c' hrely hfact
    induction hrely with
    | refl => exact hfact
    | tail _ hstep ih => exact h _ _ _ _ ih hstep
  exact fun l s l' s' hfact hrely _ => hmany (l, s) (l', s') hrely hfact

theorem Persists.and {fact fact' : Fact ι Row} (h : Persists S inv i fact)
    (h' : Persists S inv i fact') : Persists S inv i fun l s => fact l s ∧ fact' l s :=
  fun l s l' s' hf hstep => ⟨h l s l' s' hf.1 hstep, h' l s l' s' hf.2 hstep⟩

theorem Persists.imp {c : Prop} {fact : Fact ι Row} (h : c → Persists S inv i fact) :
    Persists S inv i fun l s => c → fact l s :=
  fun l s l' s' hf hstep hc => h hc l s l' s' (hf hc) hstep

theorem persists_const {c : Prop} : Persists S inv i fun _ _ => c := fun _ _ _ _ hc _ => hc

/-- What a session has written is its own matter. -/
theorem perform_written {op : SessionOp Row} {r : op.Answer} {j : ι}
    (h : perform S j op s = some (r, s')) (hj : j ≠ i) : written i s' = written i s := by
  cases op with
  | statement st => exact execute_written h hj.symm
  | commit =>
      obtain ⟨-, rfl⟩ := Prod.mk.inj (Option.some.inj h)
      exact written_commit hj.symm
  | rollback =>
      obtain ⟨-, rfl⟩ := Prod.mk.inj (Option.some.inj h)
      exact written_rollback hj.symm

theorem OtherStep.written_eq (h : OtherStep S inv i (l, s) (l', s')) :
    written i s' = written i s := by
  obtain ⟨j, hj, op, r, hop, -⟩ := h.step
  exact perform_written hop hj

/-! ### What a step shows and keeps -/

section
variable {t : Table} {row : Row t} {op : SessionOp Row} {r : op.Answer} {j : ι}

theorem perform_coherent (hs : Coherent S s) (h : perform S i op s = some (r, s')) :
    Coherent S s' := by
  cases op with
  | statement st => exact hs.execute h
  | commit =>
      obtain ⟨-, rfl⟩ := Prod.mk.inj (Option.some.inj h)
      exact hs.commit
  | rollback =>
      obtain ⟨-, rfl⟩ := Prod.mk.inj (Option.some.inj h)
      exact hs.rollback

/-- An invariant of single rows is a matter of the statements alone. -/
theorem perform_holds {R : RowInvariant ι Row} (hs : R.Holds s)
    (hop : ∀ st, op = .statement st → R.Permits i s st) (h : perform S i op s = some (r, s')) :
    R.Holds s' := by
  cases op with
  | statement st => exact hs.execute (hop st rfl) h
  | commit =>
      obtain ⟨-, rfl⟩ := Prod.mk.inj (Option.some.inj h)
      exact hs.commit
  | rollback =>
      obtain ⟨-, rfl⟩ := Prod.mk.inj (Option.some.inj h)
      exact hs.rollback

theorem perform_mem_view (h : perform S j op s = some (r, s')) (hj : j ≠ i)
    (hrow : row ∈ view i s t) (hlast : ∀ c ∈ s t, c.committed = some row → c.pending = none) :
    row ∈ view i s' t := by
  cases op with
  | statement st =>
      rw [execute_view h hj.symm]
      exact hrow
  | commit =>
      obtain ⟨-, rfl⟩ := Prod.mk.inj (Option.some.inj h)
      exact mem_view_commit hj.symm hrow hlast
  | rollback =>
      obtain ⟨-, rfl⟩ := Prod.mk.inj (Option.some.inj h)
      rw [view_rollback hj.symm]
      exact hrow

theorem perform_mem_committed (h : perform S j op s = some (r, s'))
    (hrow : row ∈ committedRows s t)
    (hlast : ∀ c ∈ s t, c.committed = some row → c.pending = none) :
    row ∈ committedRows s' t := by
  cases op with
  | statement st =>
      rw [execute_committed h]
      exact hrow
  | commit =>
      obtain ⟨-, rfl⟩ := Prod.mk.inj (Option.some.inj h)
      rw [committedRows_commit]
      exact mem_view_of_committed hrow hlast
  | rollback =>
      obtain ⟨-, rfl⟩ := Prod.mk.inj (Option.some.inj h)
      rw [committedRows_rollback]
      exact hrow

/-- A session that holds rows has not just ended. -/
theorem perform_committed_eq (h : perform S i op s = some (r, s')) (hrow : row ∈ written i s' t) :
    committedRows s' = committedRows s := by
  cases op with
  | statement st => exact execute_committed h
  | commit =>
      obtain ⟨-, rfl⟩ := Prod.mk.inj (Option.some.inj h)
      rw [written_commit_self] at hrow
      cases hrow
  | rollback =>
      obtain ⟨-, rfl⟩ := Prod.mk.inj (Option.some.inj h)
      exact committedRows_rollback

/-- A row comes to be committed only by the commit of the session that wrote it. -/
theorem perform_of_committed (h : perform S j op s = some (r, s'))
    (hrow : row ∈ committedRows s' t) :
    row ∈ committedRows s t ∨ op = .commit ∧ row ∈ written j s t := by
  cases op with
  | statement st =>
      rw [execute_committed h] at hrow
      exact .inl hrow
  | commit =>
      obtain ⟨-, rfl⟩ := Prod.mk.inj (Option.some.inj h)
      rw [committedRows_commit] at hrow
      exact (mem_view hrow).symm.imp id fun hwritten => ⟨rfl, hwritten⟩
  | rollback =>
      obtain ⟨-, rfl⟩ := Prod.mk.inj (Option.some.inj h)
      rw [committedRows_rollback] at hrow
      exact .inl hrow

end

/-! ### Rules -/

/-- One step of a session, entered with a fact that the others leave alone. -/
theorem triple {op : SessionOp Row} {fact : Fact ι Row} {result : op.Answer → Fact ι Row}
    (hpersists : Persists S inv i fact) (hdemand : ∀ l s, inv l s → fact l s → demand i op l s)
    (hstep : ∀ l s r s', inv l s → fact l s → meets l i op s → perform S i op s = some (r, s') →
      inv (⟨i, op, r⟩ :: l) s' ∧ result r (⟨i, op, r⟩ :: l) s') :
    (protocol S txns meets inv demand).Triple i fact op result where
  stable := hpersists.stable
  demand l s hfact hinv := hdemand l s hinv hfact
  keeps l s r t hfact hinv h := by
    obtain ⟨hop, hmeets⟩ := h
    have hinv' := (hstep l s r t hinv hfact hmeets hop).1
    exact ⟨hinv', fun j hj => .single ⟨hinv, hinv', i, hj.symm, op, r, hop, rfl⟩⟩
  result l s r t hfact hinv h := (hstep l s r t hinv hfact h.2 h.1).2

/-- After its statements a session commits, or rolls back where they raise. -/
theorem session_ensures {p : Transaction Row E A}
    {fact : A → Fact ι Row} {fails : Fact ι Row} {post : Except E A → Fact ι Row}
    (hcommit : ∀ a, (protocol S txns meets inv demand).Triple i (fact a) .commit
      fun _ => post (.ok a))
    (hrollback : (protocol S txns meets inv demand).Triple i fails .rollback
      fun _ l s => ∀ e, post (.error e) l s)
    (hpost : ∀ o, Persists S inv i (post o))
    (h : Ensures (protocol S txns meets inv demand) i (statements p) (Ends fact fails) l s) :
    Ensures (protocol S txns meets inv demand) i (session p) post l s := by
  induction p generalizing l s with
  | done a =>
      refine Ensures.of_future protocol_sound fun l' s' hrely hinv => ?_
      exact .call (h l' s' hrely hinv) (hcommit a) fun _ l s hpost' =>
        .done fun l' s' => (hpost (.ok a)).stable l s l' s' hpost'
  | raise e =>
      refine Ensures.of_future protocol_sound fun l' s' hrely hinv => ?_
      exact .call (h l' s' hrely hinv) hrollback fun _ l s hpost' l' s' =>
        (hpost (.error e)).stable l s l' s' (hpost' e)
  | call st next ih =>
      intro l' s' hrely hinv
      obtain ⟨hdemand, hstep⟩ := h l' s' hrely hinv
      refine ⟨hdemand, fun r t he => ?_⟩
      obtain ⟨hinv', hothers, hnext⟩ := hstep r t he
      exact ⟨hinv', hothers, ih r hnext⟩

/-- A session at rest has written nothing. -/
abbrev AtRest (i : ι) (s : Versions ι Row) : Prop := written i s = fun _ => []

omit [DecidableEq Table] in
theorem atRest_untouched (db : Database Row) : AtRest i (untouched db) := by
  funext t
  refine List.filterMap_eq_nil_iff.mpr fun c hc => ?_
  obtain ⟨r, -, rfl⟩ := List.mem_map.mp hc
  rfl

/-- The steps that end a session. -/
abbrev SessionOp.Ends (op : SessionOp Row) : Prop := op = .commit ∨ op = .rollback

omit [DecidableEq Table] in
theorem SessionOp.Ends.ne_statement {op : SessionOp Row} (h : op.Ends) (st : Statement Row) :
    op ≠ .statement st := by
  rintro rfl
  rcases h with h | h <;> cases h

theorem perform_ends {op : SessionOp Row} {r : op.Answer} (hop : op.Ends)
    (h : perform S i op s = some (r, s')) : AtRest i s' := by
  rcases hop with rfl | rfl
  · obtain ⟨-, rfl⟩ := Prod.mk.inj (Option.some.inj h)
    exact written_commit_self
  · obtain ⟨-, rfl⟩ := Prod.mk.inj (Option.some.inj h)
    exact written_rollback_self

theorem persists_atRest : Persists S inv i fun _ s => AtRest i s :=
  fun _ _ _ _ hrest hstep => hstep.written_eq.trans hrest

theorem kept {post : ι → Except E A → Fact ι Row} (hends : ∀ i o l s, post i o l s → AtRest i s)
    (hbegins : ∀ i l s, inv l s → AtRest i s → (∀ e ∈ l, e.process ≠ i) →
      Ensures (protocol S txns meets inv demand) i (session (txns i)) (post i) l s) :
    (protocol S txns meets inv demand).Kept (fun i _ s => AtRest i s) post where
  toSound := protocol_sound
  rest_stable _ := persists_atRest.stable
  dies_rest _ _ _ _ _ h := h.elim
  ends_rest := hends
  begins l s i p hinv hrest hadmits := by
    obtain ⟨rfl, hnew⟩ := hadmits
    exact hbegins i l s hinv hrest hnew

end

/-! ### Playing a schedule -/

/-- All sessions begin, then they take their steps in the given order. -/
def inOrder {n : ℕ} (txns : Fin n → Transaction Row E A) (order : List (Fin n)) :
    List (Move (Fin n) (SessionOp Row) SessionOp.Answer E A (Versions (Fin n) Row) Unit) :=
  (List.finRange n).map (fun i => .begin i (session (txns i)) fun l _ =>
    l.all fun e => decide (e.process ≠ i)) ++ order.map fun i => .call i ()

/-- The step of a session, where it meets the condition. -/
def performIf (S : Schema Row Key)
    (meets : Log ι (SessionOp Row) SessionOp.Answer → ι → SessionOp Row → Versions ι Row → Prop)
    [∀ l i op s, Decidable (meets l i op s)] (l : Log ι (SessionOp Row) SessionOp.Answer)
    (s : Versions ι Row) (i : ι) (op : SessionOp Row) (_ : Unit) :
    Option (op.Answer × Versions ι Row) :=
  if meets l i op s then perform S i op s else none

theorem inOrder_runs {n : ℕ} {S : Schema Row Key} {txns : Fin n → Transaction Row E A}
    {meets : Log (Fin n) (SessionOp Row) SessionOp.Answer → Fin n → SessionOp Row →
      Versions (Fin n) Row → Prop} [∀ l i op s, Decidable (meets l i op s)]
    {order : List (Fin n)} {s : Versions (Fin n) Row}
    {c : Config (Fin n) (SessionOp Row) SessionOp.Answer E A (Versions (Fin n) Row)}
    (h : playAll (performIf S meets) (.initial s) (inOrder txns order) = some c) :
    Runs (restricted (system S txns) meets) (.initial s) c := by
  refine playAll_runs (fun l s i op choice r hr => ?_) (fun m hm => ?_) h
  · unfold performIf at hr
    split_ifs at hr with hmeets
    exact ⟨hr, hmeets⟩
  · rcases List.mem_append.mp hm with hm | hm
    · obtain ⟨i, -, rfl⟩ := List.mem_map.mp hm
      exact fun l s hnew => ⟨rfl, by simpa using hnew⟩
    · obtain ⟨i, -, rfl⟩ := List.mem_map.mp hm
      trivial

/-- Sessions that have begun take further steps. -/
theorem continued_runs {txns : ι → Transaction Row E A}
    {meets : Log ι (SessionOp Row) SessionOp.Answer → ι → SessionOp Row → Versions ι Row → Prop}
    [∀ l i op s, Decidable (meets l i op s)] {S : Schema Row Key} {order : List ι}
    {c d : Config ι (SessionOp Row) SessionOp.Answer E A (Versions ι Row)}
    (h : playAll (performIf S meets) c (order.map fun i => .call i ()) = some d) :
    Runs (restricted (system S txns) meets) c d := by
  refine playAll_runs (fun l s i op choice r hr => ?_) (fun m hm => ?_) h
  · unfold performIf at hr
    split_ifs at hr with hmeets
    exact ⟨hr, hmeets⟩
  · obtain ⟨i, -, rfl⟩ := List.mem_map.mp hm
    trivial

omit [DecidableEq ι] in
/-- What a session that has committed returned. -/
def returned (c : Config ι (SessionOp Row) SessionOp.Answer E A (Versions ι Row)) (i : ι) :
    Option A :=
  match c.procs i with
  | some (.done a) => some a
  | _ => none

omit [DecidableEq ι] [DecidableEq Table] in
theorem returned_eq_some
    {c : Config ι (SessionOp Row) SessionOp.Answer E A (Versions ι Row)} {i : ι} {a : A}
    (h : returned c i = some a) : c.procs i = some (.done a) := by
  unfold returned at h
  split at h
  · next heq => rw [heq, Option.some.inj h]
  · cases h

end
end StarkbankTrial.ReadCommitted
