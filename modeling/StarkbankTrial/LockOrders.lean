import StarkbankTrial.InvoiceRecording
import StarkbankTrial.RecordOutline
import Mathlib.Data.Fintype.Basic

/-!
# The orders in which draft and owner are locked

A result of a provider call locks the draft first and its owner second; the recording of a
credited event that binds an unbound owner locks the owner first and its draft second. When
both are in the middle of this for one draft, each waits for the other. As long as neither
begins while the other is in the middle, no two transactions ever wait for each other.
-/
namespace StarkbankTrial.LockOrders
open Domain InteractivePrograms InterleavedRuns RelationalTables RowVersions ReadCommitted
open DatabaseSchema EventRecording InvoiceRecording RecordOutline
open DatabaseSchema.Table

/-- The transactions that write drafts and owners. -/
inductive Writer where
  | record (delivery : Delivery)
  | created (result : DraftCreated)
  | unknownResult (result : DraftFailure)
  | failed (result : DraftFailure)
  | retry (result : DraftFailure) (delay : ℤ) (maxAttempts : ℕ)
  | reconcile (result : InvoiceReconciliation) (limits : ReconcileLimits)
  | bindProviderInvoice (tag : String) (providerInvoiceId : InvoiceId) (atTime : ℤ)

namespace Writer

def txn : Writer → Txn Unit
  | .record d => d.txn.discard
  | .created result => InvoiceRecording.created result
  | .unknownResult result => InvoiceRecording.unknownResult result
  | .failed result => InvoiceRecording.failed result
  | .retry result delay maxAttempts => (InvoiceRecording.retry result delay maxAttempts).discard
  | .reconcile result limits => InvoiceRecording.reconcile result limits
  | .bindProviderInvoice tag providerInvoiceId atTime =>
      InvoiceRecording.bindProviderInvoice tag providerInvoiceId atTime

/-- The delivery, if it is a recording. -/
def delivery : Writer → Option Delivery
  | .record d => some d
  | _ => none

/-- What it does to draft and owner, if it locks both in this order. -/
def draftTransition : Writer → Option DraftTransition
  | .created result => some (.created result)
  | .unknownResult result => some (.unknownResult result)
  | .failed result => some (.failed result)
  | .reconcile result _ => result.providerInvoice.map fun invoice =>
      .created ⟨result.draft.id, invoice.id, result.atTime⟩
  | _ => none

theorem exclusive {w : Writer} {d : Delivery} {t : DraftTransition} (h : w.delivery = some d) :
    w.draftTransition ≠ some t := by
  cases w <;> simp_all [delivery, draftTransition]

end Writer

section
variable {ι : Type} [DecidableEq ι]

abbrev writing (writers : ι → Writer) :
    System ι (SessionOp Row) SessionOp.Answer StoreError Unit (Versions ι Row) :=
  system metadata fun i => (writers i).txn

/-! ### Waiting -/

/-- The statement of the session matches a draft or an owner that the other one has locked. -/
def blockedBy (i j : ι) (s : Versions ι Row) : SessionOp Row → Bool
  | .statement (.update t condition _) => (t == invoiceDrafts || t == ownedInvoices) &&
      (s t).any fun c => (c.own j).isSome && (c.visible i).any condition
  | _ => false

def nextOp (c : Config ι (SessionOp Row) SessionOp.Answer StoreError Unit (Versions ι Row))
    (i : ι) : Option (SessionOp Row) :=
  match c.procs i with
  | some (.call op _) => some op
  | _ => none

omit [DecidableEq ι] in
theorem nextOp_eq_some
    {c : Config ι (SessionOp Row) SessionOp.Answer StoreError Unit (Versions ι Row)} {i : ι}
    {op : SessionOp Row} (h : op ∈ nextOp c i) : ∃ next, c.procs i = some (.call op next) := by
  unfold nextOp at h
  split at h
  · next op' next heq =>
    obtain rfl := Option.some.inj h
    exact ⟨next, heq⟩
  · cases h

def WaitsFor (c : Config ι (SessionOp Row) SessionOp.Answer StoreError Unit (Versions ι Row))
    (i j : ι) : Prop :=
  j ≠ i ∧ (nextOp c i).any (blockedBy i j c.state) = true

instance (c : Config ι (SessionOp Row) SessionOp.Answer StoreError Unit (Versions ι Row))
    (i j : ι) : Decidable (WaitsFor c i j) := inferInstanceAs (Decidable (_ ∧ _))

/-! ### The condition -/

def updates (t : Table) : SessionOp Row → Bool
  | .statement (.update u _ _) => u == t
  | _ => false

/-- The recording will wait for the draft, if another session has locked it. -/
def Unfilled (d : Delivery) (draftId : DraftId) (s : Versions ι Row) : Prop :=
  ∃ r ∈ committedRows s invoiceDrafts, r.id = draftId ∧
    (r.providerInvoiceId = none ∨ r.providerInvoiceId = some d.event.invoiceId)

/-- A recording has bound the owner of the draft and has not come to the draft yet. -/
def AwaitsDraft (writers : ι → Writer) (l : Log ι (SessionOp Row) SessionOp.Answer)
    (s : Versions ι Row) (i : ι) (draftId : DraftId) : Prop :=
  (∃ d ∈ (writers i).delivery, Unfilled d draftId s) ∧
    (∃ o ∈ written i s ownedInvoices, o.draftId = some draftId) ∧
      ∀ e ∈ l, e.process = i → updates invoiceDrafts e.op = false

/-- A result of a provider call has locked the draft. -/
def HoldsDraft (writers : ι → Writer) (s : Versions ι Row) (j : ι) (draftId : DraftId) : Prop :=
  (∃ t ∈ (writers j).draftTransition, t.draftId = draftId) ∧
    ∃ r ∈ written j s invoiceDrafts, r.id = draftId

/-- A result locks no draft whose owner a recording has just bound, and a recording binds
no owner whose draft the result of a provider call has locked. -/
def InOrder (writers : ι → Writer) (l : Log ι (SessionOp Row) SessionOp.Answer) (i : ι)
    (op : SessionOp Row) (s : Versions ι Row) : Prop :=
  (updates invoiceDrafts op = true → ∀ t ∈ (writers i).draftTransition,
    ∀ j, ¬ AwaitsDraft writers l s j t.draftId) ∧
  (updates ownedInvoices op = true → ∀ d ∈ (writers i).delivery,
    ∀ o ∈ view i s ownedInvoices, o.tag ∈ d.event.tags → o.providerInvoiceId = none →
      ∀ draftId ∈ o.draftId, Unfilled d draftId s → ∀ j, ¬ HoldsDraft writers s j draftId)

section
variable (writers : ι → Writer) (l : Log ι (SessionOp Row) SessionOp.Answer) (i : ι)
variable (op : SessionOp Row) (s : Versions ι Row) (draftId : DraftId)

instance (d : Delivery) : Decidable (Unfilled d draftId s) :=
  inferInstanceAs (Decidable (∃ _ ∈ _, _))

instance : Decidable (AwaitsDraft writers l s i draftId) :=
  inferInstanceAs (Decidable (_ ∧ _ ∧ _))

instance : Decidable (HoldsDraft writers s i draftId) := inferInstanceAs (Decidable (_ ∧ _))

instance [Fintype ι] : Decidable (InOrder writers l i op s) :=
  inferInstanceAs (Decidable (_ ∧ _))

end

/-! ### The invariant -/

/-- Owners keep their tags and drafts. -/
def ownerRows (db : Database Row) : RowInvariant ι Row where
  version
    | .ownedInvoices, v => ∃ o ∈ db ownedInvoices, o.tag = v.tag ∧ o.draftId = v.draftId
    | _, _ => True
  pending
    | .ownedInvoices, _, c, v => ∃ o : OwnedInvoiceRow, c = some o ∧ o.tag = v.tag ∧
        o.draftId = v.draftId
    | _, _, _, _ => True

structure Inv (writers : ι → Writer) (db : Database Row)
    (l : Log ι (SessionOp Row) SessionOp.Answer) (s : Versions ι Row) : Prop where
  coherent : Coherent metadata s
  rows : (ownerRows db).Holds s
  uncrossed : ∀ i j draftId, AwaitsDraft writers l s i draftId → ¬ HoldsDraft writers s j draftId

variable {writers : ι → Writer} {db : Database Row} {i j k : ι} {draftId : DraftId}
variable {l l' : Log ι (SessionOp Row) SessionOp.Answer} {s s' : Versions ι Row}

/-- While a draft is locked its committed version stays. -/
theorem unfilled_before (h : Inv writers db l s) {op : SessionOp Row} {r : op.Answer}
    (hop : perform metadata k op s = some (r, s')) {d : Delivery} (hk : j ≠ k)
    (hholds : HoldsDraft writers s j draftId) (hunfilled : Unfilled d draftId s') :
    Unfilled d draftId s := by
  obtain ⟨v, hv, hid, hmatch⟩ := hunfilled
  rcases perform_of_committed hop hv with hold | ⟨-, hwritten⟩
  · exact ⟨v, hold, hid, hmatch⟩
  · obtain ⟨-, u, hu, huid⟩ := hholds
    have hclash := h.coherent.written_apart hk hu hwritten
    rw [metadata.clash_of_key invoiceDrafts u v (huid.trans hid.symm)] at hclash
    cases hclash

theorem holdsDraft_before {op : SessionOp Row} {r : op.Answer}
    (hop : perform metadata k op s = some (r, s')) (hk : k ≠ j)
    (h : HoldsDraft writers s' j draftId) : HoldsDraft writers s j draftId := by
  unfold HoldsDraft at h ⊢
  rw [perform_written hop hk] at h
  exact h

/-- A step keeps the invariant when what it newly locks does not cross what others hold. -/
theorem Inv.perform (h : Inv writers db l s) {op : SessionOp Row} {r : op.Answer}
    (hop : perform metadata i op s = some (r, s'))
    (hpermits : ∀ st, op = .statement st → (ownerRows db).Permits i s st)
    (hbinds : ∀ draftId, AwaitsDraft writers (⟨i, op, r⟩ :: l) s' i draftId →
      AwaitsDraft writers l s i draftId ∨ ∀ j, ¬ HoldsDraft writers s j draftId)
    (hlocks : ∀ draftId, HoldsDraft writers s' i draftId →
      HoldsDraft writers s i draftId ∨ ∀ j, ¬ AwaitsDraft writers l s j draftId) :
    Inv writers db (⟨i, op, r⟩ :: l) s' where
  coherent := perform_coherent h.coherent hop
  rows := perform_holds h.rows hpermits hop
  uncrossed a b draftId hawaits hholds := by
    have hab : a ≠ b := by
      rintro rfl
      obtain ⟨⟨d, hd, -⟩, -⟩ := hawaits
      obtain ⟨⟨t, ht, -⟩, -⟩ := hholds
      exact Writer.exclusive hd ht
    by_cases hi : i = a
    · subst hi
      have hholds := holdsDraft_before hop hab hholds
      rcases hbinds draftId hawaits with hold | hnone
      · exact h.uncrossed i b draftId hold hholds
      · exact hnone b hholds
    · have hbefore : (∀ d, Unfilled d draftId s' → Unfilled d draftId s) →
          AwaitsDraft writers l s a draftId := by
        intro hunfilled
        obtain ⟨⟨d, hd, hmatch⟩, hbound, hlog⟩ := hawaits
        rw [perform_written hop hi] at hbound
        exact ⟨⟨d, hd, hunfilled d hmatch⟩, hbound, fun e he => hlog e (List.mem_cons_of_mem _ he)⟩
      by_cases hb : i = b
      · subst hb
        have hawaits := hbefore fun d hmatch => by
          obtain ⟨-, u, hu, -⟩ := hholds
          unfold Unfilled at hmatch ⊢
          rw [perform_committed_eq hop hu] at hmatch
          exact hmatch
        rcases hlocks draftId hholds with hold | hnone
        · exact h.uncrossed a i draftId hawaits hold
        · exact hnone a hawaits
      · have hholds := holdsDraft_before hop hb hholds
        exact h.uncrossed a b draftId
          (hbefore fun d => unfilled_before h hop (Ne.symm hb) hholds) hholds

/-! ### What is demanded of an update -/

/-- A session that updates drafts holds none yet. If it holds owners, it is a recording that
comes to the draft of its owner now. -/
def DraftDemand (writers : ι → Writer) (i : ι) (condition : InvoiceDraftRow → Bool) : Fact ι Row :=
  fun l s => written i s invoiceDrafts = [] ∧ ∀ o ∈ written i s ownedInvoices,
    (∀ e ∈ l, e.process = i → updates invoiceDrafts e.op = false) ∧
    ∃ d ∈ (writers i).delivery, ∃ draftId, o.draftId = some draftId ∧ ∀ r : InvoiceDraftRow,
      condition r = true → r.id = draftId ∧
        (r.providerInvoiceId = none ∨ r.providerInvoiceId = some d.event.invoiceId)

/-- A session that updates owners holds none yet. If it holds drafts, it is the result of a
provider call that comes to the owner of its draft now. -/
def OwnerDemand (writers : ι → Writer) (i : ι) (condition : OwnedInvoiceRow → Bool) : Fact ι Row :=
  fun _ s => written i s ownedInvoices = [] ∧ ∀ r ∈ written i s invoiceDrafts,
    ∃ t ∈ (writers i).draftTransition, r.id = t.draftId ∧ ∀ o : OwnedInvoiceRow,
      condition o = true → o.draftId = some t.draftId

def Demand (writers : ι → Writer) (i : ι) : SessionOp Row → Fact ι Row
  | .statement (.update .invoiceDrafts condition _) => DraftDemand writers i condition
  | .statement (.update .ownedInvoices condition _) => OwnerDemand writers i condition
  | _ => fun _ _ => True

theorem own_of_isSome {R : Type} {c : Slot ι R} (h : (c.own j).isSome = true) :
    ∃ q, c.pending = some (j, q) := by
  obtain ⟨q, hq⟩ := Option.isSome_iff_exists.mp h
  exact ⟨q, Slot.own_eq_some.mp hq⟩

/-- A recording that waits for a draft and a session that waits for one of its owners. -/
theorem crossed (h : Inv writers db l s) (hji : j ≠ i)
    {condition : InvoiceDraftRow → Bool} {condition' : OwnedInvoiceRow → Bool}
    (hdraft : DraftDemand writers i condition l s) (howner : OwnerDemand writers j condition' l s)
    {c : Slot ι InvoiceDraftRow} (hc : c ∈ s invoiceDrafts) {u v : InvoiceDraftRow}
    (hu : c.pending = some (j, u)) (hv : c.visible i = some v) (hcondition : condition v = true)
    {c' : Slot ι OwnedInvoiceRow} (hc' : c' ∈ s ownedInvoices) {o w : OwnedInvoiceRow}
    (ho : c'.pending = some (i, o)) (hw : c'.visible j = some w)
    (hcondition' : condition' w = true) : False := by
  have hmem : o ∈ written i s ownedInvoices :=
    List.mem_filterMap.mpr ⟨c', hc', Slot.own_eq_some.mpr ho⟩
  have hmem' : u ∈ written j s invoiceDrafts :=
    List.mem_filterMap.mpr ⟨c, hc, Slot.own_eq_some.mpr hu⟩
  obtain ⟨hlog, d, hd, draftId, hdraftId, hmatch⟩ := hdraft.2 o hmem
  obtain ⟨t, ht, hid, htarget⟩ := howner.2 u hmem'
  have hcommitted : ∀ {R : Type} {c : Slot ι R} {a b : ι} {q v : R}, c.pending = some (a, q) →
      c.visible b = some v → a ≠ b → c.committed = some v := by
    intro R c a b q v hpending hvisible hab
    rcases Slot.visible_eq_some.mp hvisible with hown | ⟨hcommitted, -⟩
    · exact absurd (Prod.mk.inj (Option.some.inj (hpending.symm.trans hown))).1 hab
    · exact hcommitted
  have hsame : o.draftId = w.draftId := by
    obtain ⟨w', hw', -, hsame⟩ := h.rows.pending ownedInvoices c' hc' i o ho
    obtain rfl := Option.some.inj ((hcommitted ho hw hji.symm).symm.trans hw')
    exact hsame.symm
  have htdraft : t.draftId = draftId := by
    rw [htarget w hcondition', hdraftId] at hsame
    exact (Option.some.inj hsame).symm
  obtain ⟨hvid, hvmatch⟩ := hmatch v hcondition
  refine h.uncrossed i j draftId ⟨⟨d, hd, v, ?_, hvid, hvmatch⟩, ⟨o, hmem, hdraftId⟩, hlog⟩
    ⟨⟨t, ht, htdraft⟩, u, hmem', hid.trans htdraft⟩
  exact List.mem_filterMap.mpr ⟨c, hc, hcommitted hu hv hji⟩

/-- The row over which one session waits for another. -/
structure Blocked (i j : ι) (t : Table) (condition : Row t → Bool) (s : Versions ι Row) : Prop where
  slot : ∃ c ∈ s t, (∃ u, c.pending = some (j, u)) ∧ ∃ v, c.visible i = some v ∧ condition v = true

theorem blockedBy_cases {op : SessionOp Row} (h : blockedBy i j s op = true) :
    (∃ condition assign, op = .statement (.update invoiceDrafts condition assign) ∧
      Blocked i j invoiceDrafts condition s) ∨
    ∃ condition assign, op = .statement (.update ownedInvoices condition assign) ∧
      Blocked i j ownedInvoices condition s := by
  have hslot : ∀ (t : Table) (condition : Row t → Bool), ((s t).any fun c =>
      (c.own j).isSome && (c.visible i).any condition) = true → Blocked i j t condition s := by
    intro t condition hany
    obtain ⟨c, hc, hboth⟩ := List.any_eq_true.mp hany
    obtain ⟨hown, hvisible⟩ := Bool.and_eq_true_iff.mp hboth
    exact ⟨c, hc, own_of_isSome hown, (Option.any_eq_true _ _).mp hvisible⟩
  cases op with
  | commit => cases h
  | rollback => cases h
  | statement st =>
      cases st with
      | update t condition assign =>
          obtain ⟨htable, hany⟩ := Bool.and_eq_true_iff.mp h
          cases t with
          | invoiceDrafts => exact .inl ⟨condition, assign, rfl, hslot _ _ hany⟩
          | ownedInvoices => exact .inr ⟨condition, assign, rfl, hslot _ _ hany⟩
          | _ => cases htable
      | _ => cases h

/-- No two sessions that stand before statements as demanded wait for each other. -/
theorem not_blocked (h : Inv writers db l s) (hji : j ≠ i) {op op' : SessionOp Row}
    (hdemand : Demand writers i op l s) (hdemand' : Demand writers j op' l s)
    (hblocked : blockedBy i j s op = true) (hblocked' : blockedBy j i s op' = true) : False := by
  have hheld : ∀ {a : ι} {t : Table} {c : Slot ι (Row t)} {u : Row t}, c ∈ s t →
      c.pending = some (a, u) → written a s t ≠ [] := by
    intro a t c u hc hu
    exact List.ne_nil_of_mem (List.mem_filterMap.mpr ⟨c, hc, Slot.own_eq_some.mpr hu⟩)
  rcases blockedBy_cases hblocked with ⟨condition, assign, rfl, hi⟩ | ⟨condition, assign, rfl, hi⟩
  · obtain ⟨c, hc, ⟨u, hu⟩, v, hv, hcondition⟩ := hi.slot
    rcases blockedBy_cases hblocked' with ⟨condition', _, rfl, hj⟩ | ⟨condition', _, rfl, hj⟩
    · exact hheld hc hu hdemand'.1
    · obtain ⟨c', hc', ⟨o, ho⟩, w, hw, hcondition'⟩ := hj.slot
      exact crossed h hji hdemand hdemand' hc hu hv hcondition hc' ho hw hcondition'
  · obtain ⟨c, hc, ⟨u, hu⟩, v, hv, hcondition⟩ := hi.slot
    rcases blockedBy_cases hblocked' with ⟨condition', _, rfl, hj⟩ | ⟨condition', _, rfl, hj⟩
    · obtain ⟨c', hc', ⟨o, ho⟩, w, hw, hcondition'⟩ := hj.slot
      exact crossed h hji.symm hdemand' hdemand hc' ho hw hcondition' hc hu hv hcondition
    · exact hheld hc hu hdemand'.1

/-! ### The statements -/

abbrev ordered (writers : ι → Writer) (db : Database Row) :
    Protocol ι (SessionOp Row) SessionOp.Answer StoreError Unit (Versions ι Row) :=
  protocol metadata (fun i => (writers i).txn) (InOrder writers) (Inv writers db) (Demand writers)

/-- What a session holds that has not come to a draft yet. -/
structure Holding (i : ι) (fact : List OwnedInvoiceRow → Prop)
    (l : Log ι (SessionOp Row) SessionOp.Answer) (s : Versions ι Row) : Prop where
  drafts : written i s invoiceDrafts = []
  owners : fact (written i s ownedInvoices)
  log : ∀ e ∈ l, e.process = i → updates invoiceDrafts e.op = false

abbrev Free (i : ι) : Fact ι Row := Holding i fun owners => owners = []

theorem persists_holding {fact : List OwnedInvoiceRow → Prop} :
    Persists metadata (Inv writers db) i (Holding i fact) := by
  intro l s l' s' h hstep
  refine ⟨?_, ?_, ?_⟩
  · rw [hstep.written_eq]
    exact h.drafts
  · rw [hstep.written_eq]
    exact h.owners
  · obtain ⟨j, hj, op, r, -, hl⟩ := hstep.step
    rw [show l' = _ from hl]
    intro e he hi
    rcases List.mem_cons.mp he with rfl | hold
    · exact absurd hi hj
    · exact h.log e hold hi

/-- A statement that reads, or writes neither drafts nor owners. -/
def Passive (st : Statement Row) : Prop := Leaves st invoiceDrafts ∧ Leaves st ownedInvoices

theorem passive_select {t : Table} {condition : Row t → Bool} :
    Passive (.select t condition) := ⟨.inl ⟨_, _, rfl⟩, .inl ⟨_, _, rfl⟩⟩

theorem passive_of_ne {st : Statement Row} (hdrafts : invoiceDrafts ≠ tableOf st)
    (howned : ownedInvoices ≠ tableOf st) : Passive st := ⟨.inr hdrafts, .inr howned⟩

theorem Passive.updates_eq {st : Statement Row} (h : Passive st) {t : Table}
    (ht : t = invoiceDrafts ∨ t = ownedInvoices) : updates t (.statement st) = false := by
  cases st with
  | update u condition assign =>
      have hne : ∀ {t}, Leaves (.update u condition assign : Statement Row) t → t ≠ u := by
        intro t hleaves
        rcases hleaves with ⟨_, _, hselect⟩ | hne
        · cases hselect
        · exact hne
      refine beq_eq_false_iff_ne.mpr (Ne.symm ?_)
      rcases ht with rfl | rfl
      · exact hne h.1
      · exact hne h.2
  | _ => rfl

theorem Passive.demand {st : Statement Row} (h : Passive st) :
    Demand writers i (.statement st) l s := by
  have hdrafts := h.updates_eq (.inl rfl)
  have howned := h.updates_eq (.inr rfl)
  cases st with
  | update u condition assign => cases u <;> trivial
  | _ => trivial

/-- A statement that touches neither drafts nor owners leaves what was held. -/
theorem passive_triple {st : Statement Row} {fact : Fact ι Row} {result : st.Answer → Fact ι Row}
    (hst : Passive st) (hpermits : ∀ s, (ownerRows db).Permits i s st)
    (hpersists : Persists metadata (Inv writers db) i fact)
    (hresult : ∀ l s r s', Inv writers db l s → fact l s →
      execute metadata i st s = some (r, s') → (∀ owners, Holding i owners l s →
        Holding i owners (⟨i, .statement st, r⟩ :: l) s') →
      result r (⟨i, .statement st, r⟩ :: l) s') :
    (ordered writers db).Triple i fact (.statement st) result := by
  refine triple hpersists (fun _ _ _ _ => hst.demand) fun l s r s' hinv hfact _ hop => ?_
  have hdrafts : s' invoiceDrafts = s invoiceDrafts := execute_leaves hst.1 hop
  have howned : s' ownedInvoices = s ownedInvoices := execute_leaves hst.2 hop
  have hcommitted : committedRows s' = committedRows s := execute_committed hop
  refine ⟨hinv.perform hop (fun st' heq => ?_) (fun draftId h => .inl ?_) fun draftId h => .inl ?_,
    hresult l s r s' hinv hfact hop fun owners h => ?_⟩
  · obtain rfl := SessionOp.statement.inj heq
    exact hpermits s
  · obtain ⟨⟨d, hd, hunfilled⟩, hbound, hlog⟩ := h
    unfold Unfilled at hunfilled
    rw [hcommitted] at hunfilled
    rw [written_congr howned] at hbound
    exact ⟨⟨d, hd, hunfilled⟩, hbound, fun e he => hlog e (List.mem_cons_of_mem _ he)⟩
  · unfold HoldsDraft at h ⊢
    rw [written_congr hdrafts] at h
    exact h
  · refine ⟨(written_congr hdrafts).trans h.drafts, ?_, fun e he hi => ?_⟩
    · rw [written_congr howned]
      exact h.owners
    · rcases List.mem_cons.mp he with rfl | hold
      · exact hst.updates_eq (.inl rfl)
      · exact h.log e hold hi

/-- An update of drafts crosses nothing: the recordings that await the draft are excluded. -/
theorem updateDrafts_triple {condition : InvoiceDraftRow → Bool}
    {assign : InvoiceDraftRow → InvoiceDraftRow} {fact : Fact ι Row}
    {result : Option ℕ → Versions ι Row → Prop}
    (hpersists : Persists metadata (Inv writers db) i fact)
    (hdemand : ∀ l s, fact l s → DraftDemand writers i condition l s)
    (hresult : ∀ l s r s', fact l s →
      execute metadata i (.update invoiceDrafts condition assign) s = some (r, s') → result r s') :
    (ordered writers db).Triple i fact (.statement (.update invoiceDrafts condition assign))
      fun r _ s => result r s := by
  refine triple hpersists (fun l s _ h => hdemand l s h) fun l s r s' hinv hfact hmeets hop => ?_
  refine ⟨hinv.perform hop (fun st' heq => ?_) (fun draftId h => ?_) fun draftId h => ?_,
    hresult l s r s' hfact hop⟩
  · obtain rfl := SessionOp.statement.inj heq
    exact fun _ _ _ _ _ _ => ⟨trivial, trivial⟩
  · -- the session has come to its draft now
    have hlog := h.2.2 _ List.mem_cons_self rfl
    cases hlog
  · obtain ⟨⟨t, ht, htarget⟩, -⟩ := h
    rw [← htarget]
    exact .inr (hmeets.1 rfl t ht)

theorem owner_permits (h : (ownerRows db).Holds s) {condition : OwnedInvoiceRow → Bool}
    {assign : OwnedInvoiceRow → OwnedInvoiceRow}
    (hassign : ∀ o, (assign o).tag = o.tag ∧ (assign o).draftId = o.draftId) :
    (ownerRows db).Permits i s (.update ownedInvoices condition assign) := by
  intro c hc _ v hv _
  obtain ⟨htag, hdraft⟩ := hassign v
  obtain ⟨o, ho, hotag, hodraft⟩ := h.of_view (List.mem_filterMap.mpr ⟨c, hc, hv⟩)
  refine ⟨⟨o, ho, hotag.trans htag.symm, hodraft.trans hdraft.symm⟩, ?_⟩
  rcases Slot.visible_eq_some.mp hv with hpending | ⟨hcommitted, -⟩
  · obtain ⟨w, hw, hwtag, hwdraft⟩ := h.pending ownedInvoices c hc i v hpending
    exact ⟨w, hw, hwtag.trans htag.symm, hwdraft.trans hdraft.symm⟩
  · exact ⟨v, hcommitted, htag.symm, hdraft.symm⟩

/-- An update of owners crosses nothing, when a recording only binds owners of its tags. -/
theorem updateOwners_triple {condition : OwnedInvoiceRow → Bool}
    {assign : OwnedInvoiceRow → OwnedInvoiceRow} {fact : Fact ι Row}
    {result : Option ℕ → Fact ι Row}
    (hassign : ∀ o, (assign o).tag = o.tag ∧ (assign o).draftId = o.draftId)
    (hpersists : Persists metadata (Inv writers db) i fact)
    (hdemand : ∀ l s, fact l s → OwnerDemand writers i condition l s)
    (hbinds : ∀ l s, fact l s → ∀ d ∈ (writers i).delivery, ∀ o, condition o = true →
      o.tag ∈ d.event.tags ∧ o.providerInvoiceId = none)
    (hresult : ∀ l s r s', Inv writers db l s → fact l s →
      execute metadata i (.update ownedInvoices condition assign) s = some (r, s') →
      result r (⟨i, .statement (.update ownedInvoices condition assign), r⟩ :: l) s') :
    (ordered writers db).Triple i fact (.statement (.update ownedInvoices condition assign))
      result := by
  refine triple hpersists (fun l s _ h => hdemand l s h) fun l s r s' hinv hfact hmeets hop => ?_
  have hexecute : execute metadata i (.update ownedInvoices condition assign) s = some (r, s') := hop
  have hcommitted : committedRows s' = committedRows s := execute_committed hexecute
  refine ⟨hinv.perform hop (fun st' heq => ?_) (fun draftId h => ?_) fun draftId h => .inl ?_,
    hresult l s r s' hinv hfact hop⟩
  · obtain rfl := SessionOp.statement.inj heq
    exact owner_permits hinv.rows hassign
  · obtain ⟨⟨d, hd, hunfilled⟩, ⟨o, ho, hodraft⟩, hlog⟩ := h
    unfold Unfilled at hunfilled
    rw [hcommitted] at hunfilled
    have hold : o ∈ written i s ownedInvoices → AwaitsDraft writers l s i draftId := fun ho =>
      ⟨⟨d, hd, hunfilled⟩, ⟨o, ho, hodraft⟩, fun e he => hlog e (List.mem_cons_of_mem _ he)⟩
    rcases execute_update hexecute with ⟨-, rfl⟩ | hupdated
    · exact .inl (hold ho)
    · rcases hupdated.mem_written.mp ho with ⟨v, hv, hcondition, rfl⟩ | ⟨hwritten, -⟩
      · obtain ⟨htag, hnone⟩ := hbinds l s hfact d hd v hcondition
        exact .inr (hmeets.2 rfl d hd v hv htag hnone draftId
          ((hassign v).2.symm.trans hodraft) hunfilled)
      · exact .inl (hold hwritten)
  · have hdrafts : s' invoiceDrafts = s invoiceDrafts :=
      execute_frame hexecute (by simp [tableOf])
    unfold HoldsDraft at h ⊢
    rw [written_congr hdrafts] at h
    exact h

/-! ### The transactions of the invoice store -/

abbrev Reaches (writers : ι → Writer) (db : Database Row) (i : ι) {B : Type} (p : Txn B) :
    Fact ι Row :=
  Ensures (ordered writers db) i (statements p) fun _ _ _ => True

theorem reaches_done {B : Type} {b : B} : Reaches writers db i (.done b : Txn B) l s :=
  fun _ _ _ _ => trivial

theorem reaches_raise {B : Type} {e : StoreError} :
    Reaches writers db i (.raise e : Txn B) l s := fun _ _ _ _ => trivial

/-- An update with nothing more to lock. -/
theorem updateRows_reaches {B : Type} {t : Table} {condition : Row t → Bool}
    {assign : Row t → Row t} {f : ℕ → Txn B} {fact : Fact ι Row} {after : Versions ι Row → Prop}
    (h : fact l s) (hrule : (ordered writers db).Triple i fact
      (.statement (.update t condition assign)) fun _ _ s => after s)
    (hnext : ∀ n l s, after s → Reaches writers db i (f n) l s) :
    Reaches writers db i (updateRows t condition assign >>= f) l s := by
  refine .call h hrule fun updated l s hafter => ?_
  cases updated with
  | none => exact reaches_raise
  | some n => exact hnext n l s hafter

/-- The result of a provider call holds its draft and comes to the owner. -/
def Locked (i : ι) (draftId : DraftId) (s : Versions ι Row) : Prop :=
  written i s ownedInvoices = [] ∧ ∀ r ∈ written i s invoiceDrafts, r.id = draftId

theorem locked_draft {condition : InvoiceDraftRow → Bool}
    {assign : InvoiceDraftRow → InvoiceDraftRow} {r : Option ℕ} (h : Free i l s)
    (hcondition : ∀ d, condition d = true → (assign d).id = draftId)
    (he : execute metadata i (.update invoiceDrafts condition assign) s = some (r, s')) :
    Locked i draftId s' := by
  have howned : s' ownedInvoices = s ownedInvoices := execute_frame he (by simp [tableOf])
  refine ⟨(written_congr howned).trans h.owners, fun d hd => ?_⟩
  rcases execute_update he with ⟨-, rfl⟩ | hupdated
  · rw [h.drafts] at hd
    cases hd
  · rcases hupdated.mem_written.mp hd with ⟨v, -, hv, rfl⟩ | ⟨hold, -⟩
    · exact hcondition v hv
    · rw [h.drafts] at hold
      cases hold

/-- A session that holds nothing may update any one draft. -/
theorem Holding.draftDemand (h : Free i l s) (condition : InvoiceDraftRow → Bool) :
    DraftDemand writers i condition l s := by
  refine ⟨h.drafts, fun o ho => ?_⟩
  rw [h.owners] at ho
  cases ho

theorem Holding.ownerDemand (h : Free i l s) (condition : OwnedInvoiceRow → Bool) :
    OwnerDemand writers i condition l s := by
  refine ⟨h.owners, fun r hr => ?_⟩
  rw [h.drafts] at hr
  cases hr

/-- An update of one draft and nothing after it. -/
theorem updateDraft_reaches {B : Type} {condition : InvoiceDraftRow → Bool}
    {assign : InvoiceDraftRow → InvoiceDraftRow} {b : B} (h : Free i l s) :
    Reaches writers db i (updateRows invoiceDrafts condition assign >>= fun _ => pure b) l s :=
  updateRows_reaches h (updateDrafts_triple persists_holding
    (fun _ _ hfree => hfree.draftDemand condition) fun _ _ _ _ _ _ => trivial)
    fun _ _ _ _ => reaches_done

theorem transition_reaches {t : DraftTransition} (ht : (writers i).draftTransition = some t)
    (h : Free i l s) : Reaches writers db i (transition t) l s := by
  have hnone : ∀ d, (writers i).delivery ≠ some d := fun d hd => Writer.exclusive hd ht
  have hid : ∀ d : InvoiceDraftRow, (d.id == t.draftId) = true → (t.apply d).id = t.draftId :=
    fun d hd => beq_iff_eq.mp hd
  have hlock : (ordered writers db).Triple i (Free i) (.statement (.update invoiceDrafts
      (fun d : InvoiceDraftRow => d.id == t.draftId) t.apply)) fun _ _ s =>
        Locked i t.draftId s :=
    updateDrafts_triple persists_holding (fun _ _ hfree => hfree.draftDemand _)
      fun _ _ _ _ hfree he => locked_draft hfree hid he
  refine updateRows_reaches h hlock fun _ l s hlocked => ?_
  · have hpersists : Persists metadata (Inv writers db) i fun _ s => Locked i t.draftId s := by
      intro l s l' s' hlocked hstep
      unfold Locked
      rw [hstep.written_eq]
      exact hlocked
    refine updateRows_reaches hlocked (updateOwners_triple (fun o => ⟨rfl, rfl⟩) hpersists
      (fun l s hlocked => ⟨hlocked.1, fun r hr => ⟨t, ht, hlocked.2 r hr, fun o ho => ?_⟩⟩)
      (fun _ _ _ d hd => absurd hd (hnone d)) fun _ _ _ _ _ _ _ => trivial)
      fun _ _ _ _ => reaches_done
    exact beq_iff_eq.mp ho

/-- A query before an update of one draft. -/
theorem select_reaches {B : Type} {t : Table} {condition : Row t → Bool}
    {f : List (Row t) → Txn B} (h : Free i l s)
    (hnext : ∀ rows l s, Free i l s → Reaches writers db i (f rows) l s) :
    Reaches writers db i (Transaction.select t condition >>= f) l s := by
  have hselect : (ordered writers db).Triple i (Free i) (.statement (.select t condition))
      fun _ => Free i :=
    passive_triple passive_select (fun _ => trivial) persists_holding
      fun _ _ _ _ _ hfree _ hkeeps => hkeeps _ hfree
  exact .call h hselect hnext

theorem one_reaches {B R : Type} {rows : List R} {f : R → Txn B}
    (hnext : ∀ r, Reaches writers db i (f r) l s) : Reaches writers db i (one rows >>= f) l s := by
  cases rows with
  | nil => exact reaches_raise
  | cons r rest => exact hnext r

theorem retry_reaches {result : DraftFailure} {delay : ℤ} {maxAttempts : ℕ} (h : Free i l s) :
    Reaches writers db i (InvoiceRecording.retry result delay maxAttempts) l s :=
  select_reaches h fun _ _ _ hfree => one_reaches fun _ => updateDraft_reaches hfree

theorem reconcileNotFound_reaches {limits : ReconcileLimits} {draft : InvoiceDraft} {atTime : ℤ}
    (h : Free i l s) : Reaches writers db i (reconcileNotFound limits draft atTime) l s :=
  select_reaches h fun _ _ _ hfree => one_reaches fun _ => updateDraft_reaches hfree

theorem bindProviderInvoice_reaches {tag : String} {invoiceId : InvoiceId} {atTime : ℤ}
    (hnone : (writers i).delivery = none) (h : Free i l s) :
    Reaches writers db i (InvoiceRecording.bindProviderInvoice tag invoiceId atTime) l s := by
  have htriple : ∀ (condition : OwnedInvoiceRow → Bool) (assign : OwnedInvoiceRow → OwnedInvoiceRow),
      (∀ o, (assign o).tag = o.tag ∧ (assign o).draftId = o.draftId) →
      (ordered writers db).Triple i (Free i) (.statement (.update ownedInvoices condition assign))
        fun _ _ _ => True := fun condition assign hassign =>
    updateOwners_triple hassign persists_holding (fun _ _ hfree => hfree.ownerDemand condition)
      (fun _ _ _ d hd => by simp [hnone] at hd) fun _ _ _ _ _ _ _ => trivial
  refine select_reaches h fun owners l s hfree => ?_
  cases owners with
  | nil => exact reaches_raise
  | cons owner rest =>
      cases hid : owner.providerInvoiceId with
      | none =>
          simp only [hid]
          refine .call hfree (htriple _ _ fun _ => ⟨rfl, rfl⟩) fun updated l s _ => ?_
          cases updated with
          | none => exact reaches_raise
          | some n => exact reaches_done
      | some current =>
          simp only [hid]
          split_ifs with hsame
          · exact updateRows_reaches hfree (htriple _ _ fun _ => ⟨rfl, rfl⟩)
              fun _ _ _ _ => reaches_done
          · exact reaches_raise

theorem discard_reaches {B : Type} {p : Txn B} (h : Reaches writers db i p l s) :
    Reaches writers db i p.discard l s := by
  change Ensures _ _ (statements (p >>= fun _ => .done ())) _ _ _
  rw [statements_bind]
  refine Ensures.bind protocol_sound (h.mono fun result l s _ => ?_)
  cases result with
  | ok b => exact reaches_done
  | error e => exact fun _ _ _ _ => trivial

/-! ### One recording -/

/-- The owner that was read is one of the database, up to its binding. -/
def Stored (db : Database Row) (owner : OwnedInvoiceRow) : Prop :=
  ∃ v ∈ db ownedInvoices, v.tag = owner.tag ∧ v.draftId = owner.draftId

theorem stored_draft (hdb : metadata.Consistent db) {o owner : OwnedInvoiceRow} (ho : Stored db o)
    (howner : Stored db owner) (htag : o.tag = owner.tag) : o.draftId = owner.draftId := by
  obtain ⟨v, hv, hvtag, hvdraft⟩ := ho
  obtain ⟨w, hw, hwtag, hwdraft⟩ := howner
  obtain rfl := (hdb ownedInvoices).eq_of_key hv hw (hvtag.trans (htag.trans hwtag.symm))
  exact hvdraft.symm.trans hwdraft

/-- The recording holds at most owners of this draft. -/
abbrev Bound (i : ι) (owner : OwnedInvoiceRow) : Fact ι Row :=
  Holding i fun owners => ∀ o ∈ owners, o.draftId = owner.draftId

theorem Holding.bound (h : Free i l s) (owner : OwnedInvoiceRow) : Bound i owner l s := by
  refine ⟨h.drafts, fun o ho => ?_, h.log⟩
  rw [h.owners] at ho
  cases ho

theorem free_triple {st : Statement Row} (hst : Passive st)
    (hpermits : ∀ s, (ownerRows db).Permits i s st) :
    (ordered writers db).Triple i (Free i) (.statement st) fun _ => Free i :=
  passive_triple hst hpermits persists_holding fun _ _ _ _ _ hfree _ hkeeps => hkeeps _ hfree

theorem idle_triple {st : Statement Row} (hst : Passive st)
    (hpermits : ∀ s, (ownerRows db).Permits i s st) :
    (ordered writers db).Triple i (fun _ _ => True) (.statement st) fun _ _ _ => True :=
  passive_triple hst hpermits persists_const fun _ _ _ _ _ _ _ _ => trivial

theorem mark_passive {d : Delivery} (outcome : EventWriteResult) : Passive (d.mark outcome) :=
  passive_of_ne (by simp [tableOf]) (by simp [tableOf])

theorem mark_permits {d : Delivery} (outcome : EventWriteResult) (s : Versions ι Row) :
    (ownerRows db).Permits i s (d.mark outcome) := fun _ _ _ _ _ _ => ⟨trivial, trivial⟩

theorem insertEvent_permits {d : Delivery} (s : Versions ι Row) :
    (ownerRows db).Permits i s d.insertEvent := fun _ _ => ⟨trivial, trivial⟩

theorem insertJob_permits {d : Delivery} (net : ℤ) (s : Versions ι Row) :
    (ownerRows db).Permits i s (d.insertJob net) := fun _ _ => ⟨trivial, trivial⟩

theorem selectByTags_triple {d : Delivery} :
    (ordered writers db).Triple i (Free i) (.statement d.selectByTags) fun rows l s =>
      Free i l s ∧ ∀ owner, rows.take 2 = [owner] →
        owner.tag ∈ d.event.tags ∧ Stored db owner := by
  refine passive_triple passive_select (fun _ => trivial) persists_holding
    fun l s rows s' hinv hfree he hkeeps => ⟨hkeeps _ hfree, fun owner howner => ?_⟩
  obtain ⟨hrows, -⟩ := Prod.mk.inj (Option.some.inj he)
  have hmem : owner ∈ rows := by
    rw [take_two_eq_singleton.mp howner]
    exact List.mem_singleton_self owner
  rw [← hrows] at hmem
  obtain ⟨hview, htag⟩ := List.mem_filter.mp hmem
  exact ⟨by simpa using htag, hinv.rows.of_view hview⟩

theorem bindOwner_triple (hdb : metadata.Consistent db) {d : Delivery}
    (hd : (writers i).delivery = some d) (owner : OwnedInvoiceRow) :
    (ordered writers db).Triple i
      (fun l s => Free i l s ∧ owner.tag ∈ d.event.tags ∧ Stored db owner)
      (.statement (d.bindOwner owner)) fun _ => Bound i owner := by
  refine updateOwners_triple (fun _ => ⟨rfl, rfl⟩) (persists_holding.and persists_const)
    (fun l s hfact => hfact.1.ownerDemand _) (fun l s hfact d' hd' o ho => ?_)
    fun l s r s' hinv hfact he => ⟨?_, fun o ho => ?_, fun e hmem hi => ?_⟩
  · obtain rfl := Option.some.inj (hd.symm.trans hd')
    obtain ⟨htag, hnone⟩ := Bool.and_eq_true_iff.mp ho
    exact ⟨beq_iff_eq.mp htag ▸ hfact.2.1, by simpa using hnone⟩
  · have hdrafts : s' invoiceDrafts = s invoiceDrafts := execute_frame he (by simp [tableOf])
    exact (written_congr hdrafts).trans hfact.1.drafts
  · have hnothing : o ∉ written i s ownedInvoices := by
      rw [hfact.1.owners]
      exact List.not_mem_nil
    rcases execute_update he with ⟨-, rfl⟩ | hupdated
    · exact absurd ho hnothing
    · rcases hupdated.mem_written.mp ho with ⟨v, hv, hcondition, rfl⟩ | ⟨hold, -⟩
      · exact stored_draft hdb (hinv.rows.of_view hv) hfact.2.2
          (beq_iff_eq.mp (Bool.and_eq_true_iff.mp hcondition).1)
      · exact absurd hold hnothing
  · rcases List.mem_cons.mp hmem with rfl | hold
    · rfl
    · exact hfact.1.log e hold hi

theorem createDraft_triple {d : Delivery} (hd : (writers i).delivery = some d)
    {owner : OwnedInvoiceRow} (hdraft : owner.draftId = some draftId) :
    (ordered writers db).Triple i (Bound i owner) (.statement (d.createDraft draftId))
      fun _ _ _ => True := by
  refine updateDrafts_triple persists_holding (fun l s hbound => ⟨hbound.drafts, fun o ho =>
    ⟨hbound.log, d, hd, draftId, (hbound.owners o ho).trans hdraft, fun r hr => ?_⟩⟩)
    fun _ _ _ _ _ _ => trivial
  obtain ⟨hid, hmatch⟩ := Bool.and_eq_true_iff.mp hr
  exact ⟨beq_iff_eq.mp hid, by simpa using hmatch⟩

def outline (hdb : metadata.Consistent db) {d : Delivery} (hd : (writers i).delivery = some d) :
    Outline (ordered writers db) i d where
  start := Free i
  known := Free i
  seek _ := Free i
  unbound _ := Free i
  selected _ owner l s := Free i l s ∧ owner.tag ∈ d.event.tags ∧ Stored db owner
  matched _ _ := Free i
  owned _ owner := Bound i owner
  drafted _ _ _ := True
  vacant _ _ _ := True
  taken _ _ := True
  queued _ _ _ := True
  unowned _ _ _ := True
  result _ _ _ := True
  failed _ _ := True
  result_stable _ := persists_const.stable
  failed_stable := persists_const.stable
  insertEvent := (free_triple (passive_of_ne (by simp [tableOf]) (by simp [tableOf]))
    insertEvent_permits).mono fun _ _ _ h =>
      ⟨fun _ => ⟨fun _ => trivial, fun _ => h⟩, fun _ => ⟨fun _ => trivial, fun _ => h⟩⟩
  selectStored := (free_triple passive_select fun _ => trivial).mono fun _ _ _ h =>
    ⟨fun _ => trivial, fun _ _ _ => h⟩
  selectOwner _ := (free_triple passive_select fun _ => trivial).mono fun _ _ _ h =>
    ⟨fun _ => h, fun _ _ => h⟩
  untagged _ _ _ _ := ⟨fun _ => trivial, fun owner h => h.bound owner⟩
  selectByTags _ := selectByTags_triple.mono fun _ _ _ h =>
    ⟨fun owner howner _ => ⟨h.1, h.2 owner howner⟩, fun _ => trivial⟩
  bindOwner _ owner := (bindOwner_triple hdb hd owner).mono fun _ _ _ h =>
    ⟨fun _ => trivial, fun _ => h⟩
  selectTagMatches _ owner := (free_triple passive_select fun _ => trivial).mono fun _ _ _ h =>
    ⟨fun _ => h.bound owner, fun _ => trivial⟩
  undrafted _ _ _ _ _ _ := trivial
  createDraft _ _ _ hdraft := (createDraft_triple hd hdraft).mono fun _ _ _ _ =>
    ⟨fun _ => trivial, fun _ => trivial⟩
  selectJobs _ := (idle_triple passive_select fun _ => trivial).mono fun _ _ _ _ =>
    ⟨fun _ => trivial, fun _ => trivial⟩
  insertJob _ net _ := (idle_triple (passive_of_ne (by simp [tableOf]) (by simp [tableOf]))
    (insertJob_permits net)).mono fun _ _ _ _ => ⟨fun _ => trivial, fun _ => trivial⟩
  markDuplicate := (idle_triple (mark_passive _) (mark_permits _)).mono fun _ _ _ _ =>
    ⟨fun _ => trivial, fun _ => trivial⟩
  markUnknown := (idle_triple (mark_passive _) (mark_permits _)).mono fun _ _ _ _ =>
    ⟨fun _ => trivial, fun _ => trivial⟩
  markQueued := (idle_triple (mark_passive _) (mark_permits _)).mono fun _ _ _ _ =>
    ⟨fun _ => trivial, fun _ => trivial⟩
  ends _ _ := ⟨fun _ => trivial, fun _ => trivial⟩

/-! ### Over every interleaving -/

theorem writer_reaches (hdb : metadata.Consistent db) (h : Free i l s) :
    Reaches writers db i (writers i).txn l s := by
  cases hw : writers i with
  | record d =>
      have hd : (writers i).delivery = some d := by rw [hw]; rfl
      exact discard_reaches (((outline hdb hd).record_ensures h).mono fun _ _ _ _ => trivial)
  | created result => exact transition_reaches (by rw [hw]; rfl) h
  | unknownResult result => exact transition_reaches (by rw [hw]; rfl) h
  | failed result => exact transition_reaches (by rw [hw]; rfl) h
  | retry result delay maxAttempts => exact discard_reaches (retry_reaches h)
  | reconcile result limits =>
      change Reaches writers db i (InvoiceRecording.reconcile result limits) l s
      unfold InvoiceRecording.reconcile
      cases hfound : result.providerInvoice with
      | none => exact reconcileNotFound_reaches h
      | some invoice =>
          refine transition_reaches ?_ h
          rw [hw]
          simp [Writer.draftTransition, hfound]
  | bindProviderInvoice tag invoiceId atTime =>
      exact bindProviderInvoice_reaches (by rw [hw]; rfl) h

theorem end_triple {op : SessionOp Row} (hop : op.Ends) :
    (ordered writers db).Triple i (fun _ _ => True) op fun _ _ s => AtRest i s := by
  have hdemand : ∀ l (s : Versions ι Row), Demand writers i op l s := by
    rcases hop with rfl | rfl <;> exact fun _ _ => trivial
  refine triple persists_const (fun l s _ _ => hdemand l s) fun l s r s' hinv _ _ hperform => ?_
  have hrest : AtRest i s' := perform_ends hop hperform
  refine ⟨hinv.perform hperform (fun st heq => (hop.ne_statement st heq).elim)
    (fun draftId h => ?_) fun draftId h => ?_, hrest⟩
  · obtain ⟨-, ⟨o, ho, -⟩, -⟩ := h
    rw [hrest] at ho
    cases ho
  · obtain ⟨-, r, hr, -⟩ := h
    rw [hrest] at hr
    cases hr

theorem ordered_kept (writers : ι → Writer) (hdb : metadata.Consistent db) :
    (ordered writers db).Kept (fun i _ s => AtRest i s) fun i _ _ s => AtRest i s := by
  refine kept (fun _ _ _ _ h => h) fun i l s _ hrest hnew => ?_
  have hfree : Free i l s := ⟨congrFun hrest invoiceDrafts, congrFun hrest ownedInvoices,
    fun e he hi => absurd hi (hnew e he)⟩
  exact session_ensures (fun _ => end_triple (.inl rfl))
    ((end_triple (.inr rfl)).mono fun _ _ _ h _ => h) (fun _ => persists_atRest)
    ((writer_reaches hdb hfree).mono fun result _ _ _ => by cases result <;> trivial)

theorem Inv.untouched (hdb : metadata.Consistent db) :
    Inv writers db [] (untouched db : Versions ι Row) where
  coherent := .untouched hdb
  rows := by
    refine .untouched fun t r hr => ?_
    cases t with
    | ownedInvoices => exact ⟨r, hr, rfl, rfl⟩
    | _ => trivial
  uncrossed i j draftId h := by
    obtain ⟨-, ⟨o, ho, -⟩, -⟩ := h
    have hrest : AtRest i (RowVersions.untouched db) := atRest_untouched db
    rw [hrest] at ho
    cases ho

theorem no_deadlock (hdb : metadata.Consistent db)
    {c : Config ι (SessionOp Row) SessionOp.Answer StoreError Unit (Versions ι Row)}
    (h : Runs (restricted (writing writers) (InOrder writers)) (.initial (untouched db)) c)
    (i j : ι) : ¬ (WaitsFor c i j ∧ WaitsFor c j i) := by
  rintro ⟨⟨hji, hi⟩, -, hj⟩
  have hkept := ordered_kept writers hdb
  have hrest : ∀ i, AtRest i (untouched db : Versions ι Row) := fun i => atRest_untouched db
  have hdemand : ∀ a op, op ∈ nextOp c a → Demand writers a op c.log c.state := by
    intro a op hop
    obtain ⟨next, hnext⟩ := nextOp_eq_some hop
    exact hkept.demand (.untouched hdb) h hnext hrest
  obtain ⟨op, hop, hblocked⟩ := (Option.any_eq_true _ _).mp hi
  obtain ⟨op', hop', hblocked'⟩ := (Option.any_eq_true _ _).mp hj
  exact not_blocked (hkept.inv (.untouched hdb) h hrest) hji (hdemand i op hop)
    (hdemand j op' hop') hblocked hblocked'

end

/-! ### A recording and a result for one draft -/

def lockedDraft : InvoiceDraftRow where
  id := "d"
  batchId := "b"
  ordinal := 0
  payerName := "n"
  payerTaxId := "p"
  amount := 100
  tag := "t"
  status := .unknown
  providerInvoiceId := none
  attempts := 0
  reconcileAttempts := 0
  lastErrorCode := none
  createdAt := 0
  updatedAt := 0
  nextAttemptAt := 0

/-- One draft and its unbound owner. -/
def oneDraft : Database Row
  | .invoiceDrafts => [lockedDraft]
  | .ownedInvoices => [trialOwner lockedDraft]
  | _ => []

theorem oneDraft_consistent : metadata.Consistent oneDraft := by decide

/-- The invoice of the draft is credited while its creation is recorded. -/
def creditAndCreated (i : Fin 2) : Writer :=
  if i = 0 then .record
    { event := { eventId := "e", invoiceId := "x", amount := 100, fee := 0, workspaceId := "w",
                 tags := ["t"] }
      payloadHash := "h", receivedAt := 1, netAmount := some 100, jobId := "j" }
  else .created ⟨"d", "x", 1⟩

theorem locks_crossed :
    ¬ ∀ (writers : Fin 2 → Writer) (db : Database Row), metadata.Consistent db →
      ∀ c, Runs (writing writers) (.initial (untouched db)) c →
        ∀ i j, ¬ (WaitsFor c i j ∧ WaitsFor c j i) := by
  intro hclaim
  have hends : (playAll (performIf metadata fun _ _ _ _ => True) (.initial (untouched oneDraft))
      (inOrder (fun i => (creditAndCreated i).txn) [0, 0, 0, 0, 1])).map (fun c =>
        decide (WaitsFor c 0 1 ∧ WaitsFor c 1 0)) = some true := by
    decide +kernel
  obtain ⟨c, hplay, hc⟩ := Option.map_eq_some_iff.mp hends
  exact hclaim creditAndCreated oneDraft oneDraft_consistent c
    (runs_of_restricted (inOrder_runs hplay)) 0 1 (of_decide_eq_true hc)

theorem no_deadlock_creditAndCreated :
    ∃ c : Config (Fin 2) (SessionOp Row) SessionOp.Answer StoreError Unit (Versions (Fin 2) Row),
      (∀ i j, ¬ (WaitsFor c i j ∧ WaitsFor c j i)) ∧
        (committedRows c.state invoiceDrafts).map InvoiceDraftRow.attempts = [1] ∧
          (committedRows c.state transferJobs).map TransferJobRow.invoiceId = ["x"] := by
  have hends : (playAll (performIf metadata (InOrder creditAndCreated))
      (.initial (untouched oneDraft)) (inOrder (fun i => (creditAndCreated i).txn)
        [0, 0, 0, 0, 0, 0, 0, 0, 1, 1, 1])).map (fun c =>
          ((committedRows c.state invoiceDrafts).map InvoiceDraftRow.attempts,
            (committedRows c.state transferJobs).map TransferJobRow.invoiceId)) =
      some ([1], ["x"]) := by
    decide +kernel
  obtain ⟨c, hplay, hc⟩ := Option.map_eq_some_iff.mp hends
  obtain ⟨hdrafts, hjobs⟩ := Prod.mk.inj hc
  exact ⟨c, no_deadlock oneDraft_consistent (inOrder_runs hplay), hdrafts, hjobs⟩

end StarkbankTrial.LockOrders
