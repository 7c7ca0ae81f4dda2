import Mathlib.Algebra.BigOperators.Group.List.Basic
import Mathlib.Algebra.Order.BigOperators.Group.List
import Mathlib.Algebra.Ring.Int.Defs
import StarkbankTrial.TransferOnce

/-!
# What leaves the account

The provider debits the account for every transfer that it holds. Summed over any invoices,
the transfers never exceed what the jobs owe, which is what was credited less the fees, and
for each job that says succeeded exactly what it owes was transferred.

The first section is about any weighted items that are grouped by a key.
-/
namespace StarkbankTrial.TransferBalances

section
variable {A K : Type} [DecidableEq K] {key : A → K} {weight : A → ℤ}

/-- The weight of the items with this key. -/
def weightAt (key : A → K) (weight : A → ℤ) (as : List A) (k : K) : ℤ :=
  ((as.filter fun a => key a = k).map weight).sum

@[simp] theorem weightAt_cons (a : A) (as : List A) (k : K) :
    weightAt key weight (a :: as) k =
      (if key a = k then weight a else 0) + weightAt key weight as k := by
  by_cases h : key a = k <;> simp [weightAt, h]

/-- Among distinct keys, one has the item. -/
theorem sum_ite_key {ks : List K} (hks : ks.Nodup) (k : K) (x : ℤ) :
    (ks.map fun k' => if k = k' then x else 0).sum = if k ∈ ks then x else 0 := by
  induction ks with
  | nil => rfl
  | cons k' ks ih =>
      obtain ⟨hnot, hks⟩ := List.nodup_cons.mp hks
      rw [List.map_cons, List.sum_cons, ih hks]
      by_cases h : k = k'
      · subst h
        simp [hnot]
      · simp [h]

@[simp] theorem sum_weightAt_nil (ks : List K) :
    (ks.map (weightAt key weight ([] : List A))).sum = 0 := by
  have hzero : weightAt key weight ([] : List A) = fun _ => 0 := rfl
  simp [hzero]

theorem sum_weightAt_cons {ks : List K} (hks : ks.Nodup) (a : A) (as : List A) :
    (ks.map (weightAt key weight (a :: as))).sum =
      (if key a ∈ ks then weight a else 0) + (ks.map (weightAt key weight as)).sum := by
  rw [← sum_ite_key hks, ← List.sum_map_add]
  exact congrArg List.sum (List.map_congr_left fun k _ => weightAt_cons a as k)

/-- The weight at some keys is part of the whole. -/
theorem sum_weightAt_le {as : List A} (hnonneg : ∀ a ∈ as, 0 ≤ weight a) {ks : List K}
    (hks : ks.Nodup) : (ks.map (weightAt key weight as)).sum ≤ (as.map weight).sum := by
  induction as with
  | nil => simp
  | cons a as ih =>
      have hrest := ih fun b hb => hnonneg b (by simp [hb])
      have ha := hnonneg a (by simp)
      rw [sum_weightAt_cons hks, List.map_cons, List.sum_cons]
      split_ifs <;> omega

end

open Domain InteractivePrograms InterleavedRuns RelationalTables DatabaseSchema
open DatabaseSchema.Table
open StoreOperations ExternalCalls TransferOnce ScriptedRuns

/-! ### The transfers of an invoice and its job -/

/-- What was transferred for the invoice. -/
def sentFor (w : World) (invoiceId : InvoiceId) : ℤ :=
  ((w.transfers.filter fun t => ForInvoice invoiceId t).map fun t => t.request.amount).sum

/-- What the jobs owe for it. -/
def owedFor (w : World) : InvoiceId → ℤ :=
  weightAt TransferJobRow.invoiceId TransferJobRow.netAmount (w.db transferJobs)

variable {ι : Type} {l : WorkerLog ι} {w : World}

theorem netAmount_pos (h : Inv l w) {j : TransferJobRow} (hj : j ∈ w.db transferJobs) :
    0 < j.netAmount := by
  have hcheck := (h.consistent transferJobs).1 j hj
  simp only [metadata, rowCheck, Bool.and_eq_true, decide_eq_true_eq] at hcheck
  exact hcheck.2

theorem owedFor_job (h : Inv l w) {j : TransferJobRow} (hj : j ∈ w.db transferJobs) :
    owedFor w j.invoiceId = j.netAmount := by
  have hfilter : (w.db transferJobs).filter
      (fun a : TransferJobRow => a.invoiceId = j.invoiceId) = [j] := by
    refine (h.consistent transferJobs).filter_eq_singleton (fun a b ha hb => ?_) hj (by simp)
    have hab : a.invoiceId = b.invoiceId :=
      (of_decide_eq_true ha).trans (of_decide_eq_true hb).symm
    simp [metadata, uniqueConflict, hab]
  rw [owedFor, weightAt, hfilter]
  simp

/-- Nothing was transferred, or what the job of the invoice owes. -/
theorem sentFor_cases (h : Inv l w) (invoiceId : InvoiceId) :
    sentFor w invoiceId = 0 ∨ ∃ j ∈ w.db transferJobs, j.invoiceId = invoiceId ∧
      sentFor w invoiceId = j.netAmount := by
  have honce := h.once invoiceId
  unfold sentFor
  match hfor : w.transfers.filter fun t => ForInvoice invoiceId t with
  | [] => exact .inl rfl
  | [t] =>
      have ht : t ∈ w.transfers.filter fun t => ForInvoice invoiceId t := by simp [hfor]
      obtain ⟨hheld, hinvoice⟩ := List.mem_filter.mp ht
      obtain ⟨j, hj, hid, hmatches⟩ := h.has_job t hheld invoiceId (of_decide_eq_true hinvoice)
      exact .inr ⟨j, hj, hid, by simp [hmatches.amount]⟩
  | t :: t' :: ts =>
      rw [hfor] at honce
      simp at honce

theorem sentFor_le (h : Inv l w) (invoiceId : InvoiceId) :
    sentFor w invoiceId ≤ owedFor w invoiceId := by
  rcases sentFor_cases h invoiceId with hzero | ⟨j, hj, rfl, hsent⟩
  · rw [hzero]
    refine List.sum_nonneg fun x hx => ?_
    obtain ⟨j, hj, rfl⟩ := List.mem_map.mp hx
    exact (netAmount_pos h (List.mem_of_mem_filter hj)).le
  · rw [hsent, owedFor_job h hj]

/-- The transfer of a succeeded job is there. -/
theorem sentFor_succeeded (h : Inv l w) {j : TransferJobRow} (hj : j ∈ w.db transferJobs)
    (hstatus : j.status = .succeeded) : sentFor w j.invoiceId = j.netAmount := by
  obtain ⟨t, ht, hfor, hmatches, -⟩ := h.transferredOnce.succeeded j hj hstatus
  have hmem : t ∈ w.transfers.filter fun t => ForInvoice j.invoiceId t :=
    List.mem_filter.mpr ⟨ht, decide_eq_true hfor⟩
  have honce := h.once j.invoiceId
  obtain ⟨x, hx⟩ := List.length_eq_one_iff.mp
    (le_antisymm honce (List.length_pos_of_mem hmem))
  obtain rfl : t = x := List.mem_singleton.mp (hx ▸ hmem)
  rw [sentFor, hx]
  simpa using hmatches.amount

/-! ### The balance -/

/-- The jobs that say succeeded. -/
def succeededJobs (w : World) : List TransferJobRow :=
  (w.db transferJobs).filter fun j : TransferJobRow => j.status = .succeeded

structure Balanced (w : World) : Prop where
  covered : ∀ invoiceIds : List InvoiceId, invoiceIds.Nodup →
    (invoiceIds.map (sentFor w)).sum ≤
      ((w.db transferJobs).map fun j : TransferJobRow => j.netAmount).sum
  owed : ((w.db transferJobs).map fun j : TransferJobRow => j.netAmount).sum =
    ((w.db transferJobs).map fun j : TransferJobRow => j.amount).sum -
      ((w.db transferJobs).map fun j : TransferJobRow => j.fee).sum
  paid : ∀ j ∈ succeededJobs w, sentFor w j.invoiceId = j.netAmount
  settled : ((succeededJobs w).map fun j => sentFor w j.invoiceId).sum =
    ((succeededJobs w).map fun j => j.netAmount).sum
  complete : (∀ j ∈ w.db transferJobs, j.status = .succeeded) →
    ((w.db transferJobs).map fun j : TransferJobRow => sentFor w j.invoiceId).sum =
      ((w.db transferJobs).map fun j : TransferJobRow => j.netAmount).sum

theorem sentFor_succeededJobs (h : Inv l w) :
    ∀ j ∈ succeededJobs w, sentFor w j.invoiceId = j.netAmount := by
  intro j hj
  obtain ⟨hmem, hstatus⟩ := List.mem_filter.mp hj
  exact sentFor_succeeded h hmem (of_decide_eq_true hstatus)

theorem Inv.balanced (h : Inv l w) : Balanced w where
  covered := by
    intro invoiceIds hnodup
    calc (invoiceIds.map (sentFor w)).sum
        ≤ (invoiceIds.map (owedFor w)).sum := List.sum_le_sum fun i _ => sentFor_le h i
      _ ≤ _ := sum_weightAt_le (fun j hj => (netAmount_pos h hj).le) hnodup
  owed := by
    have hsum : ((w.db transferJobs).map fun j : TransferJobRow => j.amount).sum =
        ((w.db transferJobs).map fun j : TransferJobRow => j.netAmount + j.fee).sum := by
      refine congrArg List.sum (List.map_congr_left fun j hj => ?_)
      obtain ⟨-, -, -, -, event, -, -, -, hamount, hfee, hnet⟩ := h.from_credit j hj
      rw [hnet, hamount, hfee, sub_add_cancel]
    rw [hsum, List.sum_map_add]
    exact (add_sub_cancel_right _ _).symm
  paid := sentFor_succeededJobs h
  settled := congrArg List.sum (List.map_congr_left (sentFor_succeededJobs h))
  complete := fun hall =>
    congrArg List.sum (List.map_congr_left fun j hj => sentFor_succeeded h hj (hall j hj))

theorem inv_of_unpaid (hc : metadata.Consistent w.db) (hjobs : w.db transferJobs = [])
    (hheld : ∀ t ∈ w.transfers, ∀ invoiceId, ¬ ForInvoice invoiceId t) :
    Inv ([] : WorkerLog ι) w where
  consistent := hc
  keys := by simp [hjobs]
  from_credit := by simp [hjobs]
  has_job := fun t ht invoiceId hfor => absurd hfor (hheld t ht invoiceId)
  once := by
    intro invoiceId
    rw [List.filter_eq_nil_iff.mpr fun t ht => by simpa using hheld t ht invoiceId]
    exact Nat.zero_le 1
  succeeded := by simp [hjobs]

/-- In every reachable state the transfers for any invoices together are no more than the
jobs owe, the jobs owe what was credited less the fees, and what each succeeded job owes was
transferred for its invoice, no more and no less. -/
theorem transfers_balanced [DecidableEq ι] (hc : metadata.Consistent w.db)
    (hjobs : w.db transferJobs = [])
    (hheld : ∀ t ∈ w.transfers, ∀ invoiceId, ¬ ForInvoice invoiceId t)
    {c : Config ι Call Call.Answer Failure Unit World}
    (h : Runs (system ι) (.initial w) c) : Balanced c.state :=
  Inv.balanced (kept.inv (inv_of_unpaid hc hjobs hheld) h)

theorem transfers_balanced_lostAnswer : ∃ c,
    playScript {} creditWorld lostAnswer = some c ∧ Balanced c.state ∧
      ((c.state.db transferJobs).map fun j : TransferJobRow => sentFor c.state j.invoiceId) =
        [4950] := by
  have hends : (playScript {} creditWorld lostAnswer).map (fun c =>
      (c.state.db transferJobs).map fun j : TransferJobRow => sentFor c.state j.invoiceId) =
        some [4950] := by decide
  obtain ⟨c, hplay, hc⟩ := Option.map_eq_some_iff.mp hends
  have hruns : Runs (system ℕ) (.initial creditWorld) c :=
    playScript_runs honestInvoices honestTransfers (fun _ _ _ _ _ _ _ h => h.mono fun _ _ => trivial)
      lostAnswer_allowed hplay
  exact ⟨c, hplay, transfers_balanced (by decide) rfl (by simp [creditWorld]) hruns, hc⟩

end StarkbankTrial.TransferBalances
