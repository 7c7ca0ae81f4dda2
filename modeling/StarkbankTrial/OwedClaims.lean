import StarkbankTrial.AttemptLimits
import StarkbankTrial.FailedTransfers

/-!
# The claims that jobs still need

With truthful lookups and answered creations, one claim is enough for a job that is pending or
whose worker stopped. A job with an unknown result may need two, one for a lookup that finds
nothing and one for the creation. Deliveries do no work on a job: they add jobs, and they write
what the provider says about the transfer.
-/
namespace StarkbankTrial.OwedClaims
open Domain RelationalTables DatabaseSchema
open DatabaseSchema.Table
open EventRecording TransferClaims StoreOperations JobChanges ExternalCalls
open TransferWorker (WorkerSettings)
open AttemptLimits (Over)
open FailedTransfers (Free)

def claimsLeft (j : TransferJobRow) : ℕ :=
  match j.status with
  | .pending => 1
  | .processing => 1
  | .unknown => 2
  | .succeeded => 0
  | .permanentFailure => 0

def claimsOwed (db : Database Row) : ℕ := total claimsLeft (db transferJobs)

/-- Whatever waits in the job table has waited long enough. -/
structure Late (db : Database Row) (time : ℤ) : Prop where
  next : ∀ j ∈ db transferJobs, j.nextAttemptAt ≤ time
  leases : ∀ j ∈ db transferJobs, ∀ lease ∈ j.leaseUntil, lease ≤ time

/-- The worker can still get the job done: it has not failed, and if its result is unknown,
either an attempt is left after the lookup, or the transfer is there to be found. -/
def Hopeful (cfg : WorkerSettings) (w : World) (j : TransferJobRow) : Prop :=
  j.status ≠ .permanentFailure ∧ (j.status = .unknown →
    j.attempts + 1 < cfg.transferMaxAttempts ∨ ¬ Free w j.externalId)

/-- What a delivery leaves alone of a job. -/
structure SameWork (j j' : TransferJobRow) : Prop extends SameTransfer j j' where
  status : j'.status = j.status
  attempts : j'.attempts = j.attempts
  leaseUntil : j'.leaseUntil = j.leaseUntil
  nextAttemptAt : j'.nextAttemptAt = j.nextAttemptAt

def JobsStay (db db' : Database Row) : Prop :=
  ∀ j ∈ db transferJobs, ∃ j' ∈ db' transferJobs, SameWork j j'

/-- Each of these jobs is still stored, and is so now. -/
def Each (jobs p : TransferJobRow → Prop) (db : Database Row) : Prop :=
  ∀ j, jobs j → ∃ j' ∈ db transferJobs, SameTransfer j j' ∧ p j'

section
variable {cfg : WorkerSettings} {w w' : World} {db db' db'' : Database Row}
variable {j j' j'' row : TransferJobRow} {jobs p p' : TransferJobRow → Prop}

theorem SameWork.refl (j : TransferJobRow) : SameWork j j := ⟨.refl j, rfl, rfl, rfl, rfl⟩

theorem SameWork.trans (h : SameWork j j') (h' : SameWork j' j'') : SameWork j j'' where
  toSameTransfer := h.toSameTransfer.trans h'.toSameTransfer
  status := h'.status.trans h.status
  attempts := h'.attempts.trans h.attempts
  leaseUntil := h'.leaseUntil.trans h.leaseUntil
  nextAttemptAt := h'.nextAttemptAt.trans h.nextAttemptAt

theorem SameWork.over (h : SameWork j j') (hover : Over j) : Over j' := by
  unfold Over
  rw [h.status]
  exact hover

theorem JobsStay.of_mem (h : ∀ j ∈ db transferJobs, j ∈ db' transferJobs) : JobsStay db db' :=
  fun j hj => ⟨j, h j hj, .refl j⟩

theorem JobsStay.trans (h : JobsStay db db') (h' : JobsStay db' db'') : JobsStay db db'' := by
  intro j hj
  obtain ⟨j', hj', hs⟩ := h j hj
  obtain ⟨j'', hj'', hs'⟩ := h' j' hj'
  exact ⟨j'', hj'', hs.trans hs'⟩

/-! ### Jobs of which something is known -/

theorem Each.imp (h : Each jobs p db) (himp : ∀ j, j ∈ db transferJobs → p j → p' j) :
    Each jobs p' db := by
  intro j hj
  obtain ⟨j', hj', hs, hp⟩ := h j hj
  exact ⟨j', hj', hs, himp j' hj' hp⟩

theorem Each.stay (h : Each jobs p db) (hstay : JobsStay db db')
    (himp : ∀ j j', SameWork j j' → p j → p' j') : Each jobs p' db' := by
  intro j hj
  obtain ⟨j', hj', hs, hp⟩ := h j hj
  obtain ⟨j'', hj'', hs'⟩ := hstay j' hj'
  exact ⟨j'', hj'', hs.trans hs'.toSameTransfer, himp j' j'' hs' hp⟩

/-- An assignment to the job with one id. -/
theorem Each.assigned (h : Each jobs p db) (hc : metadata.Consistent db)
    (hrow : row ∈ db transferJobs) {assign : TransferJobRow → TransferJobRow}
    (hjobs : db' transferJobs = assignWhere (fun j : TransferJobRow => j.id == row.id) assign
      (db transferJobs))
    (hsame : ∀ j, SameTransfer j (assign j))
    (hassign : ∀ j, jobs j → SameTransfer j row → p row → p (assign row)) : Each jobs p db' := by
  intro j hj
  obtain ⟨j', hj', hs, hp⟩ := h j hj
  rw [hjobs]
  by_cases hid : j'.id = row.id
  · obtain rfl := (hc transferJobs).eq_of_key hj' hrow hid
    refine ⟨assign j', mem_assignWhere.mpr (.inl ⟨j', hj', by simp, rfl⟩), hs.trans (hsame j'), ?_⟩
    exact hassign j hj hs hp
  · exact ⟨j', mem_assignWhere.mpr (.inr ⟨hj', by simp [hid]⟩), hs, hp⟩

theorem Hopeful.stay (h : Hopeful cfg w j) (hs : SameWork j j')
    (hheld : ∀ t ∈ w.transfers, ∃ t' ∈ w'.transfers, t'.id = t.id ∧ t'.request = t.request) :
    Hopeful cfg w' j' := by
  unfold Hopeful
  rw [hs.status, hs.attempts, hs.externalId]
  refine ⟨h.1, fun hunknown => (h.2 hunknown).imp_right fun hfound hfree => hfound ?_⟩
  intro t ht hext
  obtain ⟨t', ht', -, hrequest⟩ := hheld t ht
  exact hfree t' ht' (by rw [hrequest, hext])

/-- A job that is over without having failed is paid. -/
theorem Hopeful.succeeded (h : Hopeful cfg w j) (hover : Over j) : j.status = .succeeded :=
  hover.resolve_right h.1

/-- A late claim would take every job that is not over. -/
theorem over_of_not_claimable {claim : JobClaim} (hnext : j.nextAttemptAt ≤ claim.now)
    (hleases : ∀ lease ∈ j.leaseUntil, lease ≤ claim.now)
    (hleased : j.status = .processing → j.leaseUntil.isSome = true)
    (h : claimable claim j = false) : Over j := by
  cases hs : j.status with
  | pending => simp [claimable, hs, hnext] at h
  | unknown => simp [claimable, hs, hnext] at h
  | processing =>
      obtain ⟨lease, hlease⟩ := Option.isSome_iff_exists.mp (hleased hs)
      simp [claimable, hs, hlease, hleases lease hlease] at h
  | succeeded => exact .inl hs
  | permanentFailure => exact .inr hs

theorem not_over_of_claimable {claim : JobClaim} (h : claimable claim j = true) : ¬ Over j := by
  rintro (hs | hs) <;> simp [claimable, hs] at h

/-! ### The claims that are owed -/

theorem claimsOwed_of_eq (hjobs : db' transferJobs = db transferJobs) :
    claimsOwed db' = claimsOwed db := by
  unfold claimsOwed
  rw [hjobs]

theorem claimsOwed_reordered (hdb : Reordered db db') : claimsOwed db' = claimsOwed db :=
  (total_perm (hdb transferJobs)).symm

/-- A recorded event leaves the work alone, and it adds at most one claim. -/
theorem recorded_work {jobId : TransferJobId} {r : EventRecord}
    (h : JobsRecorded jobId r (db transferJobs) (db' transferJobs)) :
    JobsStay db db' ∧ claimsOwed db' ≤ claimsOwed db + 1 := by
  unfold JobsStay claimsOwed
  generalize db' transferJobs = jobs' at h
  cases h with
  | same => exact ⟨fun j hj => ⟨j, hj, .refl j⟩, Nat.le_succ _⟩
  | queued =>
      refine ⟨fun j hj => ⟨j, List.mem_append.mpr (.inl hj), .refl j⟩, ?_⟩
      rw [total_append]
      exact le_rfl
  | @updated event _ =>
      have hleft : ∀ j, claimsLeft (applyLifecycle r event j) = claimsLeft j := fun _ => rfl
      refine ⟨fun j hj => ⟨_, List.mem_map.mpr ⟨j, hj, rfl⟩, ?_⟩,
        (total_assignWhere_le fun j _ _ => (hleft j).le).trans (Nat.le_succ _)⟩
      split_ifs
      · exact ⟨⟨rfl, rfl, rfl, rfl, rfl, rfl, rfl, rfl⟩, rfl, rfl, rfl, rfl⟩
      · exact .refl j

/-- A claim owes no more, and one of an unknown result owes less. -/
theorem claimsOwed_claimed (hc : metadata.Consistent db) {claim : JobClaim}
    (hrow : row ∈ db transferJobs) (hclaimable : claimable claim row = true)
    (hjobs : db' transferJobs = assignWhere (fun j : TransferJobRow => j.id == row.id)
      (claimed claim row) (db transferJobs)) :
    claimsOwed db' ≤ claimsOwed db ∧ (row.status = .unknown → claimsOwed db' < claimsOwed db) := by
  have hone : 1 ≤ claimsLeft row := by
    unfold claimsLeft
    cases hs : row.status <;> simp [claimable, hs] at hclaimable ⊢
  have hle : ∀ j ∈ db transferJobs, (j.id == row.id) = true →
      claimsLeft (claimed claim row j) ≤ claimsLeft j := by
    intro j hj hid
    obtain rfl := (hc transferJobs).eq_of_key hj hrow (beq_iff_eq.mp hid)
    exact hone
  unfold claimsOwed
  rw [hjobs]
  refine ⟨total_assignWhere_le hle, fun hunknown => ?_⟩
  refine total_assignWhere_lt hle hrow (by simp) ?_
  change 1 < claimsLeft row
  simp [claimsLeft, hunknown]

/-- A finish owes less when the job is over, and no more when it is to be tried again. -/
theorem claimsOwed_finished (hc : metadata.Consistent db) {f : JobFinish}
    (hrow : row ∈ db transferJobs) (hstatus : row.status = .processing)
    (hjobs : db' transferJobs = assignWhere (fun j : TransferJobRow => j.id == row.id) f.apply
      (db transferJobs)) :
    (f.status = .pending → claimsOwed db' ≤ claimsOwed db) ∧
      (f.status = .succeeded ∨ f.status = .permanentFailure → claimsOwed db' < claimsOwed db) := by
  have hone : claimsLeft row = 1 := by simp [claimsLeft, hstatus]
  have hle : claimsLeft (f.apply row) ≤ 1 → ∀ j ∈ db transferJobs, (j.id == row.id) = true →
      claimsLeft (f.apply j) ≤ claimsLeft j := by
    intro hf j hj hid
    obtain rfl := (hc transferJobs).eq_of_key hj hrow (beq_iff_eq.mp hid)
    exact hone ▸ hf
  unfold claimsOwed
  rw [hjobs]
  refine ⟨fun hf => total_assignWhere_le (hle ?_), fun hf => ?_⟩
  · simp [claimsLeft, JobFinish.apply, hf]
  · have hzero : claimsLeft (f.apply row) = 0 := by
      rcases hf with hf | hf <;> simp [claimsLeft, JobFinish.apply, hf]
    exact total_assignWhere_lt (hle (by omega)) hrow (by simp) (by omega)

end

end StarkbankTrial.OwedClaims
