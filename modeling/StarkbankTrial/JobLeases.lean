import StarkbankTrial.JobChanges
import StarkbankTrial.ScriptedRuns
import StarkbankTrial.WorkerRules
import StarkbankTrial.Services

/-!
# Leases of transfer jobs

Workers with one lease length, and deliveries, interleaved call by call. Clocks may
differ without a bound; only the readings of one invocation do not go back. A lease is
the only token that a finish shows, and the invariant orders all tokens of a job.

`owner` says to which external id a transfer id belongs: without it, a finish could
fail on the unique constraint of the transfer id instead of answering.
-/
namespace StarkbankTrial.JobLeases
open Domain InteractivePrograms InterleavedRuns RelationalTables DatabaseSchema
open DatabaseSchema.Table
open EventRecording TransferClaims StoreOperations JobChanges ExternalCalls ProviderClient
open TransferWorker WorkerRules Services ScriptedRuns

/-! ### Finishing operations -/

/-- The job and the change of an operation that finishes a job. -/
def finishOf : TransferStoreOp → Option (TransferJob × JobFinish)
  | .succeeded job transfer now => some (job, .succeeded transfer now)
  | .retry job errorCode now delay => some (job, .retry errorCode now delay)
  | .unknown job errorCode now delay => some (job, .unknown errorCode now delay)
  | .failed job errorCode now => some (job, .failed errorCode now)
  | _ => none

/-- What such an operation returned. -/
def finishAnswer : (op : TransferStoreOp) → Except StoreError op.Result → Option Bool
  | .succeeded _ _ _, r => r.toOption
  | .retry _ _ _ _, r => r.toOption
  | .unknown _ _ _ _, r => r.toOption
  | .failed _ _ _, r => r.toOption
  | _, _ => none

theorem finishOf_apply {op : TransferStoreOp} {job : TransferJob} {f : JobFinish}
    (h : finishOf op = some (job, f)) (db : Database Row) :
    finishAnswer op ((StoreOp.transfers op).apply db).1 =
        (atomically metadata (finish job f) db).1.toOption ∧
      ((StoreOp.transfers op).apply db).2 = (atomically metadata (finish job f) db).2 := by
  cases op with
  | claim c => simp [finishOf] at h
  | syncCandidates limit => simp [finishOf] at h
  | refreshProviderStatus jobId transfer now => simp [finishOf] at h
  | _ =>
      obtain ⟨rfl, rfl⟩ := Prod.mk.inj (Option.some.inj h)
      exact ⟨rfl, rfl⟩

/-! ### The history of a log -/

section
variable {ι : Type}

/-- The job that a claim returned. -/
def claimedJob (e : Entry ι Call Call.Answer) : Option TransferJob :=
  match e with
  | ⟨_, .store (.transfers (.claim _)), r⟩ => r.toOption.bind id
  | _ => none

/-- The job of a finish that returned true. -/
def finishedJob (e : Entry ι Call Call.Answer) : Option TransferJob :=
  match e with
  | ⟨_, .store (.transfers op), r⟩ =>
      if finishAnswer op r = some true then (finishOf op).map Prod.fst else none
  | _ => none

end

/-- Claims and applied finishes, latest first. -/
structure History where
  claimed : List TransferJob
  finished : List TransferJob

namespace History

/-- The claims of one job. -/
def claims (h : History) (id : TransferJobId) : List TransferJob :=
  h.claimed.filter fun job => job.id = id

/-- The latest claim of its job, and not finished. -/
def Current (h : History) (job : TransferJob) : Prop :=
  (h.claims job.id).head? = some job ∧ job ∉ h.finished

instance (h : History) (job : TransferJob) : Decidable (h.Current job) :=
  inferInstanceAs (Decidable (_ ∧ _))

def extend (h : History) (claim finish : Option TransferJob) : History where
  claimed := claim.toList ++ h.claimed
  finished := finish.toList ++ h.finished

@[simp] theorem extend_none (h : History) : h.extend none none = h := rfl

theorem mem_claims {h : History} {id : TransferJobId} {job : TransferJob} :
    job ∈ h.claims id ↔ job ∈ h.claimed ∧ job.id = id := by
  simp [claims]

theorem claims_extend_self {h : History} {job : TransferJob} {finish : Option TransferJob} :
    (h.extend (some job) finish).claims job.id = job :: h.claims job.id := by
  simp [claims, extend]

theorem claims_extend_of_ne {h : History} {job : TransferJob} {finish : Option TransferJob}
    {id : TransferJobId} (hne : job.id ≠ id) :
    (h.extend (some job) finish).claims id = h.claims id := by
  simp [claims, extend, hne]

/-- A claim of another job leaves a current claim current. -/
theorem Current.extend {h : History} {job new : TransferJob} (hcur : h.Current job)
    (hne : new.id ≠ job.id) : (h.extend (some new) none).Current job := by
  refine ⟨?_, hcur.2⟩
  rw [claims_extend_of_ne hne]
  exact hcur.1

end History

def history {ι : Type} (l : Log ι Call Call.Answer) : History where
  claimed := l.filterMap claimedJob
  finished := l.filterMap finishedJob

theorem history_cons {ι : Type} (e : Entry ι Call Call.Answer) (l : Log ι Call Call.Answer) :
    history (e :: l) = (history l).extend (claimedJob e) (finishedJob e) := by
  unfold history History.extend
  cases hc : claimedJob e <;> cases hf : finishedJob e <;> simp [hc, hf]

/-- An earlier claim is still in the history. -/
theorem claimed_mono {ι : Type} {l l' : Log ι Call Call.Answer} (h : l <:+ l')
    {job : TransferJob} (hjob : job ∈ (history l).claimed) : job ∈ (history l').claimed :=
  (h.sublist.filterMap claimedJob).subset hjob

/-! ### The invariant -/

/-- How a row stands to the history: it is processed under the latest claim, or that
claim is finished, and a row that may be claimed again waits past its start. -/
inductive Lease (L : ℤ) (h : History) (j : TransferJobRow) : Prop
  | running {job : TransferJob} : j.status = .processing → job.id = j.id → h.Current job →
      j.leaseUntil = some job.leaseUntil → Lease L h j
  | resting : j.status ≠ .processing → j.leaseUntil = none →
      (∀ job, (h.claims j.id).head? = some job → job ∈ h.finished ∧
        (j.status = .pending ∨ j.status = .unknown →
          job.leaseUntil - seconds L < j.nextAttemptAt)) → Lease L h j

/-- Leases grow from claim to claim, and each claim is finished at most once. -/
structure History.Ordered (h : History) : Prop where
  increasing : ∀ id, (h.claims id).Pairwise fun later earlier =>
    earlier.leaseUntil < later.leaseUntil
  finished_claimed : ∀ job ∈ h.finished, job ∈ h.claimed
  finished_once : h.finished.Nodup

structure Inv (L : ℤ) (owner : TransferId → ExternalId) (h : History) (w : World) : Prop where
  consistent : metadata.Consistent w.db
  keys : ∀ j ∈ w.db transferJobs,
    j.externalId = (buildTransferCommand j.invoiceId j.netAmount).externalId
  owned : ∀ j ∈ w.db transferJobs, ∀ id, j.providerTransferId = some id → owner id = j.externalId
  held : ∀ t ∈ w.transfers, owner t.id = t.request.externalId
  rows : ∀ job ∈ h.claimed, ∃ j ∈ w.db transferJobs, j.id = job.id ∧ j.invoiceId = job.invoiceId
  ordered : h.Ordered
  lease : ∀ j ∈ w.db transferJobs, Lease L h j

variable {L : ℤ} {owner : TransferId → ExternalId} {h : History} {w : World}

/-- Two claims of one job with one lease are one claim. -/
theorem History.Ordered.claim_unique (ho : h.Ordered) {a b : TransferJob} (ha : a ∈ h.claimed)
    (hb : b ∈ h.claimed) (hid : a.id = b.id) (hlease : a.leaseUntil = b.leaseUntil) : a = b := by
  have hmem := History.mem_claims.mpr ⟨ha, hid⟩
  have hmem' := History.mem_claims.mpr ⟨hb, rfl⟩
  have hp : ((h.claims b.id).map TransferJob.leaseUntil).Pairwise (fun x y => y < x) :=
    List.pairwise_map.mpr (ho.increasing b.id)
  have hnodup := hp.imp fun {x y} hxy => ne_of_gt hxy
  exact List.inj_on_of_nodup_map hnodup hmem hmem' hlease

/-- The latest claim has the largest lease. -/
theorem History.Ordered.le_head (ho : h.Ordered) {id : TransferJobId} {latest job : TransferJob}
    (hhead : (h.claims id).head? = some latest) (hjob : job ∈ h.claims id) :
    job.leaseUntil ≤ latest.leaseUntil := by
  have hp := ho.increasing id
  cases hcl : h.claims id with
  | nil => simp [hcl] at hhead
  | cons first rest =>
      rw [hcl] at hhead hjob hp
      obtain rfl := Option.some.inj hhead
      rcases List.mem_cons.mp hjob with rfl | hjob
      · exact le_refl _
      · exact le_of_lt ((List.pairwise_cons.mp hp).1 job hjob)

/-- One more applied finish, of a claim that was not finished. -/
theorem History.Ordered.finish (ho : h.Ordered) {job : TransferJob} (hjob : job ∈ h.claimed)
    (hnot : job ∉ h.finished) : (h.extend none (some job)).Ordered where
  increasing := ho.increasing
  finished_claimed job' hjob' := by
    rcases List.mem_cons.mp hjob' with rfl | hjob'
    · exact hjob
    · exact ho.finished_claimed job' hjob'
  finished_once := List.nodup_cons.mpr ⟨hnot, ho.finished_once⟩

/-- One more claim, with a lease beyond the earlier ones of its job. -/
theorem History.Ordered.claim (ho : h.Ordered) {job : TransferJob}
    (hlater : ∀ earlier ∈ h.claims job.id, earlier.leaseUntil < job.leaseUntil) :
    (h.extend (some job) none).Ordered where
  increasing id := by
    by_cases hid : job.id = id
    · subst hid
      rw [History.claims_extend_self]
      exact List.pairwise_cons.mpr ⟨hlater, ho.increasing _⟩
    · rw [History.claims_extend_of_ne hid]
      exact ho.increasing id
  finished_claimed job' hjob' := List.mem_cons_of_mem _ (ho.finished_claimed job' hjob')
  finished_once := ho.finished_once

/-- The columns that a lease is about. -/
theorem Lease.same {j j' : TransferJobRow} (hl : Lease L h j) (hid : j'.id = j.id)
    (hstatus : j'.status = j.status) (hlease : j'.leaseUntil = j.leaseUntil)
    (hnext : j'.nextAttemptAt = j.nextAttemptAt) : Lease L h j' := by
  cases hl with
  | running hs hjob hcur hl =>
      exact .running (hstatus.trans hs) (hjob.trans hid.symm) hcur (hlease.trans hl)
  | resting hs hl hclaims =>
      refine .resting (by rwa [hstatus]) (hlease.trans hl) ?_
      rw [hid, hstatus, hnext]
      exact hclaims

theorem Lease.processing_iff {j : TransferJobRow} (hl : Lease L h j) :
    j.status = .processing ↔ j.leaseUntil.isSome = true := by
  cases hl with
  | running hs _ _ hl => simp [hs, hl]
  | resting hs hl => simp [hs, hl]

/-! ### Finishing -/

/-- What a finish of a claimed job may change. -/
structure Ready (L : ℤ) (owner : TransferId → ExternalId) (h : History) (job : TransferJob)
    (f : JobFinish) : Prop where
  claimed : job ∈ h.claimed
  status : f.status ≠ .processing
  transfer : ∀ id, f.providerTransferId = some id → owner id = (commandOf job).externalId
  next : f.status = .pending ∨ f.status = .unknown →
    job.leaseUntil - seconds L < f.nextAttemptAt

/-- A row carries exactly the latest claim, as long as that is not finished. -/
theorem Inv.heldBy_iff (hinv : Inv L owner h w) {job : TransferJob} (hjob : job ∈ h.claimed)
    {j : TransferJobRow} (hj : j ∈ w.db transferJobs) :
    heldBy job j = true ↔ j.id = job.id ∧ h.Current job := by
  have hheld : heldBy job j = true ↔
      (j.id = job.id ∧ j.status = .processing) ∧ j.leaseUntil = some job.leaseUntil := by
    simp [heldBy]
  rw [hheld]
  cases hinv.lease j hj with
  | running hs hid hcur hl =>
      next latest =>
        constructor
        · rintro ⟨⟨hjid, -⟩, hlease⟩
          have hmem := (History.mem_claims.mp (List.mem_of_head? hcur.1)).1
          have hsame : latest = job := hinv.ordered.claim_unique hmem hjob (hid.trans hjid)
            (Option.some.inj (hl.symm.trans hlease))
          exact ⟨hjid, hsame ▸ hcur⟩
        · rintro ⟨hjid, hcur'⟩
          have hhead := hcur'.1
          rw [← hjid, ← hid, hcur.1] at hhead
          obtain rfl := Option.some.inj hhead
          exact ⟨⟨hjid, hs⟩, hl⟩
  | resting hs hl hclaims =>
      constructor
      · rintro ⟨⟨-, hs'⟩, -⟩
        exact absurd hs' hs
      · rintro ⟨hjid, hcur⟩
        exact absurd (hclaims job (hjid ▸ hcur.1)).1 hcur.2

/-- The assignment of a finish cannot break a constraint. -/
theorem Inv.finish_valid (hinv : Inv L owner h w) {job : TransferJob} {f : JobFinish}
    (hready : Ready L owner h job f) :
    metadata.Valid transferJobs (assignWhere (heldBy job) f.apply (w.db transferJobs)) := by
  have hvalid := hinv.consistent transferJobs
  have hid : ∀ {j : TransferJobRow}, heldBy job j = true → j.id = job.id := by
    intro j hj
    simp only [heldBy, Bool.and_eq_true, beq_iff_eq] at hj
    exact hj.1.1
  -- a transfer id that is stored elsewhere belongs to another external id
  have hother : ∀ a ∈ w.db transferJobs, ∀ b ∈ w.db transferJobs, heldBy job a = true →
      ∀ id, f.providerTransferId = some id → b.providerTransferId = some id → a = b := by
    intro a ha b hb hheld id hf hbid
    obtain ⟨j, hj, hjid, hinvoice⟩ := hinv.rows job hready.claimed
    obtain rfl := hvalid.eq_of_key ha hj ((hid hheld).trans hjid.symm)
    have hext : (buildTransferCommand job.invoiceId job.netAmount).externalId =
        (buildTransferCommand b.invoiceId b.netAmount).externalId := by
      rw [← hinv.keys b hb, ← hinv.owned b hb id hbid]
      exact (hready.transfer id hf).symm
    have hinvoice' := buildTransferCommand_externalId_inj.mp hext
    exact hvalid.eq_of_clash ha hb (by simp [metadata, uniqueConflict, hinvoice, hinvoice'])
  refine hvalid.assignWhere (fun a ha _ => ?_) (fun a ha b hb hc hab hnot => ?_)
    (fun a ha b hb hc hc' hab => ?_)
  · simpa [metadata, rowCheck, JobFinish.apply] using hvalid.1 a ha
  · have hnone : sameNonNull f.providerTransferId b.providerTransferId = false := by
      by_contra hsome
      obtain ⟨id, hf, hbid⟩ := sameNonNull_iff.mp (by simpa using hsome)
      rw [hother a ha b hb hc id hf hbid] at hc
      exact absurd hc (by simp [hnot])
    simp only [metadata, uniqueConflict, Bool.or_eq_false_iff] at hab
    simp only [metadata, uniqueConflict, JobFinish.apply, Bool.or_eq_false_iff]
    exact ⟨hab.1, hnone⟩
  · have hsame := hvalid.eq_of_key ha hb ((hid hc).trans (hid hc').symm)
    rw [hsame, metadata.clash_of_key transferJobs b b rfl] at hab
    exact absurd hab (by simp)

theorem Inv.finish_current (hinv : Inv L owner h w) {job : TransferJob} {f : JobFinish}
    (hready : Ready L owner h job f) (hcur : h.Current job) :
    atomically metadata (finish job f) w.db =
      (.ok true, w.db.set transferJobs (assignWhere (fun j : TransferJobRow => j.id == job.id)
        f.apply (w.db transferJobs))) := by
  have hheld : ∀ j ∈ w.db transferJobs, heldBy job j = (j.id == job.id) := by
    intro j hj
    rw [Bool.eq_iff_iff, hinv.heldBy_iff hready.claimed hj]
    simp [hcur]
  have hassign : assignWhere (heldBy job) f.apply (w.db transferJobs) =
      assignWhere (fun j : TransferJobRow => j.id == job.id) f.apply (w.db transferJobs) :=
    List.map_congr_left fun j hj => by rw [hheld j hj]
  obtain ⟨j, hj, hid, -⟩ := hinv.rows job hready.claimed
  have hone : (w.db transferJobs).filter (heldBy job) = [j] := by
    rw [List.filter_congr hheld]
    refine (hinv.consistent transferJobs).filter_eq_singleton (fun a b ha hb => ?_) hj
      (by simp [hid])
    exact metadata.clash_of_key transferJobs a b
      ((beq_iff_eq.mp ha).trans (beq_iff_eq.mp hb).symm)
  rw [finish_apply, if_pos (hinv.finish_valid hready), hone, hassign]
  rfl

theorem Inv.finish_superseded (hinv : Inv L owner h w) {job : TransferJob} {f : JobFinish}
    (hready : Ready L owner h job f) (hcur : ¬ h.Current job) :
    atomically metadata (finish job f) w.db = (.ok false, w.db) := by
  have hheld : ∀ j ∈ w.db transferJobs, heldBy job j = false := by
    intro j hj
    rw [Bool.eq_false_iff]
    intro hj'
    exact hcur ((hinv.heldBy_iff hready.claimed hj).mp hj').2
  rw [finish_apply, if_pos (hinv.finish_valid hready), assignWhere_none hheld,
    List.filter_eq_nil_iff.mpr fun j hj => by simp [hheld j hj], Database.set_eq_self]
  rfl

/-! ### Steps that keep the invariant -/

/-- Rows that a transaction assigned, under a history that goes on. -/
theorem Inv.assign (hinv : Inv L owner h w) {h' : History} {db' : Database Row}
    {condition : TransferJobRow → Bool} {assign : TransferJobRow → TransferJobRow}
    (hc : metadata.Consistent db')
    (hjobs : db' transferJobs = assignWhere condition assign (w.db transferJobs))
    (hsame : ∀ j, SameTransfer j (assign j))
    (howned : ∀ j ∈ w.db transferJobs, condition j = true →
      ∀ id, (assign j).providerTransferId = some id → owner id = j.externalId)
    (hclaimed : ∀ job ∈ h'.claimed, job ∈ h.claimed ∨
      ∃ j ∈ w.db transferJobs, j.id = job.id ∧ j.invoiceId = job.invoiceId)
    (hordered : h'.Ordered)
    (hlease : ∀ j ∈ w.db transferJobs,
      Lease L h' (if condition j = true then assign j else j)) :
    Inv L owner h' { w with db := db' } := by
  refine ⟨hc, ?_, ?_, hinv.held, ?_, hordered, ?_⟩
  · intro j' (hj' : j' ∈ db' transferJobs)
    rw [hjobs, mem_assignWhere] at hj'
    rcases hj' with ⟨j, hj, -, rfl⟩ | ⟨hj, -⟩
    · rw [(hsame j).externalId, (hsame j).invoiceId]
      exact hinv.keys j hj
    · exact hinv.keys j' hj
  · intro j' (hj' : j' ∈ db' transferJobs) id hid
    rw [hjobs, mem_assignWhere] at hj'
    rcases hj' with ⟨j, hj, hcond, rfl⟩ | ⟨hj, -⟩
    · rw [(hsame j).externalId]
      exact howned j hj hcond id hid
    · exact hinv.owned j' hj id hid
  · intro job hjob
    obtain ⟨j, hj, hid, hinvoice⟩ : ∃ j ∈ w.db transferJobs, j.id = job.id ∧
        j.invoiceId = job.invoiceId := by
      rcases hclaimed job hjob with hjob | hrow
      · exact hinv.rows job hjob
      · exact hrow
    refine ⟨if condition j = true then assign j else j, ?_, ?_⟩
    · change _ ∈ db' transferJobs
      rw [hjobs]
      exact List.mem_map.mpr ⟨j, hj, rfl⟩
    · split_ifs
      · exact ⟨(hsame j).id.trans hid, (hsame j).invoiceId.trans hinvoice⟩
      · exact ⟨hid, hinvoice⟩
  · intro j' (hj' : j' ∈ db' transferJobs)
    rw [hjobs] at hj'
    obtain ⟨j, hj, rfl⟩ := List.mem_map.mp hj'
    exact hlease j hj

/-- An applied finish rests the job under its latest claim. -/
theorem Inv.finished (hinv : Inv L owner h w) {job : TransferJob} {f : JobFinish}
    (hready : Ready L owner h job f) (hcur : h.Current job) :
    Inv L owner (h.extend none (some job))
      { w with db := (atomically metadata (finish job f) w.db).2 } := by
  have hc := atomically_consistent hinv.consistent (finish job f)
  rw [hinv.finish_current hready hcur] at hc ⊢
  have hjobs : (w.db.set transferJobs (assignWhere (fun j : TransferJobRow => j.id == job.id)
      f.apply (w.db transferJobs))) transferJobs = _ := Database.set_self _ _ _
  refine hinv.assign hc hjobs
    (fun j => ⟨rfl, rfl, rfl, rfl, rfl, rfl, rfl, rfl⟩) ?_ (fun job' hjob' => .inl hjob')
    (hinv.ordered.finish hready.claimed hcur.2) ?_
  · intro j hj hid id hf
    obtain ⟨j', hj', hid', hinvoice⟩ := hinv.rows job hready.claimed
    obtain rfl := (hinv.consistent transferJobs).eq_of_key hj hj'
      ((beq_iff_eq.mp hid).trans hid'.symm)
    rw [hready.transfer id hf, hinv.keys j hj]
    exact buildTransferCommand_externalId_inj.mpr hinvoice.symm
  · intro j hj
    split_ifs with hid
    · refine .resting hready.status rfl fun latest hhead => ?_
      change (h.claims j.id).head? = some latest at hhead
      rw [beq_iff_eq.mp hid, hcur.1] at hhead
      obtain rfl := Option.some.inj hhead
      exact ⟨List.mem_cons_self, hready.next⟩
    · cases hinv.lease j hj with
      | running hs hid' hcur' hl =>
          refine .running hs hid' ⟨hcur'.1, fun hmem => ?_⟩ hl
          rcases List.mem_cons.mp hmem with rfl | hmem
          · simp [hid'] at hid
          · exact hcur'.2 hmem
      | resting hs hl hclaims =>
          refine .resting hs hl fun latest hhead => ?_
          obtain ⟨hmem, hnext⟩ := hclaims latest hhead
          exact ⟨List.mem_cons_of_mem _ hmem, hnext⟩

/-- A claim is later than every earlier claim of the job. -/
theorem Inv.claim_later (hinv : Inv L owner h w) (hL : 0 < L) {claim : JobClaim}
    (hlength : claim.leaseUntil = claim.now + seconds L) {row : TransferJobRow}
    (hrow : row ∈ w.db transferJobs) (hclaimable : claimable claim row = true)
    {job : TransferJob} (hjob : job ∈ h.claims row.id) : job.leaseUntil < claim.leaseUntil := by
  have hseconds : 0 < seconds L := by
    unfold seconds
    omega
  simp only [claimable, Bool.or_eq_true, Bool.and_eq_true, beq_iff_eq, decide_eq_true_eq,
    Option.any_eq_true] at hclaimable
  cases hinv.lease row hrow with
  | running hs hid hcur hl =>
      next current =>
        have hle := hinv.ordered.le_head (hid ▸ hcur.1) hjob
        rcases hclaimable with ⟨hstatus, -⟩ | ⟨-, lease, hlease, htime⟩
        · simp [hs] at hstatus
        · obtain rfl := Option.some.inj (hl.symm.trans hlease)
          omega
  | resting hs hl hclaims =>
      obtain ⟨latest, hhead⟩ := Option.ne_none_iff_exists'.mp fun hnone =>
        List.ne_nil_of_mem hjob (List.head?_eq_none_iff.mp hnone)
      have hle := hinv.ordered.le_head hhead hjob
      have hnext := (hclaims latest hhead).2
      rcases hclaimable with ⟨hstatus, htime⟩ | ⟨hs', -⟩
      · have hwait := hnext hstatus
        omega
      · exact absurd hs' hs

/-- The claim and its history. -/
theorem Inv.claim (hinv : Inv L owner h w) (hL : 0 < L) {claim : JobClaim}
    (hlength : claim.leaseUntil = claim.now + seconds L)
    {answer : Except StoreError (Option TransferJob)}
    (hanswer : answer = ((StoreOp.transfers (.claim claim)).apply w.db).1) :
    Inv L owner (h.extend (answer.toOption.bind id) none)
      { w with db := ((StoreOp.transfers (.claim claim)).apply w.db).2 } := by
  rcases claim_apply hinv.consistent claim with ⟨-, hnone⟩ | ⟨row, hrow, hclaimable, hsome⟩
  · rw [hnone] at hanswer ⊢
    subst hanswer
    exact hinv
  · have hc := StoreOp.apply_consistent hinv.consistent (.transfers (.claim claim))
    rw [hsome] at hanswer hc ⊢
    subst hanswer
    have hjobs : (w.db.set transferJobs (assignWhere (fun j : TransferJobRow => j.id == row.id)
        (claimed claim row) (w.db transferJobs))) transferJobs = _ := Database.set_self _ _ _
    have hordered : (h.extend (some (toJob row (row.attempts + 1) claim.leaseUntil)) none).Ordered :=
      hinv.ordered.claim fun job hjob => hinv.claim_later hL hlength hrow hclaimable hjob
    have hnew : toJob row (row.attempts + 1) claim.leaseUntil ∉ h.finished := by
      intro hmem
      have hmem' := hinv.ordered.finished_claimed _ hmem
      have hlater := hinv.claim_later hL hlength hrow hclaimable
        (History.mem_claims.mpr ⟨hmem', rfl⟩)
      exact absurd hlater (lt_irrefl _)
    refine hinv.assign hc hjobs
      (fun j => ⟨rfl, rfl, rfl, rfl, rfl, rfl, rfl, rfl⟩)
      (fun j hj _ id hid => hinv.owned j hj id hid) ?_ hordered ?_
    · intro job hjob
      rcases List.mem_cons.mp hjob with rfl | hjob
      · exact .inr ⟨row, hrow, rfl, rfl⟩
      · exact .inl hjob
    · intro j hj
      split_ifs with hid
      · obtain rfl := (hinv.consistent transferJobs).eq_of_key hj hrow (beq_iff_eq.mp hid)
        refine .running rfl rfl ⟨?_, hnew⟩ rfl
        exact congrArg List.head? History.claims_extend_self
      · have hne : (toJob row (row.attempts + 1) claim.leaseUntil).id ≠ j.id := by
          intro heq
          exact hid (beq_iff_eq.mpr heq.symm)
        cases hinv.lease j hj with
        | running hs hid' hcur hl =>
            exact .running hs hid' (hcur.extend fun heq => hne (heq.trans hid')) hl
        | resting hs hl hclaims =>
            refine .resting hs hl ?_
            change ∀ latest, ((h.extend (some _) none).claims j.id).head? = some latest → _
            rw [History.claims_extend_of_ne hne]
            exact hclaims

/-- A transaction that leaves the jobs alone. -/
theorem Inv.frame (hinv : Inv L owner h w) {db' : Database Row} (hc : metadata.Consistent db')
    (hjobs : db' transferJobs = w.db transferJobs) : Inv L owner h { w with db := db' } := by
  refine ⟨hc, ?_, ?_, hinv.held, ?_, hinv.ordered, ?_⟩ <;> simp only [hjobs]
  · exact hinv.keys
  · exact hinv.owned
  · exact hinv.rows
  · exact hinv.lease

/-- A lifecycle event carries the id of the transfer with its external id. -/
def TrueRecord (owner : TransferId → ExternalId) (r : EventRecord) : Prop :=
  ∀ event, r.event = .lifecycle event → owner event.transferId = event.externalId

/-- Recorded events queue jobs that nobody has claimed and leave every lease alone. -/
theorem Inv.record (hinv : Inv L owner h w) {jobId : TransferJobId} {r : EventRecord}
    (htrue : TrueRecord owner r) :
    Inv L owner h { w with db := ((StoreOp.events (.record jobId r)).apply w.db).2 } := by
  have hc := StoreOp.apply_consistent hinv.consistent (.events (.record jobId r))
  have hrecorded := record_apply_jobs jobId r w.db
  generalize hdb : ((StoreOp.events (.record jobId r)).apply w.db).2 = db' at hc hrecorded ⊢
  generalize hrows : db' transferJobs = jobs' at hrecorded
  cases hrecorded with
  | same => exact hinv.frame hc hrows
  | queued hevent hnet =>
      next event net =>
        have hmem : ∀ j, j ∈ db' transferJobs ↔
            j ∈ w.db transferJobs ∨ j = newJob jobId event net r.receivedAt := by
          intro j
          rw [hrows, List.mem_append, List.mem_singleton]
        have hunclaimed : h.claims jobId = [] := by
          refine List.filter_eq_nil_iff.mpr fun job hjob hid => ?_
          obtain ⟨j, hj, hjid, -⟩ := hinv.rows job hjob
          have hpairs := (hc transferJobs).2
          rw [hrows] at hpairs
          have hclash := (List.pairwise_append.mp hpairs).2.2 j hj _ (List.mem_singleton.mpr rfl)
          have hkey : j.id = jobId := hjid.trans (by simpa using hid)
          rw [metadata.clash_of_key transferJobs j (newJob jobId event net r.receivedAt) hkey]
            at hclash
          exact Bool.noConfusion hclash
        refine ⟨hc, ?_, ?_, hinv.held, ?_, hinv.ordered, ?_⟩
        · intro j hj
          rcases (hmem j).mp hj with hj | rfl
          · exact hinv.keys j hj
          · rfl
        · intro j hj id hid
          rcases (hmem j).mp hj with hj | rfl
          · exact hinv.owned j hj id hid
          · simp [newJob] at hid
        · intro job hjob
          obtain ⟨j, hj, hrest⟩ := hinv.rows job hjob
          exact ⟨j, (hmem j).mpr (.inl hj), hrest⟩
        · intro j hj
          rcases (hmem j).mp hj with hj | rfl
          · exact hinv.lease j hj
          · refine .resting (by simp [newJob]) rfl fun latest hhead => ?_
            change (h.claims jobId).head? = some latest at hhead
            simp [hunclaimed] at hhead
  | updated hevent =>
      next event =>
        refine hinv.assign hc hrows (fun j => ⟨rfl, rfl, rfl, rfl, rfl, rfl, rfl, rfl⟩) ?_
          (fun job hjob => .inl hjob) hinv.ordered ?_
        · intro j _ hext id hid
          obtain rfl := Option.some.inj hid
          rw [htrue event hevent]
          exact (beq_iff_eq.mp hext).symm
        · intro j hj
          split_ifs
          · exact (hinv.lease j hj).same rfl rfl rfl rfl
          · exact hinv.lease j hj

theorem Inv.drift (hinv : Inv L owner h w) {w' : World} (hdb : Reordered w.db w'.db)
    (hheld : ∀ t ∈ w'.transfers, owner t.id = t.request.externalId) : Inv L owner h w' where
  consistent := hdb.consistent hinv.consistent
  keys j hj := hinv.keys j (hdb.mem.mp hj)
  owned j hj := hinv.owned j (hdb.mem.mp hj)
  held := hheld
  rows job hjob := by
    obtain ⟨j, hj, hrest⟩ := hinv.rows job hjob
    exact ⟨j, hdb.mem.mpr hj, hrest⟩
  ordered := hinv.ordered
  lease j hj := hinv.lease j (hdb.mem.mp hj)

/-! ### The system -/

/-- New transfers get ids of their own, and a lookup lists what is held. -/
def provider (owner : TransferId → ExternalId) : Provider where
  invoiceCreate _ _ _ _ := True
  invoiceQuery _ _ _ _ := True
  transferCreate w request answer held :=
    (∀ t, answer.head? = some (.ok t) → owner t.id = request.externalId) ∧
      ∀ t ∈ held, t ∈ w.transfers ∨ owner t.id = t.request.externalId
  transferQuery w _ _ answer :=
    ∀ item, .ok item ∈ answer → ∃ t ∈ w.transfers, t.id = item.id ∧
      t.request.externalId = item.externalId

def TrueDelivery (owner : TransferId → ExternalId) : Delivery → Prop
  | .verified (.lifecycle event) _ => owner event.transferId = event.externalId
  | _ => True

section
variable (ι : Type) (L : ℤ) (owner : TransferId → ExternalId)

abbrev LeaseLog := Log ι Call Call.Answer

/-- What a process read from its clock. -/
def reading {ι : Type} (e : Entry ι Call Call.Answer) : Option ℤ :=
  match e with
  | ⟨_, .now, t⟩ => some t
  | _ => none

/-- The clock of a process does not go back. -/
def Steady {ι : Type} (l : LeaseLog ι) (i : ι) (t : ℤ) : Prop :=
  ∀ e ∈ l, e.process = i → ∀ earlier ∈ reading e, earlier ≤ t

instance {ι : Type} [DecidableEq ι] (l : LeaseLog ι) (i : ι) (t : ℤ) : Decidable (Steady l i t) :=
  inferInstanceAs (Decidable (∀ e ∈ l, e.process = i → ∀ earlier ∈ reading e, earlier ≤ t))

/-- Workers with the lease length and a positive backoff, and deliveries. -/
inductive Admitted : Service Unit → Prop
  | worker (cfg : WorkerSettings) : cfg.leaseSeconds = L → 0 < cfg.retryBaseSeconds →
      Admitted (processOne cfg).discard
  | delivery (jobId : TransferJobId) (delivery : Delivery) : TrueDelivery owner delivery →
      Admitted (receive jobId delivery).discard

def system : System ι Call Call.Answer Failure Unit World where
  admits _ _ _ p := Admitted L owner p
  exec l w i call r w' := Performs (provider owner) (Steady l i) w call r w'
  drift _ w w' := Reordered w.db w'.db ∧ ∀ t ∈ w'.transfers, owner t.id = t.request.externalId
  dies _ w _ w' := w' = w

/-- The store operations that the programs come to. -/
inductive Issued (h : History) : StoreOp → Prop
  | claim {claim : JobClaim} : claim.leaseUntil = claim.now + seconds L →
      Issued h (.transfers (.claim claim))
  | finish {op : TransferStoreOp} {job : TransferJob} {f : JobFinish} :
      finishOf op = some (job, f) → Ready L owner h job f → Issued h (.transfers op)
  | record {jobId : TransferJobId} {r : EventRecord} : TrueRecord owner r →
      Issued h (.events (.record jobId r))
  | ignoredWorkspace {r : EventRecord} : Issued h (.events (.recordIgnoredWorkspace r))

def protocol : Protocol ι Call Call.Answer Failure Unit World where
  toSystem := system ι L owner
  inv l w := Inv L owner (history l) w
  rely _ l _ l' _ := l <:+ l'
  demand _ call l _ :=
    match call with
    | .store op => Issued L owner (history l) op
    | _ => True

end

variable {ι : Type} {i : ι} {l : LeaseLog ι}

/-- Each operation, with the entry that it leaves in the log. -/
theorem Inv.issued (hinv : Inv L owner (history l) w) (hL : 0 < L) {op : StoreOp}
    (hop : Issued L owner (history l) op) :
    Inv L owner (history (⟨i, .store op, (op.apply w.db).1⟩ :: l))
      { w with db := (op.apply w.db).2 } := by
  rw [history_cons]
  cases hop with
  | claim hlength => exact hinv.claim hL hlength rfl
  | @finish op job f hfinish hready =>
      obtain ⟨hanswer, hdb⟩ := finishOf_apply hfinish w.db
      have hclaimed : claimedJob (⟨i, .store (.transfers op),
          ((StoreOp.transfers op).apply w.db).1⟩ : Entry ι Call Call.Answer) = none := by
        cases op with
        | claim c => simp [finishOf] at hfinish
        | _ => rfl
      simp only [hclaimed, finishedJob, hanswer, hfinish, hdb]
      by_cases hcur : (history l).Current job
      · have hfinished := hinv.finished hready hcur
        rw [hinv.finish_current hready hcur] at hfinished ⊢
        exact hfinished
      · rw [hinv.finish_superseded hready hcur]
        exact hinv
  | record htrue => exact hinv.record htrue
  | ignoredWorkspace =>
      exact hinv.frame (StoreOp.apply_consistent hinv.consistent _)
        (recordIgnoredWorkspace_apply_jobs _ w.db)

/-- One call of a program, from what it does to the world. -/
theorem triple_of {pre : LeaseLog ι → World → Prop} {call : Call}
    {result : call.Answer → LeaseLog ι → World → Prop}
    (hstable : (protocol ι L owner).Stable i pre)
    (hdemand : ∀ l w, pre l w → (protocol ι L owner).demand i call l w)
    (h : ∀ l w r w', pre l w → Inv L owner (history l) w →
      Performs (provider owner) (Steady l i) w call r w' →
      Inv L owner (history (⟨i, call, r⟩ :: l)) w' ∧ result r (⟨i, call, r⟩ :: l) w') :
    (protocol ι L owner).Triple i pre call result where
  stable := hstable
  demand l w hpre _ := hdemand l w hpre
  keeps l w r w' hpre hi he := ⟨(h l w r w' hpre hi he).1, fun _ _ => List.suffix_cons _ _⟩
  result l w r w' hpre hi he := (h l w r w' hpre hi he).2

theorem triple_store (hL : 0 < L) {pre : LeaseLog ι → World → Prop} {op : StoreOp}
    (hstable : (protocol ι L owner).Stable i pre)
    (hop : ∀ l w, pre l w → Issued L owner (history l) op) :
    (protocol ι L owner).Triple i pre (.store op) fun _ _ _ => True := by
  refine triple_of hstable hop fun l w r w' hpre hi he => ⟨?_, trivial⟩
  obtain ⟨rfl, rfl⟩ := he
  exact hi.issued hL (hop l w hpre)

theorem sound : (protocol ι L owner).Sound where
  rely_refl _ _ _ := List.suffix_rfl
  rely_trans _ _ _ _ _ _ _ h h' := List.IsSuffix.trans h h'
  drift_keeps _ _ _ h hd := ⟨Inv.drift h hd.1 hd.2, fun _ => List.suffix_rfl⟩
  dies_keeps := by
    rintro l w i w' h rfl
    exact ⟨h, fun _ _ => List.suffix_rfl⟩

theorem seconds_pos {n : ℤ} (hn : 0 < n) : 0 < seconds n := by
  unfold seconds
  omega

theorem backoff_pos {cfg : WorkerSettings} (hbase : 0 < cfg.retryBaseSeconds)
    (job : TransferJob) : 0 < TransferWorker.backoff cfg job :=
  seconds_pos (Int.mul_pos hbase (Int.pow_pos (by decide)))

/-- A claimed job of which the process read the clock again. -/
def Held (L : ℤ) (job : TransferJob) (time : ℤ) (l : LeaseLog ι) (_ : World) : Prop :=
  job ∈ (history l).claimed ∧ job.leaseUntil - seconds L ≤ time

theorem Held.stable (i : ι) (job : TransferJob) (time : ℤ) :
    (protocol ι L owner).Stable i (Held L job time) :=
  fun _ _ _ _ h hr _ => ⟨claimed_mono hr h.1, h.2⟩

theorem claimedRules (hL : 0 < L) (i : ι) {cfg : WorkerSettings}
    (hbase : 0 < cfg.retryBaseSeconds) (job : TransferJob) (time : ℤ) :
    ClaimedRules (protocol ι L owner) i cfg job time (Held L job time)
      (fun t _ _ => owner t.id = (commandOf job).externalId) where
  query := by
    refine triple_of (Held.stable i job time) (fun _ _ _ => trivial)
      fun l w answer w' hheld hi he => ?_
    obtain ⟨hlisted, rfl⟩ := he
    refine ⟨hi, hheld, fun t ht => ?_⟩
    obtain ⟨item, hitem, hext, rfl⟩ := firstWithExternalId_mem ht
    obtain ⟨x, hx, hid, hxExt⟩ := hlisted item hitem
    change owner item.id = _
    rw [← hid]
    exact (hi.held x hx).trans (hxExt.trans hext)
  create := by
    refine triple_of (Held.stable i job time) (fun _ _ _ => trivial)
      fun l w answer w' hheld hi he => ?_
    obtain ⟨held, ⟨hanswer, hnew⟩, rfl⟩ := he
    refine ⟨hi.drift (fun t => .refl _) fun t ht => ?_, hheld, fun t ht => hanswer t ht⟩
    rcases hnew t ht with ht | ht
    · exact hi.held t ht
    · exact ht
  succeeded t := by
    refine triple_store hL (fun l w l' w' h hr hi => ⟨Held.stable i job time l w l' w' h.1 hr hi,
      h.2⟩) fun l w ⟨hheld, hgood⟩ => .finish rfl ⟨hheld.1, by simp [JobFinish.succeeded], ?_, ?_⟩
    · intro id hid
      obtain rfl := Option.some.inj hid
      exact hgood
    · simp [JobFinish.succeeded]
  failed code := by
    refine triple_store hL (Held.stable i job time) fun l w hheld =>
      .finish rfl ⟨hheld.1, by simp [JobFinish.failed], ?_, ?_⟩
    · simp [JobFinish.failed]
    · simp [JobFinish.failed]
  retry code := by
    refine triple_store hL (Held.stable i job time) fun l w hheld =>
      .finish rfl ⟨hheld.1, by simp [JobFinish.retry], ?_, fun _ => ?_⟩
    · simp [JobFinish.retry]
    · have hdelay := backoff_pos hbase job
      have htime := hheld.2
      simp only [JobFinish.retry]
      omega
  unknown code := by
    refine triple_store hL (Held.stable i job time) fun l w hheld =>
      .finish rfl ⟨hheld.1, by simp [JobFinish.unknown], ?_, fun _ => ?_⟩
    · simp [JobFinish.unknown]
    · have hdelay := backoff_pos hbase job
      have htime := hheld.2
      simp only [JobFinish.unknown]
      omega

/-- The first reading of an invocation is in the log. -/
def Read (i : ι) (time : ℤ) (l : LeaseLog ι) (_ : World) : Prop :=
  ⟨i, .now, time⟩ ∈ l

/-- A claim from that reading on. -/
def Leased (L : ℤ) (i : ι) (job : TransferJob) (l : LeaseLog ι) (_ : World) : Prop :=
  job ∈ (history l).claimed ∧ ∃ time, ⟨i, .now, time⟩ ∈ l ∧ job.leaseUntil = time + seconds L

theorem Read.stable (i : ι) (time : ℤ) : (protocol ι L owner).Stable i (Read i time) :=
  fun _ _ _ _ h hr _ => List.IsSuffix.subset hr h

theorem Leased.stable (i : ι) (job : TransferJob) :
    (protocol ι L owner).Stable i (Leased L i job) := by
  rintro l w l' w' ⟨hjob, time, hread, hlease⟩ hr -
  exact ⟨claimed_mono hr hjob, time, List.IsSuffix.subset hr hread, hlease⟩

theorem triple_now {pre : LeaseLog ι → World → Prop}
    {result : ℤ → LeaseLog ι → World → Prop} (hstable : (protocol ι L owner).Stable i pre)
    (h : ∀ l w time, pre l w → Steady l i time → result time (⟨i, .now, time⟩ :: l) w) :
    (protocol ι L owner).Triple i pre .now result := by
  refine triple_of hstable (fun _ _ _ => trivial) fun l w time w' hpre hi he => ?_
  obtain ⟨hsteady, rfl⟩ := he
  exact ⟨hi, h l w' time hpre hsteady⟩

theorem stable_true (i : ι) : (protocol ι L owner).Stable i fun _ _ => True :=
  fun _ _ _ _ _ _ _ => trivial

theorem processRules (hL : 0 < L) (i : ι) {cfg : WorkerSettings} (hlength : cfg.leaseSeconds = L)
    (hbase : 0 < cfg.retryBaseSeconds) :
    ProcessRules (protocol ι L owner) i cfg (fun _ _ => True) (Read i) (Leased L i)
      (Held L) (fun job t _ _ => owner t.id = (commandOf job).externalId) where
  now := triple_now (stable_true i) fun l w time _ _ => List.mem_cons_self
  claim time := by
    have hop : ∀ h, Issued L owner h (.transfers (.claim
        ⟨time, time + seconds cfg.leaseSeconds⟩)) := fun h => .claim (by simp [hlength])
    refine triple_of (Read.stable i time) (fun l _ _ => hop (history l))
      fun l w r w' hread hi he => ?_
    obtain ⟨rfl, rfl⟩ := he
    refine ⟨hi.issued hL (hop _), fun job hr => ⟨?_, time, List.mem_cons_of_mem _ hread, ?_⟩⟩
    · rw [history_cons, hr]
      exact List.mem_cons_self
    · rcases claim_apply hi.consistent ⟨time, time + seconds cfg.leaseSeconds⟩ with
        ⟨-, hnone⟩ | ⟨row, -, -, hsome⟩
      · rw [hnone] at hr
        simp at hr
      · rw [hsome] at hr
        obtain rfl := Option.some.inj (Except.ok.inj hr)
        simp [toJob, hlength]
  nowAgain job := by
    refine triple_now (Leased.stable i job) ?_
    rintro l w time ⟨hjob, earlier, hread, hlease⟩ hsteady
    have hle := hsteady _ hread rfl earlier rfl
    exact ⟨hjob, by omega⟩
  claimed := claimedRules hL i hbase

theorem TrueDelivery.receivedRecord {event : VerifiedEvent} {payloadHash : String} {time : ℤ}
    (h : TrueDelivery owner (.verified event payloadHash)) :
    TrueRecord owner (receivedRecord event payloadHash time) := by
  rintro lifecycle rfl
  exact h

theorem deliveryRules (hL : 0 < L) (i : ι) (jobId : TransferJobId) {delivery : Delivery}
    (htrue : TrueDelivery owner delivery) :
    DeliveryRules (protocol ι L owner) i jobId delivery (fun _ _ => True)
      (fun _ _ _ => True) where
  now := triple_now (stable_true i) fun _ _ _ _ _ => trivial
  record _ _ _ hdelivery :=
    triple_store hL (stable_true i) fun _ _ _ => .record (hdelivery ▸ htrue).receivedRecord
  ignored _ _ _ _ := triple_store hL (stable_true i) fun _ _ _ => .ignoredWorkspace

/-! ### Every interleaving -/

/-- Jobs before any worker of the run has claimed one. -/
structure Unclaimed (owner : TransferId → ExternalId) (w : World) : Prop where
  consistent : metadata.Consistent w.db
  keys : ∀ j ∈ w.db transferJobs,
    j.externalId = (buildTransferCommand j.invoiceId j.netAmount).externalId
  owned : ∀ j ∈ w.db transferJobs, ∀ id, j.providerTransferId = some id → owner id = j.externalId
  held : ∀ t ∈ w.transfers, owner t.id = t.request.externalId
  unclaimed : ∀ j ∈ w.db transferJobs, j.status ≠ .processing ∧ j.leaseUntil = none

theorem Unclaimed.inv (h : Unclaimed owner w) : Inv L owner (history ([] : LeaseLog ι)) w where
  consistent := h.consistent
  keys := h.keys
  owned := h.owned
  held := h.held
  rows := by simp [history]
  ordered := ⟨by simp [history, History.claims], by simp [history], by simp [history]⟩
  lease j hj := .resting (h.unclaimed j hj).1 (h.unclaimed j hj).2
    (by simp [history, History.claims])

theorem kept (hL : 0 < L) : (protocol ι L owner).Kept Unconditionally fun _ => Anything where
  toSound := sound
  begins := by
    rintro l w i p - - hadmitted
    cases hadmitted with
    | worker cfg hlength hbase =>
        exact discard_ensures sound
          ((processRules hL i hlength hbase).processOne_ensures trivial)
    | delivery jobId delivery htrue =>
        exact discard_ensures sound ((deliveryRules hL i jobId htrue).receive_ensures trivial)

/-- Jobs that ended stay as they ended. -/
def EndedKept (jobs jobs' : List TransferJobRow) : Prop :=
  ∀ j ∈ jobs, j.status = .succeeded ∨ j.status = .permanentFailure →
    ∃ j' ∈ jobs', j'.id = j.id ∧ j'.status = j.status

theorem EndedKept.refl (jobs : List TransferJobRow) : EndedKept jobs jobs :=
  fun j hj _ => ⟨j, hj, rfl, rfl⟩

theorem EndedKept.trans {jobs jobs' jobs'' : List TransferJobRow} (h : EndedKept jobs jobs')
    (h' : EndedKept jobs' jobs'') : EndedKept jobs jobs'' := by
  intro j hj hs
  obtain ⟨j', hj', hid, hstatus⟩ := h j hj hs
  obtain ⟨j'', hj'', hid', hstatus'⟩ := h' j' hj' (hstatus ▸ hs)
  exact ⟨j'', hj'', hid'.trans hid, hstatus'.trans hstatus⟩

/-- An assignment that takes only unfinished jobs. -/
theorem EndedKept.assign {jobs : List TransferJobRow} {condition : TransferJobRow → Bool}
    {assign : TransferJobRow → TransferJobRow}
    (hskip : ∀ j ∈ jobs, condition j = true →
      j.status ≠ .succeeded ∧ j.status ≠ .permanentFailure) :
    EndedKept jobs (assignWhere condition assign jobs) := by
  intro j hj hs
  refine ⟨j, mem_assignWhere.mpr (.inr ⟨hj, ?_⟩), rfl, rfl⟩
  rw [Bool.eq_false_iff]
  intro hcond
  exact hs.elim (hskip j hj hcond).1 (hskip j hj hcond).2

theorem EndedKept.recorded {jobId : TransferJobId} {r : EventRecord}
    {jobs jobs' : List TransferJobRow} (hrecorded : JobsRecorded jobId r jobs jobs') :
    EndedKept jobs jobs' := by
  intro j hj _
  cases hrecorded with
  | same => exact ⟨j, hj, rfl, rfl⟩
  | queued => exact ⟨j, List.mem_append.mpr (.inl hj), rfl, rfl⟩
  | updated =>
      refine ⟨_, List.mem_map.mpr ⟨j, hj, rfl⟩, ?_⟩
      split_ifs <;> exact ⟨rfl, rfl⟩

theorem Issued.endedKept {db : Database Row} (hc : metadata.Consistent db) {op : StoreOp}
    (hop : Issued L owner h op) : EndedKept (db transferJobs) ((op.apply db).2 transferJobs) := by
  cases hop with
  | @claim claim _ =>
      rcases claim_apply hc claim with ⟨-, hnone⟩ | ⟨row, hrow, hclaimable, hsome⟩
      · rw [hnone]
        exact .refl _
      · rw [hsome]
        change EndedKept _ ((db.set transferJobs _) transferJobs)
        rw [Database.set_self]
        refine .assign fun j hj hid => ?_
        obtain rfl := (hc transferJobs).eq_of_key hj hrow (beq_iff_eq.mp hid)
        cases hs : j.status <;> simp [claimable, hs] at hclaimable ⊢
  | finish hfinish _ =>
      rw [(finishOf_apply hfinish db).2, finish_apply]
      split_ifs
      · change EndedKept _ ((db.set transferJobs _) transferJobs)
        rw [Database.set_self]
        refine .assign fun j _ hheld => ?_
        simp only [heldBy, Bool.and_eq_true, beq_iff_eq] at hheld
        simp [hheld.1.2]
      · exact .refl _
  | record _ => exact .recorded (record_apply_jobs _ _ db)
  | ignoredWorkspace =>
      rw [recordIgnoredWorkspace_apply_jobs]
      exact .refl _

/-- What a finish does where a process is about to perform it. -/
structure FinishFenced (h : History) (db : Database Row) (op : TransferStoreOp)
    (job : TransferJob) (f : JobFinish) : Prop where
  claimed : job ∈ h.claimed
  current : h.Current job → finishAnswer op ((StoreOp.transfers op).apply db).1 = some true ∧
    ((StoreOp.transfers op).apply db).2 = db.set transferJobs
      (assignWhere (fun j : TransferJobRow => j.id == job.id) f.apply (db transferJobs)) ∧
    ∃ j ∈ db transferJobs, j.id = job.id ∧ j.status = .processing ∧ f.status ≠ .processing
  superseded : ¬ h.Current job →
    finishAnswer op ((StoreOp.transfers op).apply db).1 = some false ∧
      ((StoreOp.transfers op).apply db).2 = db

structure LeasesFenced [DecidableEq ι] (L : ℤ) (owner : TransferId → ExternalId)
    (c : Config ι Call Call.Answer Failure Unit World) : Prop where
  increasing : ∀ id, ((history c.log).claims id).Pairwise fun later earlier =>
    earlier.leaseUntil < later.leaseUntil
  processing : ∀ j ∈ c.state.db transferJobs,
    j.status = .processing ↔ j.leaseUntil.isSome = true
  finish : ∀ i op next job f, c.procs i = some (.call (.store (.transfers op)) next) →
    finishOf op = some (job, f) → FinishFenced (history c.log) c.state.db op job f
  finished_once : (history c.log).finished.Nodup
  ended : ∀ d, Runs (system ι L owner) c d → EndedKept (c.state.db transferJobs) (d.state.db transferJobs)

theorem Inv.finishFenced (hinv : Inv L owner h w) {op : TransferStoreOp} {job : TransferJob}
    {f : JobFinish} (hfinish : finishOf op = some (job, f)) (hop : Issued L owner h (.transfers op)) :
    FinishFenced h w.db op job f := by
  have hready : Ready L owner h job f := by
    cases hop with
    | claim => simp [finishOf] at hfinish
    | finish hfinish' hready =>
        rw [hfinish'] at hfinish
        obtain ⟨rfl, rfl⟩ := Prod.mk.inj (Option.some.inj hfinish)
        exact hready
  obtain ⟨hanswer, hdb⟩ := finishOf_apply hfinish w.db
  refine ⟨hready.claimed, fun hcur => ?_, fun hcur => ?_⟩
  · rw [hinv.finish_current hready hcur] at hanswer hdb
    refine ⟨hanswer, hdb, ?_⟩
    obtain ⟨j, hj, hid, -⟩ := hinv.rows job hready.claimed
    have hheld := (hinv.heldBy_iff hready.claimed hj).mpr ⟨hid, hcur⟩
    simp only [heldBy, Bool.and_eq_true, beq_iff_eq] at hheld
    exact ⟨j, hj, hid, hheld.1.2, hready.status⟩
  · rw [hinv.finish_superseded hready hcur] at hanswer hdb
    exact ⟨hanswer, hdb⟩

/-- Leases of one job grow, they mark the jobs in work, and a finish counts exactly when
it shows the latest claim for the first time. -/
theorem leases_fenced [DecidableEq ι] (hL : 0 < L) (hstart : Unclaimed owner w)
    {c : Config ι Call Call.Answer Failure Unit World}
    (hc : Runs (system ι L owner) (.initial w) c) : LeasesFenced L owner c := by
  have hinv : Inv L owner (history c.log) c.state := (kept hL).inv hstart.inv hc
  refine ⟨hinv.ordered.increasing, fun j hj => (hinv.lease j hj).processing_iff, ?_,
    hinv.ordered.finished_once, fun d hd => ?_⟩
  · intro i op next job f hi hfinish
    exact hinv.finishFenced hfinish ((kept hL).demand hstart.inv hc hi)
  · refine (kept hL).rel hstart.inv
      (fun w w' => EndedKept (w.db transferJobs) (w'.db transferJobs)) (fun w => .refl _)
      (fun _ _ _ h h' => h.trans h') ?_ ?_ ?_ hc hd
    · intro l w i call r w' hi hd he
      cases call with
      | store op =>
          obtain ⟨-, rfl⟩ := he
          exact Issued.endedKept (Inv.consistent hi) hd
      | now => exact he.2 ▸ .refl _
      | invoiceCreate request =>
          obtain ⟨held, -, rfl⟩ := he
          exact .refl _
      | invoiceQuery limit tags => exact he.2 ▸ .refl _
      | transferCreate request =>
          obtain ⟨held, -, rfl⟩ := he
          exact .refl _
      | transferQuery limit tags => exact he.2 ▸ .refl _
    · intro l w w' _ hd j hj _
      exact ⟨j, hd.1.mem.mpr hj, rfl, rfl⟩
    · rintro l w i w' - rfl
      exact .refl _

/-! ### A run with a late finish -/

/-- The only transfer id of the run. -/
def creditOwner (_ : TransferId) : ExternalId := "trial-transfer-i"

def lateRules : ScriptRules ℕ where
  clock l _ i t := decide (Steady l i t)
  transfer request id := creditOwner id == request.externalId

theorem honestInvoices : HonestInvoices lateRules (provider creditOwner) :=
  ⟨fun _ _ _ _ => trivial, fun _ _ _ _ _ _ => trivial, fun _ _ _ => trivial,
    fun _ _ _ => trivial, fun _ _ _ _ => trivial⟩

theorem honestTransfers : HonestTransfers lateRules (provider creditOwner) where
  created w request id _ hid := by
    have howner : creditOwner id = request.externalId := by simpa [lateRules] using hid
    refine ⟨fun t ht => ?_, fun t ht => ?_⟩
    · obtain rfl : (⟨id, request.externalId, "created"⟩ : SdkTransfer) = t := by simpa using ht
      exact howner
    · rcases List.mem_append.mp ht with ht | ht
      · exact .inl ht
      · exact .inr (List.mem_singleton.mp ht ▸ howner)
  lost w request id _ _ hid _ := by
    have howner : creditOwner id = request.externalId := by simpa [lateRules] using hid
    refine ⟨by simp, fun t ht => ?_⟩
    rcases List.mem_append.mp ht with ht | ht
    · exact .inl ht
    · exact .inr (List.mem_singleton.mp ht ▸ howner)
  refused _ _ _ := ⟨by simp, fun _ ht => .inl ht⟩
  failed _ _ _ _ := ⟨by simp, fun _ ht => .inl ht⟩
  listed w limit tags _ := by
    intro item hitem
    obtain ⟨t, ht, heq⟩ := List.mem_map.mp hitem
    obtain rfl := Except.ok.inj heq
    exact ⟨t, (List.mem_filter.mp (List.mem_of_mem_take ht)).1, rfl, rfl⟩
  unlisted _ _ _ _ := by
    intro item hitem
    simp at hitem

/-- The first worker is slow: its lease runs out, a second worker finishes the job, and
the first one stands before its own finish. -/
def lateFinish : List (ScriptedMove ℕ) :=
  [.begin 0 (receive "j" creditDelivery).discard, .call 0 (.clock 0), .call 0 .commit,
    .begin 1 (processOne {}).discard, .call 1 (.clock 1), .call 1 .commit,
    .begin 2 (processOne {}).discard, .call 2 (.clock (seconds 200)), .call 2 .commit,
    .call 2 (.clock (seconds 200)), .call 2 .lookup, .call 2 (.created "t"), .call 2 .commit,
    .call 1 (.clock 2), .call 1 .lookup, .call 1 .commit]

theorem lateFinish_allowed : ∀ m ∈ lateFinish, m.Allowed (system ℕ 120 creditOwner) := by
  have hworker : Admitted 120 creditOwner (processOne {}).discard :=
    .worker {} rfl (by decide)
  have hdelivery : Admitted 120 creditOwner (receive "j" creditDelivery).discard :=
    .delivery "j" creditDelivery trivial
  simp [lateFinish, Move.Allowed, system, hworker, hdelivery]

theorem leases_fenced_lateFinish : ∃ c,
    playScript lateRules creditWorld lateFinish = some c ∧ LeasesFenced 120 creditOwner c ∧
      (history c.log).claimed.map TransferJob.leaseUntil = [seconds 320, seconds 120 + 1] ∧
      (history c.log).finished.map TransferJob.leaseUntil = [seconds 320] ∧
      (c.state.db transferJobs).map TransferJobRow.status = [.succeeded] := by
  have hends : (playScript lateRules creditWorld lateFinish).map (fun c =>
      ((history c.log).claimed.map TransferJob.leaseUntil,
        (history c.log).finished.map TransferJob.leaseUntil,
        (c.state.db transferJobs).map TransferJobRow.status)) =
      some ([seconds 320, seconds 120 + 1], [seconds 320], [.succeeded]) := by decide
  obtain ⟨c, hplay, hc⟩ := Option.map_eq_some_iff.mp hends
  have hruns : Runs (system ℕ 120 creditOwner) (.initial creditWorld) c :=
    playScript_runs honestInvoices honestTransfers
      (fun _ _ _ _ _ _ _ h => h.mono fun _ ht => of_decide_eq_true ht) lateFinish_allowed hplay
  have hstart : Unclaimed creditOwner creditWorld :=
    ⟨by decide, by simp [creditWorld, Database.set, emptyDatabase], by decide, by decide, by decide⟩
  simp only [Prod.mk.injEq] at hc
  exact ⟨c, hplay, leases_fenced (by decide) hstart hruns, hc.1, hc.2.1, hc.2.2⟩

end StarkbankTrial.JobLeases
