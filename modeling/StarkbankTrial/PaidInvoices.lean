import StarkbankTrial.OwedClaims
import StarkbankTrial.TrialRules

/-!
# Invoices that are paid in the end

Any number of workers and deliveries, which may stop anywhere, leave jobs behind in any state.
Then the provider answers, and one worker goes on while deliveries still arrive. When it has
made as many claims as were owed, and one more for each event that was recorded meanwhile, the
jobs that were not hopeless have their transfer.
-/
namespace StarkbankTrial.PaidInvoices
open Domain InteractivePrograms InterleavedRuns RelationalTables DatabaseSchema
open DatabaseSchema.Table
open EventRecording TransferClaims StoreOperations JobChanges JobLeases ExternalCalls
open ProviderClient TransferWorker WorkerRules TrialRules Services ScriptedRuns OwedClaims
open AttemptLimits (Over)
open FailedTransfers (Free)
open TransferOnce (ForeignActivity ForInvoice Matches TransferListed)

/-! ### The two providers -/

/-- A creation may be lost or fail, and so may a lookup. -/
def trusted (owner : TransferId → ExternalId) : Provider where
  invoiceCreate _ _ _ _ := True
  invoiceQuery _ _ _ _ := True
  transferCreate w request answer held :=
    TransferOnce.TransferCreated w.transfers request answer held ∧
      (JobLeases.provider owner).transferCreate w request answer held
  transferQuery w _ tags answer := TransferListed w.transfers tags answer

/-- A creation gives a transfer, unless there is one already, and a lookup for a transfer of
ours finds it exactly when it is held. -/
def answering (owner : TransferId → ExternalId) : Provider where
  invoiceCreate _ _ _ _ := True
  invoiceQuery _ _ _ _ := True
  transferCreate w request answer held :=
    (¬ Free w request.externalId ∧ answer = [.error .inputErrors] ∧ held = w.transfers) ∨
      (Free w request.externalId ∧ ∃ id status, owner id = request.externalId ∧
        answer = [.ok ⟨id, request.externalId, status⟩] ∧
        held = w.transfers ++ [⟨id, request, status⟩])
  transferQuery w _ tags answer := TransferListed w.transfers tags answer ∧
    ∀ invoiceId amount, tags = [(buildTransferCommand invoiceId amount).tag] →
      ∃ found, firstWithExternalId (buildTransferCommand invoiceId amount).externalId answer =
        .ok found ∧ (found = none → Free w (buildTransferCommand invoiceId amount).externalId)

/-! ### The two systems -/

section
variable {ι : Type} (worker : ι) (cfg : WorkerSettings) (L : ℤ) (owner : TransferId → ExternalId)

/-- A delivery tells the truth about a transfer that is held. -/
def TrueDelivery (w : World) (delivery : Delivery) : Prop :=
  TransferOnce.TrueDelivery w.transfers delivery ∧ JobLeases.TrueDelivery owner delivery

/-- Workers with the lease length and a positive backoff, and deliveries. -/
inductive AdmittedBefore (w : World) : Service Unit → Prop
  | worker (cfg : WorkerSettings) : cfg.leaseSeconds = L → 0 < cfg.retryBaseSeconds →
      AdmittedBefore w (processOne cfg).discard
  | delivery (jobId : TransferJobId) (delivery : Delivery) : TrueDelivery owner w delivery →
      AdmittedBefore w (receive jobId delivery).discard

/-- Others may reorder rows and create transfers of their own. -/
def Drifts (w w' : World) : Prop :=
  Reordered w.db w'.db ∧ ForeignActivity w.transfers w'.transfers ∧
    ∀ t ∈ w'.transfers, owner t.id = t.request.externalId

variable (ι) in
def before : System ι Call Call.Answer Failure Unit World where
  admits _ w _ p := AdmittedBefore L owner w p
  exec l w i call r w' := Performs (trusted owner) (Steady l i) w call r w'
  drift _ w w' := Drifts owner w w'
  dies _ w _ w' := w' = w

/-- The one worker, and deliveries. -/
inductive Admitted (w : World) : ι → Service Unit → Prop
  | worker : Admitted w worker (processOne cfg).discard
  | delivery {i : ι} (jobId : TransferJobId) (delivery : Delivery) : i ≠ worker →
      TrueDelivery owner w delivery → Admitted w i (receive jobId delivery).discard

/-- The last thing that the worker did is not the claim of a job. -/
def Between [DecidableEq ι] (l : LeaseLog ι) : Prop :=
  ∀ e, (l.find? fun e => e.process = worker) = some e → claimedJob e = none

/-- The worker is not stopped, and between two jobs it reads a late time. -/
def system [DecidableEq ι] : System ι Call Call.Answer Failure Unit World where
  admits _ w i p := Admitted worker cfg owner w i p
  exec l w i call r w' := Performs (answering owner)
    (fun time => Steady l i time ∧ (i = worker → Between worker l → Late w.db time)) w call r w'
  drift _ w w' := Drifts owner w w'
  dies _ w i w' := i ≠ worker ∧ w' = w

end

/-! ### What the log counts -/

section
variable {ι : Type}

def isClaim : Entry ι Call Call.Answer → Bool
  | ⟨_, .store (.transfers (.claim _)), _⟩ => true
  | _ => false

def isRecord : Entry ι Call Call.Answer → Bool
  | ⟨_, .store (.events (.record _ _)), _⟩ => true
  | _ => false

/-- The claims of workers. -/
def claims (l : LeaseLog ι) : ℕ := l.countP isClaim

/-- The events that were recorded. -/
def records (l : LeaseLog ι) : ℕ := l.countP isRecord

theorem claims_cons {e : Entry ι Call Call.Answer} {l : LeaseLog ι} (h : isClaim e = false) :
    claims (e :: l) = claims l := by
  simp [claims, h]

theorem records_cons {e : Entry ι Call Call.Answer} {l : LeaseLog ι} (h : isRecord e = false) :
    records (e :: l) = records l := by
  simp [records, h]

/-! ### The protocol -/

/-- Where the provider begins to answer: the jobs with which there is still hope, and what is
owed and done by then. -/
structure Outset where
  hopeful : TransferJobRow → Prop
  owed : ℕ
  claims : ℕ
  records : ℕ

def outsetAt (cfg : WorkerSettings) (l : LeaseLog ι) (w : World) : Outset where
  hopeful j := j ∈ w.db transferJobs ∧ Hopeful cfg w j
  owed := claimsOwed w.db
  claims := claims l
  records := records l

/-- Each claim since has worked off one claim, unless all the hopeful jobs are done. A claim
that is counted already may be behind by one. -/
def Progress (outset : Outset) (working : ℕ) (l : LeaseLog ι) (db : Database Row) : Prop :=
  Each outset.hopeful Over db ∨
    claimsOwed db + claims l + outset.records ≤
      outset.owed + outset.claims + records l + working

/-- What is known between two invocations of the worker. -/
def Rests [DecidableEq ι] (worker : ι) (outset : Outset) : Fact ι World :=
  fun l w => Between worker l ∧ Progress outset 0 l w.db

structure Inv (L : ℤ) (owner : TransferId → ExternalId) (cfg : WorkerSettings) (outset : Outset)
    (l : LeaseLog ι) (w : World) : Prop extends JobLeases.Inv L owner (history l) w where
  hopeful : Each outset.hopeful (Hopeful cfg w) w.db

/-- The work on the jobs is where it was. -/
structure Onward (l : LeaseLog ι) (w : World) (l' : LeaseLog ι) (w' : World) : Prop where
  log : l <:+ l'
  history : history l' = history l
  claims : claims l' = claims l
  jobs : JobsStay w.db w'.db
  owed : claimsOwed w'.db + records l ≤ claimsOwed w.db + records l'
  held : ∀ t ∈ w.transfers, ∃ t' ∈ w'.transfers, t'.id = t.id ∧ t'.request = t.request

/-- The worker counts on being the only one that works on jobs and creates their transfers. -/
structure Rely [DecidableEq ι] (worker : ι) (l : LeaseLog ι) (w : World) (l' : LeaseLog ι)
    (w' : World) : Prop extends Onward l w l' w' where
  between : Between worker l → Between worker l'
  free : ∀ invoiceId amount, Free w (buildTransferCommand invoiceId amount).externalId →
    Free w' (buildTransferCommand invoiceId amount).externalId

def protocol [DecidableEq ι] (worker : ι) (L : ℤ) (owner : TransferId → ExternalId)
    (cfg : WorkerSettings) (outset : Outset) : Protocol ι Call Call.Answer Failure Unit World where
  toSystem := system worker cfg owner
  inv := Inv L owner cfg outset
  rely i l w l' w' := i = worker → Rely worker l w l' w'
  demand _ _ _ _ := True

variable {worker i : ι} {cfg : WorkerSettings} {L : ℤ} {owner : TransferId → ExternalId}
variable {outset : Outset} {l l' : LeaseLog ι} {w w' : World} {working : ℕ}

/-- A call that is no claim, no finish and no record, and leaves the tables alone. -/
theorem Onward.quiet {e : Entry ι Call Call.Answer} (hclaimed : claimedJob e = none)
    (hfinished : finishedJob e = none) (hclaim : isClaim e = false) (hrecord : isRecord e = false)
    (hdb : w'.db = w.db) (hheld : ∀ t ∈ w.transfers, t ∈ w'.transfers) : Onward l w (e :: l) w' where
  log := List.suffix_cons _ _
  history := by rw [history_cons, hclaimed, hfinished, History.extend_none]
  claims := claims_cons hclaim
  jobs := .of_mem fun _ hj => hdb ▸ hj
  owed := by rw [hdb, records_cons hrecord]
  held t ht := ⟨t, hheld t ht, rfl, rfl⟩

/-- A recording of events goes on, and it may add a job. -/
theorem Onward.stored {op : EventStoreOp} {r : Call.Answer (.store (.events op))}
    (hjobs : JobsStay w.db ((StoreOp.events op).apply w.db).2)
    (howed : claimsOwed ((StoreOp.events op).apply w.db).2 + records l ≤ claimsOwed w.db +
      records ((⟨i, .store (.events op), r⟩ : Entry ι Call Call.Answer) :: l)) :
    Onward l w (⟨i, .store (.events op), r⟩ :: l)
      { w with db := ((StoreOp.events op).apply w.db).2 } where
  log := List.suffix_cons _ _
  history := by rw [history_cons]; rfl
  claims := claims_cons rfl
  jobs := hjobs
  owed := howed
  held t ht := ⟨t, ht, rfl, rfl⟩

theorem Progress.onward (h : Progress outset working l w.db) (hr : Onward l w l' w') :
    Progress outset working l' w'.db := by
  refine h.imp (fun hover => hover.stay hr.jobs fun _ _ => SameWork.over) fun hle => ?_
  have howed := hr.owed
  have hclaims := hr.claims
  omega

theorem Inv.onward (h : Inv L owner cfg outset l w) (hr : Onward l w l' w')
    (hinv : JobLeases.Inv L owner (history l') w') : Inv L owner cfg outset l' w' where
  toInv := hinv
  hopeful := h.hopeful.stay hr.jobs fun _ _ hs hj => hj.stay hs hr.held

/-- The worker holds the latest claim of the job. A claim of an unknown result has worked off
its claim by itself, any other will when the job is finished. -/
structure Working (cfg : WorkerSettings) (outset : Outset) (job : TransferJob) (l : LeaseLog ι)
    (w : World) : Prop where
  current : (history l).Current job
  progress : Progress outset (if job.claimedFrom = some .unknown then 0 else 1) l w.db
  hopeful : job.claimedFrom = some .unknown → ∀ j, outset.hopeful j → j.id = job.id →
    job.attempts < cfg.transferMaxAttempts ∨ ¬ Free w (commandOf job).externalId

/-- Waited long enough, for a worker that reads this time. -/
def DueBy (time : ℤ) (j : TransferJobRow) : Prop :=
  j.nextAttemptAt ≤ time ∧ ∀ lease ∈ j.leaseUntil, lease ≤ time

abbrev reads (worker : ι) (outset : Outset) (time : ℤ) : Fact ι World := fun l w =>
  Read worker time l w ∧ Each outset.hopeful (DueBy time) w.db ∧ Progress outset 0 l w.db

abbrev claiming (worker : ι) (L : ℤ) (cfg : WorkerSettings) (outset : Outset) (job : TransferJob) :
    Fact ι World := fun l w => Leased L worker job l w ∧ Working cfg outset job l w

abbrev holds (L : ℤ) (cfg : WorkerSettings) (outset : Outset) (job : TransferJob) (time : ℤ) :
    Fact ι World := fun l w => Held L job time l w ∧ Working cfg outset job l w

/-- The transfer is known to be missing. -/
abbrev misses (L : ℤ) (cfg : WorkerSettings) (outset : Outset) (job : TransferJob) (time : ℤ) :
    Fact ι World :=
  fun l w => holds L cfg outset job time l w ∧ Free w (commandOf job).externalId

variable {job : TransferJob} {time : ℤ}

theorem Working.onward (h : Working cfg outset job l w) (hr : Onward l w l' w') :
    Working cfg outset job l' w' where
  current := hr.history ▸ h.current
  progress := h.progress.onward hr
  hopeful hunknown j hj hid := by
    refine (h.hopeful hunknown j hj hid).imp_right fun hfound hfree => hfound fun t ht hext => ?_
    obtain ⟨t', ht', -, hrequest⟩ := hr.held t ht
    exact hfree t' ht' (by rw [hrequest, hext])

theorem holds_onward (h : holds L cfg outset job time l w) (hr : Onward l w l' w') :
    holds L cfg outset job time l' w' := by
  refine ⟨⟨?_, h.1.2⟩, h.2.onward hr⟩
  rw [hr.history]
  exact h.1.1

variable [DecidableEq ι]

/-- What others did does not count. -/
theorem Between.other (h : Between worker l) (hi : i ≠ worker) (call : Call) (r : call.Answer) :
    Between worker (⟨i, call, r⟩ :: l) := by
  intro e he
  rw [List.find?_cons_of_neg (by simpa using hi)] at he
  exact h e he

theorem between_cons {call : Call} {r : call.Answer}
    (h : claimedJob (⟨worker, call, r⟩ : Entry ι Call Call.Answer) = none) :
    Between worker (⟨worker, call, r⟩ :: l) := by
  intro e he
  rw [List.find?_cons_of_pos (by simp)] at he
  exact Option.some.inj he ▸ h

theorem Rely.refl (l : LeaseLog ι) (w : World) : Rely worker l w l w where
  log := List.suffix_rfl
  history := rfl
  claims := rfl
  jobs := .of_mem fun _ hj => hj
  owed := le_rfl
  held t ht := ⟨t, ht, rfl, rfl⟩
  between h := h
  free _ _ h := h

theorem Rely.trans {l'' : LeaseLog ι} {w'' : World} (h : Rely worker l w l' w')
    (h' : Rely worker l' w' l'' w'') : Rely worker l w l'' w'' where
  log := h.log.trans h'.log
  history := h'.history.trans h.history
  claims := h'.claims.trans h.claims
  jobs := h.jobs.trans h'.jobs
  owed := by
    have := h.owed
    have := h'.owed
    omega
  held t ht := by
    obtain ⟨t', ht', hid, hrequest⟩ := h.held t ht
    obtain ⟨t'', ht'', hid', hrequest'⟩ := h'.held t' ht'
    exact ⟨t'', ht'', hid'.trans hid, hrequest'.trans hrequest⟩
  between hbetween := h'.between (h.between hbetween)
  free invoiceId amount hfree := h'.free invoiceId amount (h.free invoiceId amount hfree)

theorem Rely.drift (h : Drifts owner w w') : Rely worker l w l w' where
  log := List.suffix_rfl
  history := rfl
  claims := rfl
  jobs := .of_mem fun _ hj => h.1.mem.mpr hj
  owed := by rw [claimsOwed_reordered h.1]
  held t ht := by
    obtain ⟨status, foreign, -, hheld⟩ := h.2.1
    refine ⟨{ t with status := status t }, ?_, rfl, rfl⟩
    rw [hheld]
    exact List.mem_append.mpr (.inl (List.mem_map.mpr ⟨t, ht, rfl⟩))
  between h := h
  free _ _ hfree := hfree.drift h.2.1

theorem sound : (protocol worker L owner cfg outset).Sound where
  rely_refl _ l w _ := .refl l w
  rely_trans _ _ _ _ _ _ _ h h' hi := (h hi).trans (h' hi)
  drift_keeps l w w' h hd :=
    ⟨Inv.onward h (Rely.drift hd : Rely worker l w l w').toOnward (h.drift hd.1 hd.2.2),
      fun _ _ => .drift hd⟩
  dies_keeps := by
    rintro l w i w' h ⟨-, rfl⟩
    exact ⟨h, fun _ _ _ => .refl l w'⟩

/-! ### Stable facts -/

theorem misses_rely (h : misses L cfg outset job time l w) (hr : Rely worker l w l' w') :
    misses L cfg outset job time l' w' :=
  ⟨holds_onward h.1 hr.toOnward, hr.free _ _ h.2⟩

/-- A fact that goes on is stable. -/
theorem stable_of {fact : Fact ι World}
    (h : ∀ l w l' w', fact l w → Rely worker l w l' w' → fact l' w') :
    (protocol worker L owner cfg outset).Stable worker fact :=
  fun l w l' w' hfact hr _ => h l w l' w' hfact (hr rfl)

theorem rests_rely (h : Rests worker outset l w) (hr : Rely worker l w l' w') :
    Rests worker outset l' w' := ⟨hr.between h.1, h.2.onward hr.toOnward⟩

theorem rests_stable : (protocol worker L owner cfg outset).Stable worker (Rests worker outset) :=
  stable_of fun _ _ _ _ h hr => rests_rely h hr

theorem reads_rely (h : reads worker outset time l w) (hr : Rely worker l w l' w') :
    reads worker outset time l' w' := by
  refine ⟨List.IsSuffix.subset hr.log h.1, h.2.1.stay hr.jobs ?_, h.2.2.onward hr.toOnward⟩
  rintro j j' hs ⟨hnext, hleases⟩
  unfold DueBy
  rw [hs.nextAttemptAt, hs.leaseUntil]
  exact ⟨hnext, hleases⟩

theorem claiming_rely (h : claiming worker L cfg outset job l w) (hr : Rely worker l w l' w') :
    claiming worker L cfg outset job l' w' := by
  obtain ⟨⟨hclaimed, earlier, hread, hlease⟩, hworking⟩ := h
  refine ⟨⟨?_, earlier, List.IsSuffix.subset hr.log hread, hlease⟩, hworking.onward hr.toOnward⟩
  rw [hr.history]
  exact hclaimed

/-! ### Calls of the worker -/

theorem triple {pre : Fact ι World} {call : Call} {result : call.Answer → Fact ι World}
    (hpre : ∀ l w l' w', pre l w → Rely worker l w l' w' → pre l' w')
    (h : ∀ l w r w', Inv L owner cfg outset l w → pre l w →
      Performs (answering owner)
        (fun time => Steady l worker time ∧ (Between worker l → Late w.db time)) w call r w' →
      Inv L owner cfg outset (⟨worker, call, r⟩ :: l) w' ∧ result r (⟨worker, call, r⟩ :: l) w') :
    (protocol worker L owner cfg outset).Triple worker pre call result where
  stable := stable_of hpre
  demand _ _ _ _ := trivial
  keeps l w r w' hw hi he :=
    ⟨(h l w r w' hi hw (he.mono fun _ ht => ⟨ht.1, ht.2 rfl⟩)).1, fun _ hj heq => absurd heq hj⟩
  result l w r w' hw hi he := (h l w r w' hi hw (he.mono fun _ ht => ⟨ht.1, ht.2 rfl⟩)).2

theorem now_triple : (protocol worker L owner cfg outset).Triple worker (Rests worker outset) .now
    fun time => reads worker outset time := by
  refine triple (fun _ _ _ _ h hr => rests_rely h hr) fun l w time w' hi hw hp => ?_
  obtain ⟨⟨-, hlate⟩, rfl⟩ := hp
  have hlate := hlate hw.1
  have hquiet : Onward l w' (⟨worker, .now, time⟩ :: l) w' :=
    .quiet rfl rfl rfl rfl rfl fun _ ht => ht
  refine ⟨hi.onward hquiet hi.toInv, List.mem_cons_self, ?_, hw.2.onward hquiet⟩
  exact hi.hopeful.imp fun j hj _ => ⟨hlate.next j hj, hlate.leases j hj⟩

theorem nowAgain_triple : (protocol worker L owner cfg outset).Triple worker
    (claiming worker L cfg outset job) .now fun time => holds L cfg outset job time := by
  refine triple (fun _ _ _ _ h hr => claiming_rely h hr) fun l w time w' hi hw hp => ?_
  obtain ⟨⟨hsteady, -⟩, rfl⟩ := hp
  have hquiet : Onward l w' (⟨worker, .now, time⟩ :: l) w' :=
    .quiet rfl rfl rfl rfl rfl fun _ ht => ht
  obtain ⟨⟨hjob, earlier, hread, hlease⟩, hworking⟩ := hw
  have hle := hsteady _ hread rfl earlier rfl
  exact ⟨hi.onward hquiet hi.toInv, ⟨hjob, by omega⟩, hworking.onward hquiet⟩

/-- A late claim takes a job that owes a claim, or none of the hopeful jobs is left. -/
theorem claim_triple (hL : 0 < L) (hlength : cfg.leaseSeconds = L) (time : ℤ) :
    (protocol worker L owner cfg outset).Triple worker (reads worker outset time)
      (.store (.transfers (.claim ⟨time, time + seconds cfg.leaseSeconds⟩)))
      (Ends (fun claimed l w =>
        match claimed with
        | none => Rests worker outset l w
        | some job => claiming worker L cfg outset job l w) (Rests worker outset)) := by
  refine triple (fun _ _ _ _ h hr => reads_rely h hr) fun l w r w' hi hw hp => ?_
  obtain ⟨rfl, rfl⟩ := hp
  obtain ⟨hread, hdue, hrests⟩ := hw
  have hissued : Issued L owner (history l)
      (.transfers (.claim ⟨time, time + seconds cfg.leaseSeconds⟩)) := .claim (by simp [hlength])
  have hinv := hi.toInv.issued (i := worker) hL hissued
  have hc := hi.consistent
  generalize hclaim : (⟨time, time + seconds cfg.leaseSeconds⟩ : JobClaim) = claim at hinv ⊢
  obtain ⟨rfl, hlease⟩ : time = claim.now ∧ claim.leaseUntil = claim.now + seconds L := by
    rw [← hclaim, hlength]
    exact ⟨rfl, rfl⟩
  rcases claim_apply hc claim with ⟨hnone, happly⟩ | ⟨row, hrow, hclaimable, happly⟩
  · rw [happly] at hinv ⊢
    refine ⟨⟨hinv, hi.hopeful⟩, between_cons rfl, .inl (hdue.imp fun j hj hdue => ?_)⟩
    exact over_of_not_claimable hdue.1 hdue.2 (hi.lease j hj).processing_iff.mp (hnone j hj)
  · rw [happly] at hinv ⊢
    have hjobs : (w.db.set transferJobs (assignWhere (fun j : TransferJobRow => j.id == row.id)
        (claimed claim row) (w.db transferJobs))) transferJobs = _ := Database.set_self _ _ _
    have hsame : ∀ j, SameTransfer j (claimed claim row j) :=
      fun j => ⟨rfl, rfl, rfl, rfl, rfl, rfl, rfl, rfl⟩
    have hclaimed : toJob row (row.attempts + 1) claim.leaseUntil ∈ (history (⟨worker, .store
        (.transfers (.claim claim)), .ok (some (toJob row (row.attempts + 1) claim.leaseUntil))⟩ ::
          l)).claimed := by
      rw [history_cons]
      exact List.mem_cons_self
    refine ⟨⟨hinv, hi.hopeful.assigned hc hrow hjobs hsame fun j _ _ _ => ?_⟩,
      ⟨hclaimed, claim.now, List.mem_cons_of_mem _ hread, hlease⟩, ?_, ?_, ?_⟩
    · exact ⟨by simp [claimed], by simp [claimed]⟩
    · -- the row shows the claim, so that the claim is the latest one
      have hstored : claimed claim row row ∈ (w.db.set transferJobs (assignWhere
          (fun j : TransferJobRow => j.id == row.id) (claimed claim row) (w.db transferJobs)))
            transferJobs := by
        rw [hjobs]
        exact mem_assignWhere.mpr (.inl ⟨row, hrow, by simp, rfl⟩)
      exact ((hinv.heldBy_iff hclaimed hstored).mp (by simp [heldBy, claimed, toJob])).2
    · obtain ⟨hle, hlt⟩ := claimsOwed_claimed hc hrow hclaimable hjobs
      refine hrests.imp (fun hover => hover.assigned hc hrow hjobs hsame fun _ _ _ hdone =>
        absurd hdone (not_over_of_claimable hclaimable)) fun hbound => ?_
      rw [records_cons rfl, show claims (_ :: l) = claims l + 1 from List.countP_cons_of_pos rfl]
      by_cases hunknown : row.status = .unknown
      · have hless := hlt hunknown
        simp only [toJob, hunknown, if_true]
        omega
      · simp only [toJob, Option.some.injEq, hunknown, if_false]
        omega
    · intro hunknown j hj hid
      obtain ⟨j', hj', hs, hhope⟩ := hi.hopeful j hj
      obtain rfl := (hc transferJobs).eq_of_key hj' hrow (hs.id.trans hid)
      have hfound := hhope.2 (Option.some.inj hunknown)
      rw [hi.keys j' hj'] at hfound
      exact hfound

/-- A lookup tells whether the transfer is there. -/
theorem query_triple : (protocol worker L owner cfg outset).Triple worker
    (holds L cfg outset job time) (.transferQuery 10 [(commandOf job).tag]) fun answer l w =>
      (firstWithExternalId (commandOf job).externalId answer = .ok none ∧
        misses L cfg outset job time l w) ∨
      ∃ t, firstWithExternalId (commandOf job).externalId answer = .ok (some t) ∧
        holds L cfg outset job time l w ∧ owner t.id = (commandOf job).externalId := by
  refine triple (fun _ _ _ _ h hr => holds_onward h hr.toOnward) fun l w answer w' hi hw hp => ?_
  obtain ⟨⟨hlisted, hfound⟩, rfl⟩ := hp
  have hquiet : Onward l w' (⟨worker, .transferQuery 10 [(commandOf job).tag], answer⟩ :: l) w' :=
    .quiet rfl rfl rfl rfl rfl fun _ ht => ht
  refine ⟨hi.onward hquiet hi.toInv, ?_⟩
  obtain ⟨found, hanswer, hfree⟩ := hfound job.invoiceId job.netAmount rfl
  cases found with
  | none => exact .inl ⟨hanswer, holds_onward hw hquiet, hfree rfl⟩
  | some t =>
      refine .inr ⟨t, hanswer, holds_onward hw hquiet, ?_⟩
      obtain ⟨x, hx, hext, hid⟩ := hlisted.found hanswer
      rw [← hid, hi.held x hx, hext]
      rfl

/-- A transfer that is missing is created. -/
theorem create_triple : (protocol worker L owner cfg outset).Triple worker
    (misses L cfg outset job time)
    (.transferCreate (transferRequest (commandOf job))) fun answer l w =>
      ∃ t, answer = [.ok t] ∧ holds L cfg outset job time l w ∧
        owner t.id = (commandOf job).externalId := by
  refine triple (fun _ _ _ _ h hr => misses_rely h hr) fun l w answer w' hi hw hp => ?_
  obtain ⟨held, hcreated, rfl⟩ := hp
  obtain ⟨hw, hfree⟩ := hw
  rcases hcreated with ⟨hheld, -⟩ | ⟨-, id, status, howner, rfl, rfl⟩
  · exact absurd hfree hheld
  · have hquiet : Onward l w (⟨worker, .transferCreate (transferRequest (commandOf job)),
        [.ok ⟨id, (transferRequest (commandOf job)).externalId, status⟩]⟩ :: l)
        { w with transfers := w.transfers ++ [⟨id, transferRequest (commandOf job), status⟩] } :=
      .quiet rfl rfl rfl rfl rfl fun _ ht => List.mem_append.mpr (.inl ht)
    refine ⟨hi.onward hquiet (hi.toInv.drift (fun t => .refl _) fun t ht => ?_), _, rfl,
      holds_onward hw hquiet, howner⟩
    rcases List.mem_append.mp ht with ht | ht
    · exact hi.held t ht
    · exact List.mem_singleton.mp ht ▸ howner

/-- A finish works off the claim of a job that is over. Only one that was claimed with an
unknown result is tried again, and only a job without hope fails. -/
theorem finish_triple (hL : 0 < L) {op : TransferStoreOp} {f : JobFinish} {pre : Fact ι World}
    (hop : finishOf op = some (job, f))
    (hpre : ∀ l w l' w', pre l w → Rely worker l w l' w' → pre l' w')
    (hholds : ∀ l w, pre l w → holds L cfg outset job time l w)
    (hready : ∀ l w, pre l w → Ready L owner (history l) job f)
    (hends : ∀ l w, pre l w → f.status = .succeeded ∨
      f.status = .permanentFailure ∧ (∀ j, outset.hopeful j → j.id ≠ job.id) ∨
      f.status = .pending ∧ job.claimedFrom = some .unknown) :
    (protocol worker L owner cfg outset).Triple worker pre (.store (.transfers op))
      fun _ => Rests worker outset := by
  refine triple hpre fun l w r w' hi hw hp => ?_
  obtain ⟨rfl, rfl⟩ := hp
  obtain ⟨-, hworking⟩ := hholds l w hw
  have hissued : Issued L owner (history l) (.transfers op) := .finish hop (hready l w hw)
  have hinv := hi.toInv.issued (i := worker) hL hissued
  obtain ⟨-, hdb, row, hrow, hid, hstatus, -⟩ :=
    (hi.toInv.finishFenced hop hissued).current hworking.current
  have hc := hi.consistent
  have hclaims : ∀ r, isClaim (⟨worker, .store (.transfers op), r⟩ : Entry ι Call Call.Answer) =
      false := by
    intro r
    cases op <;> first | rfl | simp [finishOf] at hop
  have hunclaimed : ∀ r, claimedJob (⟨worker, .store (.transfers op), r⟩ :
      Entry ι Call Call.Answer) = none := by
    intro r
    cases op <;> first | rfl | simp [finishOf] at hop
  have hrecords : ∀ r, isRecord (⟨worker, .store (.transfers op), r⟩ : Entry ι Call Call.Answer) =
      false := fun _ => rfl
  have hjobs : ((StoreOp.transfers op).apply w.db).2 transferJobs = assignWhere
      (fun j : TransferJobRow => j.id == row.id) f.apply (w.db transferJobs) := by
    rw [hdb, Database.set_self, hid]
  have hsame : ∀ j, SameTransfer j (f.apply j) := fun j => ⟨rfl, rfl, rfl, rfl, rfl, rfl, rfl, rfl⟩
  obtain ⟨hle, hlt⟩ := claimsOwed_finished hc hrow hstatus hjobs
  refine ⟨⟨hinv, hi.hopeful.assigned hc hrow hjobs hsame fun j hj hs _ => ?_⟩, ?_⟩
  · rcases hends l w hw with hf | ⟨-, hno⟩ | ⟨hf, -⟩
    · exact ⟨by simp [JobFinish.apply, hf], by simp [JobFinish.apply, hf]⟩
    · exact absurd (hs.id.symm.trans hid) (hno j hj)
    · exact ⟨by simp [JobFinish.apply, hf], by simp [JobFinish.apply, hf]⟩
  · have hnot : ¬ Over row := by
      rintro (hs | hs) <;> simp [hstatus] at hs
    refine ⟨between_cons (hunclaimed _), hworking.progress.imp (fun hover => hover.assigned hc hrow
      hjobs hsame fun _ _ _ hdone => absurd hdone hnot) fun hbound => ?_⟩
    rw [claims_cons (hclaims _), records_cons (hrecords _)]
    change claimsOwed ((StoreOp.transfers op).apply w.db).2 + claims l + outset.records ≤ _
    rcases hends l w hw with hf | ⟨hf, -⟩ | ⟨hf, hunknown⟩
    · have hless := hlt (.inl hf)
      split_ifs at hbound <;> omega
    · have hless := hlt (.inr hf)
      split_ifs at hbound <;> omega
    · have hless := hle hf
      rw [if_pos hunknown] at hbound
      omega

/-! ### One invocation -/

/-- Where a finish is the last call, the invocation ends at rest. -/
theorem finish_ensures {op : TransferStoreOp} {pre : Fact ι World} {result : WorkerResult}
    (hop : (protocol worker L owner cfg outset).Triple worker pre (.store (.transfers op))
      fun _ => Rests worker outset) (hw : pre l w) :
    Ensures (protocol worker L owner cfg outset) worker
      (callStore (.transfers op) >>= fun _ => pure result) (Always (Rests worker outset)) l w := by
  refine .call hw hop fun r l w hr => ?_
  cases r with
  | ok r => exact .returned rests_stable hr
  | error e => exact .raised hr rests_stable

theorem finishSucceeded_ensures (hL : 0 < L) {t : ProviderTransfer}
    (hw : holds L cfg outset job time l w) (howner : owner t.id = (commandOf job).externalId) :
    Ensures (protocol worker L owner cfg outset) worker (finishSucceeded job t time)
      (Always (Rests worker outset)) l w := by
  refine finish_ensures (finish_triple hL rfl (fun _ _ _ _ h hr => holds_onward h hr.toOnward)
    (fun _ _ h => h) (fun l w h => ⟨h.1.1, ?_, ?_, ?_⟩) fun _ _ _ => .inl rfl) hw
  · simp [JobFinish.succeeded]
  · intro id hid
    obtain rfl := Option.some.inj hid
    exact howner
  · simp [JobFinish.succeeded]

/-- A job with an unknown result whose transfer is missing fails only without hope. -/
theorem finishFailed_ensures (hL : 0 < L) (code : String)
    (hw : misses L cfg outset job time l w)
    (hunknown : job.claimedFrom = some .unknown)
    (hattempts : cfg.transferMaxAttempts ≤ job.attempts) :
    Ensures (protocol worker L owner cfg outset) worker (finishFailed job code time)
      (Always (Rests worker outset)) l w := by
  refine finish_ensures (finish_triple hL rfl (fun _ _ _ _ h hr => misses_rely h hr)
    (fun _ _ h => h.1) (fun l w h => ⟨h.1.1.1, ?_, ?_, ?_⟩)
    fun l w h => .inr (.inl ⟨rfl, fun j hj hid => ?_⟩)) hw
  · simp [JobFinish.failed]
  · simp [JobFinish.failed]
  · simp [JobFinish.failed]
  · rcases h.1.2.hopeful hunknown j hj hid with hleft | hheld
    · omega
    · exact hheld h.2

theorem scheduleRetry_ensures (hL : 0 < L) (hbase : 0 < cfg.retryBaseSeconds) (code : String)
    (hw : holds L cfg outset job time l w) (hunknown : job.claimedFrom = some .unknown) :
    Ensures (protocol worker L owner cfg outset) worker (scheduleRetry cfg job code time)
      (Always (Rests worker outset)) l w := by
  refine finish_ensures (finish_triple hL rfl (fun _ _ _ _ h hr => holds_onward h hr.toOnward)
    (fun _ _ h => h) (fun l w h => ⟨h.1.1, ?_, ?_, fun _ => ?_⟩)
    fun _ _ _ => .inr (.inr ⟨rfl, hunknown⟩)) hw
  · simp [JobFinish.retry]
  · simp [JobFinish.retry]
  · have hdelay := backoff_pos hbase job
    have htime := h.1.2
    simp only [JobFinish.retry]
    omega

theorem reconcileUnknown_ensures (hL : 0 < L) (hbase : 0 < cfg.retryBaseSeconds) {live : Bool}
    (hw : holds L cfg outset job time l w) (hunknown : job.claimedFrom = some .unknown) :
    Ensures (protocol worker L owner cfg outset) worker
      (reconcileUnknown cfg (starkBankClient live) job (commandOf job) time)
      (Always (Rests worker outset)) l w := by
  refine .call hw query_triple fun answer l w hr => ?_
  rcases hr with ⟨hanswer, hmissing⟩ | ⟨t, hanswer, hholds, howner⟩
  · simp only [hanswer]
    change Ensures _ _ (if _ then _ else _) _ _ _
    split_ifs with hattempts
    · exact finishFailed_ensures hL _ hmissing hunknown hattempts
    · exact scheduleRetry_ensures hL hbase _ hmissing.1 hunknown
  · simp only [hanswer]
    exact finishSucceeded_ensures hL hholds howner

theorem processClaimed_ensures (hL : 0 < L) (hbase : 0 < cfg.retryBaseSeconds)
    (hw : holds L cfg outset job time l w) :
    Ensures (protocol worker L owner cfg outset) worker
      (processClaimed cfg (starkBankClient true) job time) (Always (Rests worker outset)) l w := by
  unfold processClaimed
  simp only
  split_ifs with hunknown
  · exact reconcileUnknown_ensures hL hbase hw hunknown
  · refine .call hw query_triple fun answer l w hr => ?_
    unfold commandOf at hr
    rcases hr with ⟨hanswer, hmissing⟩ | ⟨t, hanswer, hholds, howner⟩
    · simp only [hanswer]
      refine .call hmissing create_triple fun answer l w hr => ?_
      obtain ⟨t, rfl, hholds, howner⟩ := hr
      exact finishSucceeded_ensures hL hholds howner
    · simp only [hanswer]
      exact finishSucceeded_ensures hL hholds howner

theorem processOne_ensures (hL : 0 < L) (hlength : cfg.leaseSeconds = L)
    (hbase : 0 < cfg.retryBaseSeconds) (hw : Rests worker outset l w) :
    Ensures (protocol worker L owner cfg outset) worker (processOne cfg)
      (Always (Rests worker outset)) l w := by
  unfold processOne
  split_ifs with hlive
  · rw [hlive]
    refine .call hw now_triple fun time l w hread => ?_
    refine .call hread (claim_triple hL hlength time) fun r l w hclaimed => ?_
    match r, hclaimed with
    | .error e, hrests => exact .raised hrests rests_stable
    | .ok none, hrests => exact .returned rests_stable hrests
    | .ok (some job), hclaiming =>
        refine .call hclaiming nowAgain_triple fun time l w hholds => ?_
        exact processClaimed_ensures hL hbase hholds
  · exact .returned rests_stable hw

/-! ### Deliveries -/

/-- What a delivery asks of a call is that the work goes on, and that no transfer is created. -/
theorem delivery_triple (hi : i ≠ worker) {call : Call}
    (h : ∀ l w r w', JobLeases.Inv L owner (history l) w →
      Performs (answering owner) (Steady l i) w call r w' →
      JobLeases.Inv L owner (history (⟨i, call, r⟩ :: l)) w' ∧ Onward l w (⟨i, call, r⟩ :: l) w' ∧
        w'.transfers = w.transfers) :
    (protocol worker L owner cfg outset).Triple i (fun _ _ => True) call fun _ _ _ => True where
  stable _ _ _ _ _ _ _ := trivial
  demand _ _ _ _ := trivial
  keeps l w r w' _ hinv he := by
    obtain ⟨hleases, honward, hheld⟩ := h l w r w' (Inv.toInv hinv) (he.mono fun _ ht => ht.1)
    refine ⟨Inv.onward hinv honward hleases, fun _ _ _ =>
      { honward with between := fun h => h.other hi call r, free := fun _ _ hfree => ?_ }⟩
    unfold Free
    rw [hheld]
    exact hfree
  result _ _ _ _ _ _ _ := trivial

theorem deliveryRules (hL : 0 < L) (hi : i ≠ worker) (jobId : TransferJobId) {delivery : Delivery}
    (htrue : JobLeases.TrueDelivery owner delivery) :
    DeliveryRules (protocol worker L owner cfg outset) i jobId delivery (fun _ _ => True)
      (fun _ _ _ => True) where
  now := by
    refine delivery_triple hi fun l w time w' hinv hp => ?_
    obtain ⟨-, rfl⟩ := hp
    exact ⟨hinv, .quiet rfl rfl rfl rfl rfl fun _ ht => ht, rfl⟩
  record event payloadHash time hdelivery := by
    refine delivery_triple hi fun l w r w' hinv hp => ?_
    obtain ⟨rfl, rfl⟩ := hp
    refine ⟨hinv.issued hL (.record (hdelivery ▸ htrue).receivedRecord), ?_⟩
    obtain ⟨hjobs, howed⟩ :=
      recorded_work (record_apply_jobs jobId (receivedRecord event payloadHash time) w.db)
    refine ⟨.stored hjobs ?_, rfl⟩
    rw [show records (_ :: l) = records l + 1 from List.countP_cons_of_pos rfl]
    change claimsOwed ((StoreOp.events (.record jobId (receivedRecord event payloadHash time))).apply
      w.db).2 ≤ _ at howed
    omega
  ignored event payloadHash time _ := by
    refine delivery_triple hi fun l w r w' hinv hp => ?_
    obtain ⟨rfl, rfl⟩ := hp
    have hjobs := recordIgnoredWorkspace_apply_jobs (foreignRecord event payloadHash time) w.db
    refine ⟨hinv.issued hL .ignoredWorkspace, .stored (.of_mem fun _ hj => hjobs ▸ hj) ?_, rfl⟩
    rw [claimsOwed_of_eq hjobs, records_cons rfl]

theorem kept (hL : 0 < L) (hlength : cfg.leaseSeconds = L) (hbase : 0 < cfg.retryBaseSeconds) :
    (protocol worker L owner cfg outset).Kept (fun i l w => i = worker → Rests worker outset l w)
      fun i _ l w => i = worker → Rests worker outset l w where
  toSound := sound
  rest_stable _ _ _ _ _ h hr _ heq := rests_rely (h heq) (hr heq)
  dies_rest l w i w' _ hd heq := absurd heq hd.1
  ends_rest _ _ _ _ h := h
  begins := by
    rintro l w i p - hrests hadmitted
    cases hadmitted with
    | worker =>
        refine (discard_ensures sound (processOne_ensures hL hlength hbase (hrests rfl))
          rests_stable).mono fun o l w ho _ => ?_
        cases o <;> exact ho
    | delivery jobId delivery hi htrue =>
        exact (discard_ensures sound ((deliveryRules hL hi jobId htrue.2).receive_ensures
          trivial)).mono fun o l w _ heq => absurd heq hi

/-! ### Every run -/

/-- No jobs yet, and a provider that holds nothing of ours. -/
structure Fresh (owner : TransferId → ExternalId) (w : World) : Prop where
  consistent : metadata.Consistent w.db
  jobs : w.db transferJobs = []
  foreign : ∀ t ∈ w.transfers, ∀ invoiceId, ¬ ForInvoice invoiceId t
  held : ∀ t ∈ w.transfers, owner t.id = t.request.externalId

theorem Fresh.unclaimed (h : Fresh owner w) : Unclaimed owner w where
  consistent := h.consistent
  keys := by simp [h.jobs]
  owned := by simp [h.jobs]
  held := h.held
  unclaimed := by simp [h.jobs]

variable {c d e : Config ι Call Call.Answer Failure Unit World}

theorem before_leases (h : Runs (before ι L owner) c d) : Runs (JobLeases.system ι L owner) c d := by
  refine Runs.mono ?_ ?_ ?_ ?_ h
  · intro l w i p hp
    cases hp with
    | worker cfg hlength hbase => exact .worker cfg hlength hbase
    | delivery jobId delivery htrue => exact .delivery jobId delivery htrue.2
  · intro l w i call r w' he
    cases call with
    | transferCreate request =>
        obtain ⟨held, hcreated, rfl⟩ := he
        exact ⟨held, hcreated.2, rfl⟩
    | transferQuery limit tags =>
        obtain ⟨hlisted, rfl⟩ := he
        refine ⟨fun item hitem => ?_, rfl⟩
        obtain ⟨t, ht, hid, hext, -⟩ := hlisted item hitem
        exact ⟨t, ht, hid, hext⟩
    | _ => exact he
  · exact fun _ _ _ hd => ⟨hd.1, hd.2.2⟩
  · exact fun _ _ _ _ hd => hd

theorem before_once (h : Runs (before ι L owner) c d) : Runs (TransferOnce.system ι) c d := by
  refine Runs.mono ?_ ?_ ?_ ?_ h
  · intro l w i p hp
    cases hp with
    | worker cfg => exact .worker cfg
    | delivery jobId delivery htrue => exact .delivery jobId delivery htrue.1
  · intro l w i call r w' he
    cases call with
    | now => exact ⟨trivial, he.2⟩
    | transferCreate request =>
        obtain ⟨held, hcreated, rfl⟩ := he
        exact ⟨held, hcreated.1, rfl⟩
    | _ => exact he
  · exact fun _ _ _ hd => ⟨hd.1, hd.2.1⟩
  · exact fun _ _ _ _ hd => hd

theorem system_once (h : Runs (system worker cfg owner) c d) : Runs (TransferOnce.system ι) c d := by
  refine Runs.mono ?_ ?_ ?_ ?_ h
  · intro l w i p hp
    cases hp with
    | worker => exact .worker cfg
    | delivery jobId delivery _ htrue => exact .delivery jobId delivery htrue.1
  · intro l w i call r w' he
    cases call with
    | now => exact ⟨trivial, he.2⟩
    | transferCreate request =>
        obtain ⟨held, hcreated, rfl⟩ := he
        refine ⟨held, ?_, rfl⟩
        rcases hcreated with ⟨hheld, rfl, rfl⟩ | ⟨hfree, id, status, -, rfl, rfl⟩
        · unfold Free at hheld
          push Not at hheld
          exact .refused hheld
        · exact .created hfree
    | transferQuery limit tags => exact ⟨he.1.1, he.2⟩
    | _ => exact he
  · exact fun _ _ _ hd => ⟨hd.1, hd.2.1⟩
  · exact fun _ _ _ _ hd => hd.2

/-- Once the provider answers, the lone worker pays every job with which there was still hope,
as soon as it has made the claims that were owed, and one for each event recorded since. -/
theorem paid (hL : 0 < L) (hlength : cfg.leaseSeconds = L) (hbase : 0 < cfg.retryBaseSeconds)
    (hw : Fresh owner w) (hc : Runs (before ι L owner) (.initial w) c) (hidle : ∀ i, c.Idle i)
    (hnew : ∀ e ∈ c.log, e.process ≠ worker)
    (he : Runs (system worker cfg owner) c e) (heidle : e.Idle worker)
    (hclaims : claims c.log + claimsOwed c.state.db + (records e.log - records c.log) ≤
      claims e.log) :
    ∀ j ∈ c.state.db transferJobs, Hopeful cfg c.state j →
      ∃ j' ∈ e.state.db transferJobs, SameTransfer j j' ∧ j'.status = .succeeded ∧
        ∃ t ∈ e.state.transfers, Matches j' t ∧ j'.providerTransferId = some t.id := by
  have hleases : JobLeases.Inv L owner (history c.log) c.state :=
    (JobLeases.kept hL).inv hw.unclaimed.inv (before_leases hc)
  have hinv : Inv L owner cfg (outsetAt cfg c.log c.state) c.log c.state :=
    ⟨hleases, fun j hj => ⟨j, hj.1, .refl j, hj.2⟩⟩
  have hbetween : Between worker c.log := by
    intro entry hentry
    exact absurd (by simpa using List.find?_some hentry)
      (hnew entry (List.mem_of_find?_eq_some hentry))
  have hrests : Rests worker (outsetAt cfg c.log c.state) c.log c.state := ⟨hbetween, .inr le_rfl⟩
  obtain ⟨hinv', hrests'⟩ := (kept hL hlength hbase).rested (fun _ _ _ _ h => h) hinv hidle
    (fun _ _ => hrests) he heidle
  intro j hj hhope
  obtain ⟨j', hj', hs, hhope'⟩ := hinv'.hopeful j ⟨hj, hhope⟩
  have hover : Over j' := by
    rcases (hrests' rfl).2 with hover | hbound
    · obtain ⟨j'', hj'', hs', hover⟩ := hover j ⟨hj, hhope⟩
      exact (hinv'.consistent transferJobs).eq_of_key hj'' hj' (hs'.id.trans hs.id.symm) ▸ hover
    · -- nothing is owed any more
      have hrecords : records c.log ≤ records e.log := he.log_suffix.sublist.countP_le
      have howed : claimsOwed e.state.db = 0 := by
        simp only [outsetAt] at hbound
        omega
      have hleft := total_eq_zero.mp howed j' hj'
      unfold claimsLeft at hleft
      cases hstatus : j'.status with
      | succeeded => exact .inl hstatus
      | permanentFailure => exact .inr hstatus
      | _ => simp [hstatus] at hleft
  have hstatus := hhope'.succeeded hover
  have honce := TransferOnce.transferred_once hw.consistent hw.jobs hw.foreign
    ((before_once hc).trans (system_once he))
  obtain ⟨t, ht, -, hmatches, hid⟩ := honce.succeeded j' hj' hstatus
  exact ⟨j', hj', hs, hstatus, t, ht, hmatches, hid⟩

end

/-! ### A failed creation that is made up for -/

instance (db : Database Row) (time : ℤ) : Decidable (Late db time) :=
  decidable_of_iff ((∀ j ∈ db transferJobs, j.nextAttemptAt ≤ time) ∧
    ∀ j ∈ db transferJobs, ∀ lease ∈ j.leaseUntil, lease ≤ time)
    ⟨fun h => ⟨h.1, h.2⟩, fun h => ⟨h.next, h.leases⟩⟩

inductive Process where
  | delivery | worker | successor
deriving DecidableEq

/-- Nothing is held yet, and creations fail. -/
def failingAnswer (l : LeaseLog Process) (w : World) (i : Process) :
    (call : Call) → Script → Option (call.Answer × World)
  | .now, .clock time => if Steady l i time then some (time, w) else none
  | .store op, .commit => some ((op.apply w.db).1, { w with db := (op.apply w.db).2 })
  | .transferQuery _ _, .lookup => some ([], w)
  | .transferCreate _, .failed error => some ([.error error], w)
  | _, _ => none

/-- Nothing is held yet, and a creation is answered. -/
def givenAnswer (l : LeaseLog Process) (w : World) (i : Process) :
    (call : Call) → Script → Option (call.Answer × World)
  | .now, .clock time => if Steady l i time ∧ Late w.db time then some (time, w) else none
  | .store op, .commit => some ((op.apply w.db).1, { w with db := (op.apply w.db).2 })
  | .transferQuery _ _, .lookup => if w.transfers = [] then some ([], w) else none
  | .transferCreate request, .created id =>
      if w.transfers = [] ∧ creditOwner id = request.externalId then
        some ([.ok ⟨id, request.externalId, "created"⟩],
          { w with transfers := w.transfers ++ [⟨id, request, "created"⟩] })
      else none
  | _, _ => none

theorem failingAnswer_exec {l : LeaseLog Process} {w : World} {i : Process} {call : Call}
    {script : Script} {r : call.Answer × World} (h : failingAnswer l w i call script = some r) :
    (before Process 120 creditOwner).exec l w i call r.1 r.2 := by
  unfold failingAnswer at h
  split at h
  · split_ifs at h with hsteady
    obtain rfl := Option.some.inj h
    exact ⟨hsteady, rfl⟩
  · obtain rfl := Option.some.inj h
    exact ⟨rfl, rfl⟩
  · obtain rfl := Option.some.inj h
    exact ⟨fun item hitem => by simp at hitem, rfl⟩
  · obtain rfl := Option.some.inj h
    refine ⟨w.transfers, ⟨.failed ?_, by simp, fun _ ht => .inl ht⟩, rfl⟩
    simp [TransferOnce.NoTransfer]
  · cases h

theorem givenAnswer_exec {l : LeaseLog Process} {w : World} {i : Process} {call : Call}
    {script : Script} {r : call.Answer × World} (h : givenAnswer l w i call script = some r) :
    (system .successor {} creditOwner).exec l w i call r.1 r.2 := by
  unfold givenAnswer at h
  split at h
  · split_ifs at h with htime
    obtain rfl := Option.some.inj h
    exact ⟨⟨htime.1, fun _ _ => htime.2⟩, rfl⟩
  · obtain rfl := Option.some.inj h
    exact ⟨rfl, rfl⟩
  · split_ifs at h with hnone
    obtain rfl := Option.some.inj h
    refine ⟨⟨fun item hitem => by simp at hitem, fun _ _ _ => ⟨none, rfl, fun _ t ht => ?_⟩⟩, rfl⟩
    simp [hnone] at ht
  · split_ifs at h with hcreated
    obtain rfl := Option.some.inj h
    refine ⟨_, .inr ⟨fun t ht => ?_, _, _, hcreated.2, rfl, rfl⟩, rfl⟩
    simp [hcreated.1] at ht
  · cases h

/-- The creation fails, and the result is unknown. -/
def unknownResult : List (ScriptedMove Process) :=
  [.begin .delivery (receive "j" creditDelivery).discard, .call .delivery (.clock 0),
    .call .delivery .commit, .begin .worker (processOne {}).discard, .call .worker (.clock 1),
    .call .worker .commit, .call .worker (.clock 1), .call .worker .lookup,
    .call .worker (.failed .unknownError), .call .worker .commit]

/-- The first claim looks the transfer up in vain, and the second creates it. -/
def twoClaims : List (ScriptedMove Process) :=
  [.begin .successor (processOne {}).discard, .call .successor (.clock (seconds 10)),
    .call .successor .commit, .call .successor (.clock (seconds 200)), .call .successor .lookup,
    .call .successor .commit, .begin .successor (processOne {}).discard,
    .call .successor (.clock (seconds 300)), .call .successor .commit,
    .call .successor (.clock (seconds 500)), .call .successor .lookup,
    .call .successor (.created "t"), .call .successor .commit]

theorem unknownResult_allowed : ∀ m ∈ unknownResult, m.Allowed (before Process 120 creditOwner) := by
  have hworker : ∀ w, AdmittedBefore 120 creditOwner w (processOne {}).discard :=
    fun w => .worker {} rfl (by decide)
  have hdelivery : ∀ w, AdmittedBefore 120 creditOwner w (receive "j" creditDelivery).discard :=
    fun w => .delivery "j" creditDelivery ⟨trivial, trivial⟩
  simp [unknownResult, Move.Allowed, before, hworker, hdelivery]

theorem twoClaims_allowed : ∀ m ∈ twoClaims, m.Allowed (system .successor {} creditOwner) := by
  have hworker : ∀ w, Admitted Process.successor {} creditOwner w .successor (processOne {}).discard :=
    fun w => .worker
  simp [twoClaims, Move.Allowed, system, hworker]

theorem paid_unknown : ∃ c e : Config Process Call Call.Answer Failure Unit World,
    (c.state.db transferJobs).map TransferJobRow.status = [.unknown] ∧
      ∃ j' ∈ e.state.db transferJobs, j'.status = .succeeded ∧
        ∃ t ∈ e.state.transfers, Matches j' t ∧ j'.providerTransferId = some t.id := by
  have hplay : ((playAll failingAnswer (.initial creditWorld) unknownResult).bind fun c =>
      (playAll givenAnswer c twoClaims).map fun e =>
        c.isIdle .delivery && c.isIdle .worker && c.isIdle .successor && e.isIdle .successor &&
          c.log.all (fun entry => entry.process != .successor) &&
          claims c.log + claimsOwed c.state.db + (records e.log - records c.log) == claims e.log &&
          (c.state.db transferJobs).map TransferJobRow.status == [.unknown] &&
          (c.state.db transferJobs).all fun j : TransferJobRow => j.attempts == 1) = some true := by
    decide
  obtain ⟨c, hc, hrest⟩ := Option.bind_eq_some_iff.mp hplay
  obtain ⟨e, he, hfacts⟩ := Option.map_eq_some_iff.mp hrest
  simp only [Bool.and_eq_true, beq_iff_eq, List.all_eq_true, bne_iff_ne] at hfacts
  obtain ⟨⟨⟨⟨⟨⟨⟨hd, hk⟩, hs⟩, heidle⟩, hnew⟩, hclaims⟩, hstatus⟩, hattempts⟩ := hfacts
  have hidle : ∀ i, c.isIdle i = true := fun i => by cases i <;> assumption
  have hw : Fresh creditOwner creditWorld :=
    ⟨by decide, rfl, by simp [creditWorld], by simp [creditWorld]⟩
  have hruns : Runs (before Process 120 creditOwner) (.initial creditWorld) c :=
    playAll_runs (fun _ _ _ _ _ _ h => failingAnswer_exec h) unknownResult_allowed hc
  have hruns' : Runs (system .successor {} creditOwner) c e :=
    playAll_runs (fun _ _ _ _ _ _ h => givenAnswer_exec h) twoClaims_allowed he
  have hpaid := paid (by decide) rfl (by decide) hw hruns
    (fun i => Config.idle_of_isIdle (hidle i)) hnew hruns' (Config.idle_of_isIdle heidle) hclaims.le
  have hsome : ∃ j, j ∈ c.state.db transferJobs := by
    refine List.exists_mem_of_ne_nil _ fun hnil => ?_
    simp [hnil] at hstatus
  obtain ⟨j, hj⟩ := hsome
  have hunknown : j.status = .unknown := by
    have hmem := List.mem_map_of_mem (f := TransferJobRow.status) hj
    rw [hstatus] at hmem
    exact List.mem_singleton.mp hmem
  have hone := hattempts j hj
  obtain ⟨j', hj', -, hrest⟩ := hpaid j hj ⟨by simp [hunknown], fun _ => .inl (by simp [hone])⟩
  exact ⟨c, e, hstatus, j', hj', hrest⟩

end StarkbankTrial.PaidInvoices
