import StarkbankTrial.EventJobCorrespondence
import StarkbankTrial.JobChanges
import StarkbankTrial.ScriptedRuns
import StarkbankTrial.WorkerRules
import StarkbankTrial.Services

/-!
# One transfer for one credited invoice

Any number of workers and webhook deliveries, interleaved call by call. A worker may
stop between any two calls, leases may run out at any time (a clock may read
anything), and a create may take effect and still fail.

What the provider is trusted with is said by `TransferCreated`, `TransferListed` and
`ForeignActivity`. Completeness of its lookups is not used.
-/
namespace StarkbankTrial.TransferOnce
open Domain InteractivePrograms InterleavedRuns RelationalTables DatabaseSchema
open DatabaseSchema.Table
open EventRecording TransferClaims StoreOperations JobChanges ExternalCalls ProviderClient
open TransferWorker WorkerRules Services ScriptedRuns

/-! ### The provider -/

/-- No created transfer comes back. -/
def NoTransfer (answer : SdkAnswer SdkTransfer) : Prop :=
  ∀ t, answer.head? ≠ some (.ok t)

/-- A second transfer with a held external id is refused as an input error. A first one
may be refused or fail without effect, be created and answered, or be created while
the answer is some error. -/
inductive TransferCreated (held : List HeldTransfer) (request : TransferRequest) :
    SdkAnswer SdkTransfer → List HeldTransfer → Prop
  | refused : (∃ t ∈ held, t.request.externalId = request.externalId) →
      TransferCreated held request [.error .inputErrors] held
  | failed {answer : SdkAnswer SdkTransfer} : NoTransfer answer →
      TransferCreated held request answer held
  | created {id : TransferId} {status : String} :
      (∀ t ∈ held, t.request.externalId ≠ request.externalId) →
      TransferCreated held request [.ok ⟨id, request.externalId, status⟩]
        (held ++ [⟨id, request, status⟩])
  | ambiguous {id : TransferId} {status : String} {answer : SdkAnswer SdkTransfer} :
      (∀ t ∈ held, t.request.externalId ≠ request.externalId) → NoTransfer answer →
      TransferCreated held request answer (held ++ [⟨id, request, status⟩])

/-- What a lookup lists is held. -/
def TransferListed (held : List HeldTransfer) (tags : List String)
    (answer : SdkAnswer SdkTransfer) : Prop :=
  ∀ item, .ok item ∈ answer → ∃ t ∈ held, t.id = item.id ∧
    t.request.externalId = item.externalId ∧ ∀ tag ∈ tags, tag ∈ t.request.tags

/-- The transfer is one for the invoice, by its external id or by its tag. -/
def ForInvoice (invoiceId : InvoiceId) (t : HeldTransfer) : Prop :=
  t.request.externalId = (buildTransferCommand invoiceId 0).externalId ∨
    (buildTransferCommand invoiceId 0).tag ∈ t.request.tags

instance (invoiceId : InvoiceId) (t : HeldTransfer) : Decidable (ForInvoice invoiceId t) :=
  inferInstanceAs (Decidable (_ ∨ _))

/-- Statuses move on, and others create transfers under their own ids and tags. -/
def ForeignActivity (held held' : List HeldTransfer) : Prop :=
  ∃ (status : HeldTransfer → String) (foreign : List HeldTransfer),
    (∀ t ∈ foreign, ∀ invoiceId, ¬ ForInvoice invoiceId t) ∧
    held' = held.map (fun t => { t with status := status t }) ++ foreign

/-- A lifecycle event carries the id of the held transfer with its external id. -/
def TrueDelivery (held : List HeldTransfer) : Delivery → Prop
  | .verified (.lifecycle event) _ =>
      ∃ t ∈ held, t.request.externalId = event.externalId ∧ t.id = event.transferId
  | _ => True

def provider : Provider where
  invoiceCreate _ _ _ _ := True
  invoiceQuery _ _ _ _ := True
  transferCreate w request answer held := TransferCreated w.transfers request answer held
  transferQuery w _ tags answer := TransferListed w.transfers tags answer

/-! ### The system -/

section
variable (ι : Type)

abbrev WorkerLog := Log ι Call Call.Answer

/-- Workers with any settings, and deliveries. -/
inductive Admitted (w : World) : Service Unit → Prop
  | worker (cfg : WorkerSettings) : Admitted w (processOne cfg).discard
  | delivery (jobId : TransferJobId) (delivery : Delivery) :
      TrueDelivery w.transfers delivery → Admitted w (receive jobId delivery).discard

def system : System ι Call Call.Answer Failure Unit World where
  admits _ w _ p := Admitted w p
  exec _ w _ call r w' := Performs provider (fun _ => True) w call r w'
  drift _ w w' := Reordered w.db w'.db ∧ ForeignActivity w.transfers w'.transfers
  dies _ w _ w' := w' = w

end

variable {ι : Type}

/-! ### The invariant -/

/-- The job came from a credited event that was delivered, with its amounts. -/
def FromCredit (l : WorkerLog ι) (j : TransferJobRow) : Prop :=
  ∃ entry ∈ l, ∃ jobId r event, entry.op = .store (.events (.record jobId r)) ∧
    r.event = .credited event ∧ event.invoiceId = j.invoiceId ∧ j.amount = event.amount ∧
    j.fee = event.fee ∧ j.netAmount = event.amount - event.fee

/-- The transfer is the one that the job asks for. -/
structure Matches (j : TransferJobRow) (t : HeldTransfer) : Prop where
  externalId : t.request.externalId = j.externalId
  tags : t.request.tags = [j.tag]
  amount : t.request.amount = j.netAmount
  name : t.request.name = starkBankRecipient.name
  taxId : t.request.taxId = starkBankRecipient.taxId
  bankCode : t.request.bankCode = starkBankRecipient.bankCode
  branchCode : t.request.branchCode = starkBankRecipient.branchCode
  accountNumber : t.request.accountNumber = starkBankRecipient.accountNumber
  accountType : t.request.accountType = starkBankRecipient.accountType

/-- A held transfer with this external id and id. -/
def Holds (w : World) (externalId : ExternalId) (id : TransferId) : Prop :=
  ∃ t ∈ w.transfers, t.request.externalId = externalId ∧ t.id = id

structure Inv (l : WorkerLog ι) (w : World) : Prop where
  consistent : metadata.Consistent w.db
  keys : ∀ j ∈ w.db transferJobs,
    j.externalId = (buildTransferCommand j.invoiceId j.netAmount).externalId ∧
      j.tag = (buildTransferCommand j.invoiceId j.netAmount).tag
  from_credit : ∀ j ∈ w.db transferJobs, FromCredit l j
  has_job : ∀ t ∈ w.transfers, ∀ invoiceId, ForInvoice invoiceId t →
    ∃ j ∈ w.db transferJobs, j.invoiceId = invoiceId ∧ Matches j t
  once : ∀ invoiceId, (w.transfers.filter (ForInvoice invoiceId)).length ≤ 1
  succeeded : ∀ j ∈ w.db transferJobs, j.status = .succeeded →
    ∃ id, j.providerTransferId = some id ∧ Holds w j.externalId id

/-- Others keep the jobs and what the provider holds. -/
structure Rely (w w' : World) : Prop where
  jobs : ∀ j ∈ w.db transferJobs, ∃ j' ∈ w'.db transferJobs, SameTransfer j j'
  transfers : ∀ t ∈ w.transfers, ∃ t' ∈ w'.transfers, t'.id = t.id ∧ t'.request = t.request

def protocol (ι : Type) : Protocol ι Call Call.Answer Failure Unit World where
  toSystem := system ι
  inv := Inv
  rely _ _ w _ w' := Rely w w'
  demand _ _ _ _ := True

theorem Rely.refl (w : World) : Rely w w where
  jobs := fun j hj => ⟨j, hj, .refl j⟩
  transfers := fun t ht => ⟨t, ht, rfl, rfl⟩

theorem Rely.trans {w w' w'' : World} (h : Rely w w') (h' : Rely w' w'') : Rely w w'' where
  jobs := by
    intro j hj
    obtain ⟨j', hj', hs⟩ := h.jobs j hj
    obtain ⟨j'', hj'', hs'⟩ := h'.jobs j' hj'
    exact ⟨j'', hj'', hs.trans hs'⟩
  transfers := by
    intro t ht
    obtain ⟨t', ht', hid, hreq⟩ := h.transfers t ht
    obtain ⟨t'', ht'', hid', hreq'⟩ := h'.transfers t' ht'
    exact ⟨t'', ht'', hid'.trans hid, hreq'.trans hreq⟩

theorem Holds.rely {w w' : World} {externalId : ExternalId} {id : TransferId}
    (h : Holds w externalId id) (hr : Rely w w') : Holds w' externalId id := by
  obtain ⟨t, ht, hext, hid⟩ := h
  obtain ⟨t', ht', hid', hreq⟩ := hr.transfers t ht
  exact ⟨t', ht', by rw [hreq, hext], hid'.trans hid⟩

theorem FromCredit.mono {l l' : WorkerLog ι} {j : TransferJobRow} (h : FromCredit l j)
    (hsub : ∀ e ∈ l, e ∈ l') : FromCredit l' j := by
  obtain ⟨entry, hentry, hrest⟩ := h
  exact ⟨entry, hsub entry hentry, hrest⟩

theorem FromCredit.same {l : WorkerLog ι} {j j' : TransferJobRow} (h : FromCredit l j)
    (hs : SameTransfer j j') : FromCredit l j' := by
  obtain ⟨entry, hentry, jobId, r, event, hop, hev, hinv, hamount, hfee, hnet⟩ := h
  exact ⟨entry, hentry, jobId, r, event, hop, hev, by rw [hinv, hs.invoiceId],
    by rw [hs.amount, hamount], by rw [hs.fee, hfee], by rw [hs.netAmount, hnet]⟩

theorem Matches.same {j j' : TransferJobRow} {t : HeldTransfer} (h : Matches j t)
    (hs : SameTransfer j j') : Matches j' t where
  externalId := by rw [hs.externalId]; exact h.externalId
  tags := by rw [hs.tag]; exact h.tags
  amount := by rw [hs.netAmount]; exact h.amount
  name := h.name
  taxId := h.taxId
  bankCode := h.bankCode
  branchCode := h.branchCode
  accountNumber := h.accountNumber
  accountType := h.accountType

theorem Matches.of_request {j : TransferJobRow} {t t' : HeldTransfer} (h : Matches j t)
    (hr : t'.request = t.request) : Matches j t' := by
  obtain ⟨h₁, h₂, h₃, h₄, h₅, h₆, h₇, h₈, h₉⟩ := h
  constructor <;> rw [hr] <;> assumption

/-- Keys of two invoices never coincide. -/
theorem forInvoice_of_keys {t : HeldTransfer} {i : InvoiceId} (j : InvoiceId) (a : ℤ)
    (hext : t.request.externalId = (buildTransferCommand i a).externalId)
    (htags : t.request.tags = [(buildTransferCommand i a).tag]) :
    ForInvoice j t ↔ j = i := by
  unfold ForInvoice
  rw [hext, htags, List.mem_singleton, buildTransferCommand_externalId_inj,
    buildTransferCommand_tag_inj]
  constructor
  · rintro (h | h)
    · exact h.symm
    · exact h
  · intro h
    exact .inr h

/-! ### Steps that keep the invariant -/

/-- The surroundings: other row orders, new statuses, transfers of others. -/
theorem Inv.drift {l : WorkerLog ι} {w w' : World} (h : Inv l w)
    (hdb : Reordered w.db w'.db) (hact : ForeignActivity w.transfers w'.transfers) :
    Inv l w' ∧ Rely w w' := by
  obtain ⟨status, foreign, hforeign, hheld⟩ := hact
  have hkept : ∀ t ∈ w.transfers, ∃ t' ∈ w'.transfers, t'.id = t.id ∧ t'.request = t.request := by
    intro t ht
    refine ⟨{ t with status := status t }, ?_, rfl, rfl⟩
    rw [hheld]
    exact List.mem_append.mpr (.inl (List.mem_map.mpr ⟨t, ht, rfl⟩))
  have hrely : Rely w w' := ⟨fun j hj => ⟨j, hdb.mem.mpr hj, .refl j⟩, hkept⟩
  refine ⟨⟨hdb.consistent h.consistent, fun j hj => h.keys j (hdb.mem.mp hj),
    fun j hj => h.from_credit j (hdb.mem.mp hj), ?_, ?_, ?_⟩, hrely⟩
  · intro t ht invoiceId hfor
    rw [hheld] at ht
    rcases List.mem_append.mp ht with ht | ht
    · obtain ⟨t₀, ht₀, rfl⟩ := List.mem_map.mp ht
      obtain ⟨j, hj, hinv, hm⟩ := h.has_job t₀ ht₀ invoiceId hfor
      exact ⟨j, hdb.mem.mpr hj, hinv, hm.of_request rfl⟩
    · exact absurd hfor (hforeign t ht invoiceId)
  · intro invoiceId
    have hnone : foreign.filter (ForInvoice invoiceId) = [] := by
      rw [List.filter_eq_nil_iff]
      intro t ht
      simpa using hforeign t ht invoiceId
    rw [hheld, List.filter_append, hnone, List.append_nil, List.filter_map, List.length_map]
    exact h.once invoiceId
  · intro j hj hs
    obtain ⟨id, hid, hholds⟩ := h.succeeded j (hdb.mem.mp hj) hs
    exact ⟨id, hid, hholds.rely hrely⟩

/-- A transaction: each job afterwards is an old one, with a held transfer if it says
succeeded, or a new one for a delivered credit. -/
theorem Inv.store {l : WorkerLog ι} {w : World} (h : Inv l w)
    (entry : Entry ι Call Call.Answer) {db' : Database Row} (hc : metadata.Consistent db')
    (hkept : ∀ j ∈ w.db transferJobs, ∃ j' ∈ db' transferJobs, SameTransfer j j')
    (hjobs : ∀ j' ∈ db' transferJobs,
      (∃ j ∈ w.db transferJobs, SameTransfer j j' ∧ (j'.status = .succeeded →
        ∃ id, j'.providerTransferId = some id ∧ Holds w j.externalId id)) ∨
      (j'.externalId = (buildTransferCommand j'.invoiceId j'.netAmount).externalId ∧
        j'.tag = (buildTransferCommand j'.invoiceId j'.netAmount).tag ∧
        FromCredit (entry :: l) j' ∧ j'.status ≠ .succeeded)) :
    Inv (entry :: l) { w with db := db' } ∧ Rely w { w with db := db' } := by
  refine ⟨⟨hc, ?_, ?_, ?_, h.once, ?_⟩, ⟨hkept, fun t ht => ⟨t, ht, rfl, rfl⟩⟩⟩
  · intro j' hj'
    rcases hjobs j' hj' with ⟨j, hj, hs, -⟩ | ⟨hext, htag, -, -⟩
    · rw [hs.externalId, hs.tag, hs.invoiceId, hs.netAmount]
      exact h.keys j hj
    · exact ⟨hext, htag⟩
  · intro j' hj'
    rcases hjobs j' hj' with ⟨j, hj, hs, -⟩ | ⟨-, -, hcredit, -⟩
    · exact ((h.from_credit j hj).mono fun e he => List.mem_cons_of_mem _ he).same hs
    · exact hcredit
  · intro t ht invoiceId hfor
    obtain ⟨j, hj, hinv, hm⟩ := h.has_job t ht invoiceId hfor
    obtain ⟨j', hj', hs⟩ := hkept j hj
    exact ⟨j', hj', hs.invoiceId.trans hinv, hm.same hs⟩
  · intro j' hj' hstatus
    rcases hjobs j' hj' with ⟨j, hj, hs, hheld⟩ | ⟨-, -, -, hne⟩
    · obtain ⟨id, hid, hholds⟩ := hheld hstatus
      exact ⟨id, hid, by rw [hs.externalId]; exact hholds⟩
    · exact absurd hstatus hne

/-- A call that changes nothing. -/
theorem Inv.log {l : WorkerLog ι} {w : World} (h : Inv l w)
    (entry : Entry ι Call Call.Answer) : Inv (entry :: l) w :=
  { h with from_credit := fun j hj =>
      (h.from_credit j hj).mono fun _ he => List.mem_cons_of_mem _ he }

/-- Rows that a transaction assigned: only a row that becomes succeeded needs a held
transfer. -/
theorem Inv.assign {l : WorkerLog ι} {w : World} (h : Inv l w)
    (entry : Entry ι Call Call.Answer) {condition : TransferJobRow → Bool}
    {assign : TransferJobRow → TransferJobRow}
    (hvalid : metadata.Valid transferJobs (assignWhere condition assign (w.db transferJobs)))
    (hsame : ∀ j, SameTransfer j (assign j))
    (hheld : ∀ j ∈ w.db transferJobs, condition j = true → (assign j).status = .succeeded →
      ∃ id, (assign j).providerTransferId = some id ∧ Holds w j.externalId id) :
    let db' := w.db.set transferJobs (assignWhere condition assign (w.db transferJobs))
    Inv (entry :: l) { w with db := db' } ∧ Rely w { w with db := db' } := by
  have hs : SameTransfers w.db
      (w.db.set transferJobs (assignWhere condition assign (w.db transferJobs))) :=
    .assign hsame
  refine h.store entry (h.consistent.set hvalid) hs.kept fun j' hj' => .inl ?_
  rw [Database.set_self, mem_assignWhere] at hj'
  rcases hj' with ⟨j, hj, hc, rfl⟩ | ⟨hj, -⟩
  · exact ⟨j, hj, hsame j, hheld j hj hc⟩
  · exact ⟨j', hj, .refl j', h.succeeded j' hj⟩

theorem Inv.finish {l : WorkerLog ι} {w : World} (h : Inv l w)
    (entry : Entry ι Call Call.Answer) {job : TransferJob} {f : JobFinish}
    (hheld : f.status = .succeeded → ∀ j ∈ w.db transferJobs, j.id = job.id →
      ∃ id, f.providerTransferId = some id ∧ Holds w j.externalId id) :
    Inv (entry :: l) { w with db := (atomically metadata (finish job f) w.db).2 } ∧
      Rely w { w with db := (atomically metadata (finish job f) w.db).2 } := by
  rw [finish_apply]
  split_ifs with hvalid
  · refine h.assign entry hvalid (fun j => ⟨rfl, rfl, rfl, rfl, rfl, rfl, rfl, rfl⟩) ?_
    intro j hj hc hstatus
    simp only [heldBy, Bool.and_eq_true, beq_iff_eq] at hc
    exact hheld hstatus j hj hc.1.1
  · exact ⟨h.log entry, .refl w⟩

theorem Inv.claim {l : WorkerLog ι} {w : World} (h : Inv l w)
    (entry : Entry ι Call Call.Answer) (claim : JobClaim) :
    Inv (entry :: l) { w with db := ((StoreOp.transfers (.claim claim)).apply w.db).2 } ∧
      Rely w { w with db := ((StoreOp.transfers (.claim claim)).apply w.db).2 } := by
  rcases claim_apply h.consistent claim with ⟨-, hnone⟩ | ⟨row, hrow, -, hsome⟩
  · rw [hnone]
    exact ⟨h.log entry, .refl w⟩
  · rw [hsome]
    have hsame : ∀ j, SameTransfer j (claimed claim row j) :=
      fun j => ⟨rfl, rfl, rfl, rfl, rfl, rfl, rfl, rfl⟩
    refine h.assign entry (jobs_valid h.consistent hsame fun _ => rfl) hsame ?_
    intro j hj hc hstatus
    simp [claimed] at hstatus

theorem Inv.record {l : WorkerLog ι} {w : World} (h : Inv l w) {i : ι}
    {jobId : TransferJobId} {r : EventRecord} {answer : Except StoreError EventWriteResult}
    (hnet : ∀ event net, r.event = .credited event → r.netAmount = some net →
      calculateNetAmount event.amount event.fee = .ok net)
    (htrue : ∀ event, r.event = .lifecycle event →
      Holds w event.externalId event.transferId) :
    Inv (⟨i, .store (.events (.record jobId r)), answer⟩ :: l)
        { w with db := ((StoreOp.events (.record jobId r)).apply w.db).2 } ∧
      Rely w { w with db := ((StoreOp.events (.record jobId r)).apply w.db).2 } := by
  have hjobs := record_apply_jobs jobId r w.db
  refine h.store _ (StoreOp.apply_consistent h.consistent _) hjobs.kept fun j' hj' => ?_
  generalize ((StoreOp.events (.record jobId r)).apply w.db).2 transferJobs = jobs' at *
  cases hjobs with
  | same => exact .inl ⟨j', hj', .refl j', h.succeeded j' hj'⟩
  | queued hevent hsome =>
      next event net =>
        rcases List.mem_append.mp hj' with hj' | hj'
        · exact .inl ⟨j', hj', .refl j', h.succeeded j' hj'⟩
        · rw [List.mem_singleton.mp hj']
          obtain ⟨-, -, hnet', -⟩ := calculateNetAmount_ok (hnet event net hevent hsome)
          refine .inr ⟨rfl, rfl, ?_, by simp [newJob]⟩
          exact ⟨_, List.mem_cons_self, jobId, r, event, rfl, hevent, rfl, rfl, rfl, hnet'⟩
  | updated hevent =>
      next event =>
        rcases mem_assignWhere.mp hj' with ⟨j, hj, hc, rfl⟩ | ⟨hj, -⟩
        · refine .inl ⟨j, hj, ⟨rfl, rfl, rfl, rfl, rfl, rfl, rfl, rfl⟩, fun _ => ?_⟩
          refine ⟨event.transferId, rfl, ?_⟩
          rw [beq_iff_eq.mp hc]
          exact htrue event hevent
        · exact .inl ⟨j', hj, .refl j', h.succeeded j' hj⟩

/-- A command rebuilt from a job, whatever the provider makes of it. -/
theorem Inv.create {l : WorkerLog ι} {w : World} (h : Inv l w)
    (entry : Entry ι Call Call.Answer) {j : TransferJobRow} (hj : j ∈ w.db transferJobs)
    {answer : SdkAnswer SdkTransfer} {held : List HeldTransfer}
    (hcreate : TransferCreated w.transfers
      (transferRequest (buildTransferCommand j.invoiceId j.netAmount)) answer held) :
    Inv (entry :: l) { w with transfers := held } ∧ Rely w { w with transfers := held } := by
  have hadded : ∀ {id status}, (∀ t ∈ w.transfers, t.request.externalId ≠
        (transferRequest (buildTransferCommand j.invoiceId j.netAmount)).externalId) →
      held = w.transfers ++
        [⟨id, transferRequest (buildTransferCommand j.invoiceId j.netAmount), status⟩] →
      Inv (entry :: l) { w with transfers := held } ∧ Rely w { w with transfers := held } := by
    rintro id status hfresh rfl
    obtain ⟨hext, htag⟩ := h.keys j hj
    have hrely : Rely w { w with transfers := w.transfers ++
        [⟨id, transferRequest (buildTransferCommand j.invoiceId j.netAmount), status⟩] } :=
      ⟨fun j hj => ⟨j, hj, .refl j⟩,
        fun t ht => ⟨t, List.mem_append.mpr (.inl ht), rfl, rfl⟩⟩
    have hnew : ∀ invoiceId, ForInvoice invoiceId
        ⟨id, transferRequest (buildTransferCommand j.invoiceId j.netAmount), status⟩ ↔
          invoiceId = j.invoiceId :=
      fun invoiceId => forInvoice_of_keys invoiceId j.netAmount rfl rfl
    refine ⟨⟨h.consistent, h.keys, (h.log entry).from_credit, ?_, ?_, ?_⟩, hrely⟩
    · intro t ht invoiceId hfor
      rcases List.mem_append.mp ht with ht | ht
      · exact h.has_job t ht invoiceId hfor
      · obtain rfl := List.mem_singleton.mp ht
        refine ⟨j, hj, ((hnew invoiceId).mp hfor).symm, ?_⟩
        exact ⟨hext.symm, by rw [htag]; rfl, rfl, rfl, rfl, rfl, rfl, rfl, rfl⟩
    · intro invoiceId
      by_cases hinv : invoiceId = j.invoiceId
      · have hnone : w.transfers.filter (ForInvoice invoiceId) = [] := by
          rw [List.filter_eq_nil_iff]
          intro t ht hfor
          obtain ⟨j', hj', hinv', hm⟩ := h.has_job t ht invoiceId (by simpa using hfor)
          refine hfresh t ht ?_
          rw [hm.externalId, (h.keys j' hj').1, hinv', hinv]
          rfl
        rw [List.filter_append, hnone, List.nil_append]
        exact List.length_filter_le _ _
      · rw [List.filter_append, List.filter_singleton]
        simp only [hnew, hinv, decide_false, cond_false, List.append_nil]
        exact h.once invoiceId
    · intro j' hj' hs
      obtain ⟨id', hid', hholds⟩ := h.succeeded j' hj' hs
      exact ⟨id', hid', hholds.rely hrely⟩
  cases hcreate with
  | refused => exact ⟨h.log entry, .refl w⟩
  | failed => exact ⟨h.log entry, .refl w⟩
  | created hfresh => exact hadded hfresh rfl
  | ambiguous hfresh => exact hadded hfresh rfl

/-! ### The programs -/

theorem sound : (protocol ι).Sound where
  rely_refl _ _ w := .refl w
  rely_trans _ _ _ _ _ _ _ h h' := h.trans h'
  drift_keeps _ _ _ h hd := ⟨(h.drift hd.1 hd.2).1, fun _ => (h.drift hd.1 hd.2).2⟩
  dies_keeps := by
    rintro l w i w' h rfl
    exact ⟨h, fun _ _ => .refl _⟩

/-- The claimed job is a row: what it transfers is what the row transfers. -/
def Backed (job : TransferJob) (w : World) : Prop :=
  ∃ j ∈ w.db transferJobs, j.id = job.id ∧ j.invoiceId = job.invoiceId ∧
    j.netAmount = job.netAmount

theorem Backed.stable (i : ι) (job : TransferJob) :
    (protocol ι).Stable i fun _ w => Backed job w := by
  rintro l w l' w' ⟨j, hj, hid, hinv, hnet⟩ hr -
  obtain ⟨j', hj', hs⟩ := Rely.jobs hr j hj
  exact ⟨j', hj', hs.id.trans hid, hs.invoiceId.trans hinv, hs.netAmount.trans hnet⟩

theorem Backed.transfers {job : TransferJob} {w : World} (h : Backed job w)
    (held : List HeldTransfer) : Backed job { w with transfers := held } := h

variable {i : ι} {job : TransferJob} {l : WorkerLog ι} {w : World}

/-- What a lookup returns is held. -/
theorem TransferListed.found {held : List HeldTransfer} {tags : List String}
    {externalId : ExternalId} {items : SdkAnswer SdkTransfer} {t : ProviderTransfer}
    (h : TransferListed held tags items)
    (ht : firstWithExternalId externalId items = .ok (some t)) :
    ∃ x ∈ held, x.request.externalId = externalId ∧ x.id = t.id := by
  obtain ⟨item, hitem, hext, rfl⟩ := firstWithExternalId_mem ht
  obtain ⟨x, hx, hid, hxExt, -⟩ := h item hitem
  exact ⟨x, hx, hxExt.trans hext, hid⟩

theorem TransferCreated.answered {held held' : List HeldTransfer} {request : TransferRequest}
    {answer : SdkAnswer SdkTransfer} (h : TransferCreated held request answer held')
    {t : SdkTransfer} (ht : answer.head? = some (.ok t)) :
    ∃ x ∈ held', x.request.externalId = request.externalId ∧ x.id = t.id := by
  cases h with
  | refused => simp at ht
  | failed hno => exact absurd ht (hno t)
  | created =>
      next id status _ =>
        obtain rfl : (⟨id, request.externalId, status⟩ : SdkTransfer) = t := by simpa using ht
        exact ⟨⟨id, request, status⟩, by simp, rfl, rfl⟩
  | ambiguous _ hno => exact absurd ht (hno t)

/-- One call of a program, from what it does to the world. -/
theorem triple_of {pre : WorkerLog ι → World → Prop} {call : Call}
    {result : call.Answer → WorkerLog ι → World → Prop} (hstable : (protocol ι).Stable i pre)
    (h : ∀ l w r w', pre l w → Inv l w → Performs provider (fun _ => True) w call r w' →
      (Inv (⟨i, call, r⟩ :: l) w' ∧ Rely w w') ∧ result r (⟨i, call, r⟩ :: l) w') :
    (protocol ι).Triple i pre call result where
  stable := hstable
  demand _ _ _ _ := trivial
  keeps l w r w' hpre hi he := by
    obtain ⟨⟨hinv, hrely⟩, -⟩ := h l w r w' hpre hi he
    exact ⟨hinv, fun _ _ => hrely⟩
  result l w r w' hpre hi he := (h l w r w' hpre hi he).2

/-- A transaction, from what it does to the database. -/
theorem triple_store {pre : WorkerLog ι → World → Prop} {op : StoreOp}
    (hstable : (protocol ι).Stable i pre)
    (h : ∀ l w r, pre l w → Inv l w →
      Inv (⟨i, .store op, r⟩ :: l) { w with db := (op.apply w.db).2 } ∧
        Rely w { w with db := (op.apply w.db).2 }) :
    (protocol ι).Triple i pre (.store op) fun _ _ _ => True := by
  refine triple_of hstable fun l w r w' hpre hi he => ⟨?_, trivial⟩
  obtain ⟨-, rfl⟩ := he
  exact h l w r hpre hi

/-- The clock is read. -/
theorem triple_now {fact : World → Prop} (hstable : (protocol ι).Stable i fun _ w => fact w) :
    (protocol ι).Triple i (fun _ w => fact w) .now fun _ _ w => fact w := by
  refine triple_of hstable fun l w time w' hfact hi he => ?_
  obtain ⟨-, rfl⟩ := he
  exact ⟨⟨hi.log _, .refl _⟩, hfact⟩

/-- A finish that does not say succeeded. -/
theorem triple_finish {op : StoreOp} {f : JobFinish}
    (hop : ∀ db, (op.apply db).2 = (atomically metadata (finish job f) db).2)
    (hstatus : f.status ≠ .succeeded) :
    (protocol ι).Triple i (fun _ w => Backed job w) (.store op) fun _ _ _ => True := by
  refine triple_store (Backed.stable i job) fun l w r _ hi => ?_
  rw [hop]
  exact hi.finish _ fun h => absurd h hstatus

/-- What a claim returns is a row of the table it leaves. -/
theorem claim_backed (hc : metadata.Consistent w.db) (claim : JobClaim)
    (hjob : ((StoreOp.transfers (.claim claim)).apply w.db).1 = .ok (some job)) :
    Backed job { w with db := ((StoreOp.transfers (.claim claim)).apply w.db).2 } := by
  rcases claim_apply hc claim with ⟨-, hnone⟩ | ⟨row, hrow, -, hsome⟩
  · rw [hnone] at hjob
    simp at hjob
  · rw [hsome] at hjob ⊢
    obtain rfl := Option.some.inj (Except.ok.inj hjob)
    refine ⟨claimed claim row row, ?_, rfl, rfl, rfl⟩
    change _ ∈ (w.db.set transferJobs _) transferJobs
    rw [Database.set_self]
    exact mem_assignWhere.mpr (.inl ⟨row, hrow, by simp, rfl⟩)

/-- The calls for a claimed job. -/
theorem claimedRules (i : ι) (cfg : WorkerSettings) (job : TransferJob) (time : ℤ) :
    ClaimedRules (protocol ι) i cfg job time (fun _ w => Backed job w)
      (fun t _ w => Holds w (commandOf job).externalId t.id) where
  query := by
    refine triple_of (Backed.stable i job) fun l w answer w' hb hi he => ?_
    obtain ⟨hlisted, rfl⟩ := he
    exact ⟨⟨hi.log _, .refl _⟩, hb, fun t ht => hlisted.found ht⟩
  create := by
    refine triple_of (Backed.stable i job) fun l w answer w' hb hi he => ?_
    obtain ⟨held, hcreate, rfl⟩ := he
    refine ⟨?_, hb, fun t ht => TransferCreated.answered hcreate ht⟩
    obtain ⟨j, hj, -, hinv, hnet⟩ := hb
    change TransferCreated _ (transferRequest (buildTransferCommand _ _)) _ _ at hcreate
    rw [← hinv, ← hnet] at hcreate
    exact hi.create _ hj hcreate
  succeeded t := by
    have hstable : (protocol ι).Stable i fun _ w => Backed job w ∧
        Holds w (commandOf job).externalId t.id :=
      fun l w l' w' h hr hi => ⟨Backed.stable i job l w l' w' h.1 hr hi, h.2.rely hr⟩
    refine triple_store hstable fun l w r ⟨hb, hheld⟩ hi => ?_
    refine hi.finish _ fun _ j' hj' hid' => ⟨t.id, rfl, ?_⟩
    obtain ⟨j, hj, hid, hinv, hnet⟩ := hb
    obtain rfl := (hi.consistent transferJobs).eq_of_key hj' hj (hid'.trans hid.symm)
    rw [(hi.keys j' hj').1, hinv, hnet]
    exact hheld
  failed code := triple_finish (fun _ => rfl) (by simp [JobFinish.failed])
  retry code := triple_finish (fun _ => rfl) (by simp [JobFinish.retry])
  unknown code := triple_finish (fun _ => rfl) (by simp [JobFinish.unknown])

theorem stable_true (i : ι) : (protocol ι).Stable i fun _ _ => True :=
  fun _ _ _ _ _ _ _ => trivial

theorem processRules (i : ι) (cfg : WorkerSettings) :
    ProcessRules (protocol ι) i cfg (fun _ _ => True) (fun _ _ _ => True)
      (fun job _ w => Backed job w) (fun job _ _ w => Backed job w)
      (fun job t _ w => Holds w (commandOf job).externalId t.id) where
  now := triple_now (stable_true i)
  claim time := by
    refine triple_of (stable_true i) fun l w r w' _ hi he => ?_
    obtain ⟨hanswer, rfl⟩ := he
    exact ⟨hi.claim _ _, fun job hjob => claim_backed hi.consistent _ (hanswer.symm.trans hjob)⟩
  nowAgain job := triple_now (Backed.stable i job)
  claimed := claimedRules i cfg

theorem TrueDelivery.stable (i : ι) (delivery : Delivery) :
    (protocol ι).Stable i fun _ w => TrueDelivery w.transfers delivery := by
  intro l w l' w' h hr _
  match delivery, h with
  | .verified (.lifecycle event) _, h => exact Holds.rely h hr
  | .verified (.credited _) _, _ => trivial
  | .verified (.ignored _) _, _ => trivial
  | .unexpectedWorkspace _ _, _ => trivial

theorem deliveryRules (i : ι) (jobId : TransferJobId) (delivery : Delivery) :
    DeliveryRules (protocol ι) i jobId delivery
      (fun _ w => TrueDelivery w.transfers delivery)
      (fun _ _ w => TrueDelivery w.transfers delivery) where
  now := triple_now (TrueDelivery.stable i delivery)
  record event payloadHash time hdelivery := by
    refine triple_store (TrueDelivery.stable i delivery) fun l w r htrue hi => hi.record ?_ ?_
    · intro credited net hevent hnet
      exact EventJobCorrespondence.receivedRecord_net hevent hnet
    · rintro lifecycle rfl
      rw [hdelivery] at htrue
      exact htrue
  ignored event payloadHash time _ := by
    refine triple_store (TrueDelivery.stable i delivery) fun l w r _ hi => ?_
    have hsame := recordIgnoredWorkspace_apply_jobs (foreignRecord event payloadHash time) w.db
    exact hi.store _ (StoreOp.apply_consistent hi.consistent _)
      (fun j hj => ⟨j, hsame ▸ hj, .refl j⟩)
      (fun j hj => .inl ⟨j, hsame ▸ hj, .refl j, hi.succeeded j (hsame ▸ hj)⟩)

theorem kept : (protocol ι).Kept Unconditionally fun _ => Anything where
  toSound := sound
  begins := by
    rintro l w i p - - hadmitted
    cases hadmitted with
    | worker cfg => exact discard_ensures sound ((processRules i cfg).processOne_ensures trivial)
    | delivery jobId delivery htrue =>
        exact discard_ensures sound ((deliveryRules i jobId delivery).receive_ensures htrue)

/-! ### Every interleaving -/

structure TransferredOnce (l : WorkerLog ι) (w : World) : Prop where
  once : ∀ invoiceId, (w.transfers.filter (ForInvoice invoiceId)).length ≤ 1
  asked_for : ∀ t ∈ w.transfers, ∀ invoiceId, ForInvoice invoiceId t →
    ∃ j ∈ w.db transferJobs, j.invoiceId = invoiceId ∧ Matches j t ∧ FromCredit l j
  succeeded : ∀ j ∈ w.db transferJobs, j.status = .succeeded →
    ∃ t ∈ w.transfers, ForInvoice j.invoiceId t ∧ Matches j t ∧ j.providerTransferId = some t.id

theorem Inv.transferredOnce {l : WorkerLog ι} {w : World} (h : Inv l w) :
    TransferredOnce l w where
  once := h.once
  asked_for := by
    intro t ht invoiceId hfor
    obtain ⟨j, hj, hinv, hm⟩ := h.has_job t ht invoiceId hfor
    exact ⟨j, hj, hinv, hm, h.from_credit j hj⟩
  succeeded := by
    intro j hj hs
    obtain ⟨id, hid, t, ht, hext, rfl⟩ := h.succeeded j hj hs
    have hfor : ForInvoice j.invoiceId t := .inl (by rw [hext, (h.keys j hj).1]; rfl)
    obtain ⟨j', hj', hinv, hm⟩ := h.has_job t ht j.invoiceId hfor
    have hsame : j' = j := (h.consistent transferJobs).eq_of_clash hj' hj
      (by simp [metadata, uniqueConflict, hinv])
    exact ⟨t, ht, hfor, hsame ▸ hm, hid⟩

/-- From an empty job table and a provider that holds nothing of ours, through any
interleaving of workers, crashes and deliveries, every credited invoice is transferred
at most once, as its job says, and a succeeded job has its transfer. -/
theorem transferred_once [DecidableEq ι] {w : World} (hc : metadata.Consistent w.db)
    (hjobs : w.db transferJobs = [])
    (hheld : ∀ t ∈ w.transfers, ∀ invoiceId, ¬ ForInvoice invoiceId t)
    {c : Config ι Call Call.Answer Failure Unit World}
    (h : Runs (system ι) (.initial w) c) : TransferredOnce c.log c.state := by
  have hstart : Inv ([] : WorkerLog ι) w := by
    refine ⟨hc, by simp [hjobs], by simp [hjobs], ?_, ?_, by simp [hjobs]⟩
    · intro t ht invoiceId hfor
      exact absurd hfor (hheld t ht invoiceId)
    · intro invoiceId
      rw [List.filter_eq_nil_iff.mpr fun t ht => by simpa using hheld t ht invoiceId]
      exact Nat.zero_le 1
  exact Inv.transferredOnce (kept.inv hstart h)

/-! ### A run with a lost answer -/

theorem honestInvoices : HonestInvoices ({} : ScriptRules ℕ) provider :=
  ⟨fun _ _ _ _ => trivial, fun _ _ _ _ _ _ => trivial, fun _ _ _ => trivial,
    fun _ _ _ => trivial, fun _ _ _ _ => trivial⟩

theorem honestTransfers : HonestTransfers ({} : ScriptRules ℕ) provider where
  created _ _ _ h _ := .created h
  lost _ _ _ _ h _ _ := .ambiguous h (by simp [NoTransfer])
  refused w request h := .refused (by simpa using h)
  failed _ _ _ _ := .failed (by simp [NoTransfer])
  listed w limit tags _ := by
    intro item hitem
    obtain ⟨t, ht, heq⟩ := List.mem_map.mp hitem
    obtain rfl := Except.ok.inj heq
    have hmem := List.mem_filter.mp (List.mem_of_mem_take ht)
    exact ⟨t, hmem.1, rfl, rfl, by simpa using hmem.2⟩
  unlisted _ _ _ _ := by
    intro item hitem
    simp at hitem

/-- A credit, a creation whose answer is lost, and the worker that looks it up. -/
def lostAnswer : List (ScriptedMove ℕ) :=
  [.begin 0 (receive "j" creditDelivery).discard, .call 0 (.clock 0), .call 0 .commit,
    .begin 1 (processOne {}).discard, .call 1 (.clock 1), .call 1 .commit, .call 1 (.clock 1),
    .call 1 .lookup, .call 1 (.lost "t" .unknownError), .call 1 .commit,
    .begin 2 (processOne {}).discard, .call 2 (.clock (seconds 10)), .call 2 .commit,
    .call 2 (.clock (seconds 10)), .call 2 .lookup, .call 2 .commit]

theorem lostAnswer_allowed : ∀ m ∈ lostAnswer, m.Allowed (system ℕ) := by
  have hworker : ∀ w, Admitted w (processOne {}).discard := fun w => .worker {}
  have hdelivery : ∀ w, Admitted w (receive "j" creditDelivery).discard :=
    fun w => .delivery "j" creditDelivery trivial
  simp [lostAnswer, Move.Allowed, system, hworker, hdelivery]

theorem transferred_once_lostAnswer : ∃ c,
    playScript {} creditWorld lostAnswer = some c ∧ TransferredOnce c.log c.state ∧
      c.state.transfers.length = 1 ∧
      (c.state.db transferJobs).map TransferJobRow.status = [.succeeded] := by
  have hends : (playScript {} creditWorld lostAnswer).map (fun c =>
      (c.state.transfers.length, (c.state.db transferJobs).map TransferJobRow.status)) =
        some (1, [.succeeded]) := by decide
  obtain ⟨c, hplay, hc⟩ := Option.map_eq_some_iff.mp hends
  have hruns : Runs (system ℕ) (.initial creditWorld) c :=
    playScript_runs honestInvoices honestTransfers (fun _ _ _ _ _ _ _ h => h.mono fun _ _ => trivial)
      lostAnswer_allowed hplay
  obtain ⟨hlength, hstatus⟩ := Prod.mk.inj hc
  exact ⟨c, hplay, transferred_once (by decide) rfl (by simp [creditWorld]) hruns, hlength,
    hstatus⟩

end StarkbankTrial.TransferOnce
