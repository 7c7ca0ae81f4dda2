import StarkbankTrial.BatchChanges
import StarkbankTrial.ScriptedRuns
import StarkbankTrial.TrialRules

/-!
# Leases of invoice batches

Ticks, reconcile passes and deliveries on one clock. A claim sets the lease of a batch, and
a settle of anybody clears it. As long as nobody settles a batch that another tick has under
its lease, unless the batch is over by then, no claim returns such a batch.
-/
namespace StarkbankTrial.BatchLeases
open Domain InteractivePrograms InterleavedRuns RelationalTables Transaction DatabaseSchema
open DatabaseSchema.Table
open InvoiceRecording BatchClaims StoreOperations BatchChanges ExternalCalls
open Services WorkerRules TrialRules ScriptedRuns
open Program hiding atomically

/-! ### What transactions do to the batches -/

/-- A claim takes one due batch or, when there is none, degrades the exhausted ones. -/
inductive BatchClaimed (claim : BatchClaim) (batches : List InvoiceBatchRow) :
    Option InvoiceBatch → List InvoiceBatchRow → Prop
  | nothing : BatchClaimed claim batches none
      (assignWhere (exhausted claim) (degradedAt claim) batches)
  | taken {row : InvoiceBatchRow} {batch : InvoiceBatch} : row ∈ batches →
      due claim row = true → batch.id = row.id → batch.leaseUntil = claim.leaseUntil →
      BatchClaimed claim batches (some batch)
        (assignWhere (fun b : InvoiceBatchRow => b.id == row.id) (leased claim row) batches)

variable {db : Database Row}

theorem degradeExhaustedBatches_batches (claim : BatchClaim) :
    Establishes (respond metadata) (degradeExhaustedBatches claim) (fun _ db' =>
      db' invoiceBatches = assignWhere (exhausted claim) (degradedAt claim) (db invoiceBatches))
      db := by
  unfold degradeExhaustedBatches
  refine establishes_updateRows fun _ => ?_
  have hset : (db.set invoiceBatches (assignWhere (exhausted claim) (degradedAt claim)
      (db invoiceBatches))) invoiceBatches = _ := Database.set_self _ _ _
  refine establishes_ite _ (fun _ => (establishes_done _).mpr hset) fun _ => ?_
  have hruns : ∀ runIds : List TrialRunId, (Program.forEach (fun runId => do
      let _ ← updateRows trialRuns (fun r : TrialRunRow => r.id == runId)
        fun r => { r with status := .degraded, activeMarker := none }) runIds :
        Txn Unit).Issues fun st => ¬ st.Writes invoiceBatches := by
    intro runIds
    exact .forEach fun runId _ => by simp
  simp only [select_bind, establishes_call, respond_select]
  exact (establishes_frame (hruns _)).mono fun _ db' h => h.trans hset

theorem claimDueBatch_batches (claim : BatchClaim) :
    Establishes (respond metadata) (claimDueBatch claim) (fun claimed db' =>
      BatchClaimed claim (db invoiceBatches) claimed (db' invoiceBatches)) db := by
  unfold claimDueBatch
  simp only [lockFirst_bind, establishes_call, respond_lockFirst]
  cases hfirst : firstBy (fun a b : InvoiceBatchRow => a.scheduledAt ≤ b.scheduledAt)
      ((db invoiceBatches).filter (due claim)) with
  | none =>
      refine .bind ((degradeExhaustedBatches_batches claim).mono fun _ db' h => ?_)
      refine (establishes_done _).mpr ?_
      rw [h]
      exact .nothing
  | some row =>
      have hmem := List.mem_filter.mp (firstBy_mem hfirst)
      refine establishes_updateRows fun _ => (establishes_done _).mpr ?_
      rw [Database.set_self]
      exact .taken hmem.1 hmem.2 rfl rfl

/-- The drafts of a batch are all created, or one of them failed. -/
def Final (db : Database Row) (batchId : BatchId) : Prop :=
  ∀ b ∈ db invoiceBatches, b.id = batchId →
    (countStatus ((db invoiceDrafts).filter fun d : InvoiceDraftRow => d.batchId == batchId)
      .created : ℤ) = b.targetCount ∨
    0 < countStatus ((db invoiceDrafts).filter fun d : InvoiceDraftRow => d.batchId == batchId)
      .failed

theorem settle_batches (batchId : BatchId) (now : ℤ) :
    Establishes (respond metadata) (settle batchId now) (fun status db' =>
      (db' invoiceBatches = assignWhere (fun b : InvoiceBatchRow => b.id == batchId)
        (settledAt status now) (db invoiceBatches)) ∧
      (Final db batchId → status = .completed ∨ status = .degraded)) db := by
  unfold settle
  simp only [select_bind, establishes_call, respond_select]
  refine establishes_one fun batch hbatch => ?_
  simp only [establishes_call, respond_select]
  have hmem := List.mem_filter.mp (List.mem_of_head? hbatch)
  refine establishes_updateRows fun _ => .bind ?_
  have hruns : ∀ status, (settleRun batch.runId status now).Issues
      fun st => ¬ st.Writes invoiceBatches := by
    intro status
    refine Program.Issues.mono (settleRun_writes batch.runId status now) fun st hst hw => ?_
    simpa using hst invoiceBatches hw
  refine (establishes_frame (hruns _)).mono fun _ db' h => (establishes_done _).mpr ⟨?_, ?_⟩
  · rw [h, Database.set_self]
    rfl
  · intro hfinal
    unfold settledStatus
    rcases hfinal batch hmem.1 (beq_iff_eq.mp hmem.2) with hall | hfailed
    · rw [if_pos hall]
      exact .inl rfl
    · split_ifs
      · exact .inl rfl
      · exact .inr rfl

/-! ### Claims that are not settled -/

section
variable {ι : Type}

/-- The process and the batch of a claim that returned one. -/
def claimed : Entry ι Call Call.Answer → Option (ι × InvoiceBatch)
  | ⟨i, .store (.trials (.claimDueBatch _)), .ok batch⟩ =>
      Option.map (fun batch : InvoiceBatch => (i, batch)) batch
  | _ => none

variable [DecidableEq ι]

def settles (i : ι) : Entry ι Call Call.Answer → Bool
  | ⟨j, .store (.invoices (.settle _ _)), _⟩ => j = i
  | _ => false

/-- The claims whose processes have not run their settle. -/
def unsettled (l : Log ι Call Call.Answer) : List (ι × InvoiceBatch) :=
  (l.filterMap claimed).filter fun x => !l.any (settles x.1)

theorem mem_unsettled_cons {e : Entry ι Call Call.Answer} {l : Log ι Call Call.Answer}
    {x : ι × InvoiceBatch} (h : x ∈ unsettled (e :: l)) :
    claimed e = some x ∨ x ∈ unsettled l ∧ settles x.1 e = false := by
  unfold unsettled at h ⊢
  obtain ⟨hmem, hnot⟩ := List.mem_filter.mp h
  simp only [List.any_cons, Bool.not_or, Bool.and_eq_true, Bool.not_eq_true'] at hnot
  obtain ⟨e', he', hx⟩ := List.mem_filterMap.mp hmem
  rcases List.mem_cons.mp he' with rfl | he'
  · exact .inl hx
  · refine .inr ⟨List.mem_filter.mpr ⟨List.mem_filterMap.mpr ⟨e', he', hx⟩, ?_⟩, hnot.1⟩
    simp [hnot.2]

/-! ### The invariant -/

/-- The batch is under this lease, or it is over. -/
def Reserved (db : Database Row) (batch : InvoiceBatch) : Prop :=
  ∀ b ∈ db invoiceBatches, b.id = batch.id →
    b.status = .issuing ∧ b.leaseUntil = some batch.leaseUntil ∨
      b.status = .completed ∨ b.status = .degraded

def Inv (l : Log ι Call Call.Answer) (w : World) : Prop :=
  ∀ x ∈ unsettled l, w.time < x.2.leaseUntil → Reserved w.db x.2

omit [DecidableEq ι] in
theorem Reserved.of_eq {db db' : Database Row} {batch : InvoiceBatch} (h : Reserved db batch)
    (hbatches : db' invoiceBatches = db invoiceBatches) : Reserved db' batch :=
  fun b hb => h b (hbatches ▸ hb)

omit [DecidableEq ι] in
/-- An assignment that spares the batch. -/
theorem Reserved.assign {db db' : Database Row} {batch : InvoiceBatch} (h : Reserved db batch)
    {condition : InvoiceBatchRow → Bool} {assign : InvoiceBatchRow → InvoiceBatchRow}
    (hbatches : db' invoiceBatches = assignWhere condition assign (db invoiceBatches))
    (hspared : ∀ b ∈ db invoiceBatches, condition b = true → (assign b).id = b.id ∧
      (b.id = batch.id → (assign b).status = .completed ∨ (assign b).status = .degraded)) :
    Reserved db' batch := by
  intro b hb hid
  rw [hbatches] at hb
  rcases mem_assignWhere.mp hb with ⟨row, hrow, hc, rfl⟩ | ⟨hb, -⟩
  · obtain ⟨hsame, hover⟩ := hspared row hrow hc
    exact .inr (hover (hsame.symm.trans hid))
  · exact h b hb hid

omit [DecidableEq ι] in
/-- A reserved batch is not due before its lease has run out. -/
theorem Reserved.not_claimable {db : Database Row} {batch : InvoiceBatch} (h : Reserved db batch)
    {claim : BatchClaim} (hlease : claim.now < batch.leaseUntil) {row : InvoiceBatchRow}
    (hrow : row ∈ db invoiceBatches) (hid : row.id = batch.id) : claimable claim row = false := by
  unfold claimable
  rcases h row hrow hid with ⟨-, hrowLease⟩ | hstatus | hstatus
  · simp [hrowLease, hlease]
  · simp [hstatus]
  · simp [hstatus]

/-- No batch that is due is under a claim that is not settled. -/
theorem Inv.not_taken {l : Log ι Call Call.Answer} {w : World} (h : Inv l w) {claim : BatchClaim}
    (hnow : claim.now ≤ w.time) {row : InvoiceBatchRow} (hrow : row ∈ w.db invoiceBatches)
    (hdue : due claim row = true) {x : ι × InvoiceBatch} (hx : x ∈ unsettled l)
    (hlease : w.time < x.2.leaseUntil) : row.id ≠ x.2.id := by
  intro hid
  have hnot := (h x hx hlease).not_claimable (lt_of_le_of_lt hnow hlease) hrow hid
  simp [due, hnot] at hdue

/-! ### What a call keeps -/

/-- Nobody settles a batch under the lease of another tick, unless the batch is over. -/
def Undisturbed (l : Log ι Call Call.Answer) (w : World) (i : ι) : Call → Prop
  | .store (.invoices (.settle batchId _)) => ∀ x ∈ unsettled l, x.1 ≠ i → x.2.id = batchId →
      w.time < x.2.leaseUntil → Final w.db batchId
  | _ => True

/-- A claim shows a time that the clock had. -/
def Timely (w : World) : Call → Prop
  | .store (.trials (.claimDueBatch claim)) => claim.now ≤ w.time
  | .store (.trials (.create _ _ _)) => False
  | _ => True

variable {l : Log ι Call Call.Answer} {w w' : World} {i : ι}

theorem Inv.unchanged (h : Inv l w) {e : Entry ι Call Call.Answer} (he : claimed e = none)
    (hbatches : w'.db invoiceBatches = w.db invoiceBatches) (htime : w'.time = w.time) :
    Inv (e :: l) w' := by
  intro x hx hlease
  rcases mem_unsettled_cons hx with hnew | ⟨hx, -⟩
  · simp [he] at hnew
  · exact (h x hx (htime ▸ hlease)).of_eq hbatches

theorem Inv.claims (h : Inv l w) {claim : BatchClaim} (hnow : claim.now ≤ w.time)
    {r : Except StoreError (Option InvoiceBatch)} {db' : Database Row}
    (hrun : atomically metadata (claimDueBatch claim) w.db = (r, db')) :
    (∀ x ∈ unsettled l, w.time < x.2.leaseUntil → ∀ batch, r = .ok (some batch) →
      batch.id ≠ x.2.id) ∧
    Inv (⟨i, .store (.trials (.claimDueBatch claim)), r⟩ :: l) { w with db := db' } := by
  rcases Program.atomically_cases (respond metadata) (claimDueBatch claim) w.db with
    ⟨batch, t, hrun', hatom⟩ | ⟨e, hatom⟩
  · have hchanged : BatchClaimed claim (w.db invoiceBatches) batch (t invoiceBatches) :=
      claimDueBatch_batches claim _ _ hrun'
    obtain ⟨rfl, rfl⟩ := Prod.mk.inj (hatom.symm.trans hrun)
    generalize hbatches : t invoiceBatches = batches at hchanged
    cases hchanged with
    | nothing =>
        refine ⟨by simp, fun x hx hlease => ?_⟩
        rcases mem_unsettled_cons hx with hnew | ⟨hx, -⟩
        · simp [claimed] at hnew
        · exact (h x hx hlease).assign hbatches fun b _ _ => ⟨rfl, fun _ => .inr rfl⟩
    | @taken row batch hrow hdue hid hlease' =>
        have hother : ∀ x ∈ unsettled l, w.time < x.2.leaseUntil → row.id ≠ x.2.id :=
          fun _ hx => h.not_taken hnow hrow hdue hx
        refine ⟨fun x hx hlease batch' hbatch' => ?_, fun x hx hlease => ?_⟩
        · obtain rfl : batch = batch' := by simpa using hbatch'
          exact hid ▸ hother x hx hlease
        · rcases mem_unsettled_cons hx with hnew | ⟨hx, -⟩
          · obtain rfl : (i, batch) = x := by simpa [claimed] using hnew
            intro b hb hb'
            change b ∈ t invoiceBatches at hb
            rw [hbatches] at hb
            rcases mem_assignWhere.mp hb with ⟨b, -, -, rfl⟩ | ⟨-, hne⟩
            · exact .inl ⟨rfl, congrArg some hlease'.symm⟩
            · exact absurd (hb'.trans hid) (by simpa using hne)
          · refine (h x hx hlease).assign hbatches fun b _ hb => ⟨rfl, fun hb' => ?_⟩
            exact absurd ((beq_iff_eq.mp hb).symm.trans hb') (hother x hx hlease)
  · obtain ⟨rfl, rfl⟩ := Prod.mk.inj (hatom.symm.trans hrun)
    exact ⟨by simp, h.unchanged rfl rfl rfl⟩

/-- The settle of a batch, by its own tick or by somebody else. -/
theorem Inv.settle (h : Inv l w) {batchId : BatchId} {now : ℤ}
    (hundisturbed : Undisturbed l w i (.store (.invoices (.settle batchId now))))
    {r : Except StoreError BatchStatus} {db' : Database Row}
    (hrun : atomically metadata (settle batchId now) w.db = (r, db')) :
    Inv (⟨i, .store (.invoices (.settle batchId now)), r⟩ :: l) { w with db := db' } := by
  rcases Program.atomically_cases (respond metadata) (InvoiceRecording.settle batchId now) w.db with
    ⟨status, t, hrun', hatom⟩ | ⟨e, hatom⟩
  · obtain ⟨hbatches, hfinal⟩ := settle_batches batchId now _ _ hrun'
    obtain ⟨rfl, rfl⟩ := Prod.mk.inj (hatom.symm.trans hrun)
    intro x hx hlease
    rcases mem_unsettled_cons hx with hnew | ⟨hx, hothers⟩
    · simp [claimed] at hnew
    · refine (h x hx hlease).assign hbatches fun b _ hb => ⟨rfl, fun hid => hfinal ?_⟩
      have hne : x.1 ≠ i := by simpa [settles, eq_comm] using hothers
      exact hundisturbed x hx hne (hid.symm.trans (beq_iff_eq.mp hb)) hlease
  · obtain ⟨rfl, rfl⟩ := Prod.mk.inj (hatom.symm.trans hrun)
    exact h.unchanged rfl rfl rfl

/-- Every call that shows the right time and does not disturb a claim. -/
theorem Inv.performs (h : Inv l w) {p : Provider} {call : Call} {r : call.Answer}
    (htimely : Timely w call) (hundisturbed : Undisturbed l w i call)
    (hp : Performs p (fun t => t = w.time) w call r w') :
    Inv (⟨i, call, r⟩ :: l) w' ∧ w'.time = w.time := by
  cases call with
  | now =>
      obtain ⟨-, rfl⟩ := hp
      exact ⟨h.unchanged rfl rfl rfl, rfl⟩
  | store op =>
      obtain ⟨rfl, rfl⟩ := hp
      refine ⟨?_, rfl⟩
      have hframe : claimed ⟨i, .store op, (op.apply w.db).1⟩ = none → invoiceBatches ∉ op.tables →
          Inv (⟨i, .store op, (op.apply w.db).1⟩ :: l) { w with db := (op.apply w.db).2 } :=
        fun he htables => h.unchanged he (StoreOp.apply_frame op htables w.db) rfl
      cases op with
      | events op => exact hframe rfl (by cases op <;> simp [StoreOp.tables, EventStoreOp.tables])
      | transfers op =>
          exact hframe rfl (by cases op <;> simp [StoreOp.tables, TransferStoreOp.tables])
      | trials op =>
          cases op with
          | create uuid5 runId command => exact absurd htimely id
          | claimDueBatch claim => exact (h.claims htimely rfl).2
      | invoices op =>
          cases op with
          | settle batchId now => exact h.settle hundisturbed rfl
          | _ => exact hframe rfl (by simp [StoreOp.tables, InvoiceStoreOp.tables])
  | invoiceCreate request =>
      obtain ⟨held, -, rfl⟩ := hp
      exact ⟨h.unchanged rfl rfl rfl, rfl⟩
  | invoiceQuery limit tags =>
      obtain ⟨-, rfl⟩ := hp
      exact ⟨h.unchanged rfl rfl rfl, rfl⟩
  | transferCreate request =>
      obtain ⟨held, -, rfl⟩ := hp
      exact ⟨h.unchanged rfl rfl rfl, rfl⟩
  | transferQuery limit tags =>
      obtain ⟨-, rfl⟩ := hp
      exact ⟨h.unchanged rfl rfl rfl, rfl⟩

end

/-! ### The system -/

/-- Nothing is asked of the provider. -/
def provider : Provider := ⟨fun _ _ _ _ => True, fun _ _ _ _ => True, fun _ _ _ _ => True,
  fun _ _ _ _ => True⟩

/-- Ticks, reconcile passes and deliveries. -/
inductive Admitted : Service Unit → Prop
  | tick (gen : Generators) (cfg : TrialSettings) : Admitted (tick gen cfg).discard
  | pass (cfg : TrialSettings) (setOrder : List BatchId → List BatchId) :
      Admitted (reconcileInvoices cfg setOrder).discard
  | delivery (jobId : TransferJobId) (delivery : Delivery) :
      Admitted (receive jobId delivery).discard

/-- Every process is one invocation, and all of them read one clock. -/
def system (ι : Type) (allowed : Log ι Call Call.Answer → World → ι → Call → Prop) :
    System ι Call Call.Answer Failure Unit World where
  admits l _ i p := Admitted p ∧ ∀ e ∈ l, e.process ≠ i
  exec l w i call r w' := Performs provider (fun t => t = w.time) w call r w' ∧ allowed l w i call
  drift _ w w' := Reordered w.db w'.db ∧ w.time ≤ w'.time
  dies _ w _ w' := w' = w

section
variable {ι : Type} [DecidableEq ι]

def protocol (ι : Type) [DecidableEq ι] : Protocol ι Call Call.Answer Failure Unit World where
  toSystem := system ι Undisturbed
  inv := Inv
  rely _ _ w _ w' := w.time ≤ w'.time
  demand _ call _ w := Timely w call

theorem sound : (protocol ι).Sound where
  rely_refl _ _ w := le_refl w.time
  rely_trans _ _ _ _ _ _ _ h h' := le_trans h h'
  drift_keeps := by
    rintro l w w' h ⟨hdb, htime⟩
    refine ⟨fun x hx hlease b hb => ?_, fun _ => htime⟩
    exact h x hx (lt_of_le_of_lt htime hlease) b (hdb.mem.mp hb)
  dies_keeps := by
    rintro l w i w' h rfl
    exact ⟨h, fun _ _ => le_refl w'.time⟩

/-- The clock has been at this time. -/
def Passed (time : ℤ) : Fact ι World := fun _ w => time ≤ w.time

theorem passed_stable (time : ℤ) (i : ι) : (protocol ι).Stable i (Passed time) :=
  fun _ _ _ _ h hr _ => le_trans h hr

theorem triple_of {pre : Fact ι World} {i : ι} (hstable : (protocol ι).Stable i pre) (call : Call)
    (htimely : ∀ l w, pre l w → Timely w call) :
    (protocol ι).Triple i pre call fun _ => Anywhere where
  stable := hstable
  demand l w hpre _ := htimely l w hpre
  keeps := by
    rintro l w r w' hpre h ⟨hp, hundisturbed⟩
    obtain ⟨hinv, htime⟩ := h.performs (htimely l w hpre) hundisturbed hp
    exact ⟨hinv, fun _ _ => le_of_eq htime.symm⟩
  result _ _ _ _ _ _ _ := trivial

theorem triple_any (i : ι) (call : Call)
    (htimely : ∀ w, Timely w call := by exact fun _ => trivial) :
    (protocol ι).Triple i Anywhere call fun _ => Anywhere :=
  triple_of anywhere_stable call fun _ w _ => htimely w

theorem triple_store (i : ι) (op : StoreOp)
    (htimely : ∀ w, Timely w (.store op) := by exact fun _ => trivial) :
    (protocol ι).Triple i Anywhere (.store op) (Ends (fun _ => Anywhere) Anywhere) :=
  (triple_any i (.store op) htimely).mono fun r _ _ _ => ends_of (fun _ => trivial) trivial r

theorem triple_now (i : ι) : (protocol ι).Triple i Anywhere .now Passed where
  stable := anywhere_stable
  demand _ _ _ _ := trivial
  keeps := (triple_any i .now).keeps
  result := by
    rintro l w time w' - - ⟨⟨rfl, rfl⟩, -⟩
    exact le_refl w'.time

/-! ### The services -/

def issueFacts : IssueFacts ι World where
  remaining _ := Anywhere
  absent _ _ := Anywhere
  found _ _ _ := Anywhere
  undecided _ _ := Anywhere

theorem issueRules (cfg : TrialSettings) (time : ℤ) (i : ι) :
    IssueRules (protocol ι) i cfg time Anywhere issueFacts where
  remaining_stable _ := anywhere_stable
  absent_stable _ _ := anywhere_stable
  fails_stable := anywhere_stable
  absent_fails _ _ _ _ _ := trivial
  fresh _ _ _ _ _ _ := trivial
  query d ds _ := (triple_any i _).mono fun answer l w _ => by
    rcases answer with _ | ⟨_ | _, _⟩ <;> trivial
  create d ds := (triple_any i _).mono fun answer l w _ => by
    rcases answer with _ | ⟨_ | _, _⟩ <;> trivial
  created d ds id := triple_store i _
  unissued d ds op hop := triple_store i (.invoices op)

theorem tickRules (gen : Generators) (cfg : TrialSettings) (i : ι) :
    TickRules (protocol ι) i gen cfg Anywhere Anywhere Passed (fun _ _ => Anywhere)
      (fun _ _ => Anywhere) (fun _ _ => issueFacts) where
  fails_stable := anywhere_stable
  start_fails _ _ _ := trivial
  now := triple_now i
  claim time := by
    refine (triple_of (passed_stable time i) _ (by exact fun _ _ htime => htime)).mono
      fun r l w _ => ?_
    match r with
    | .error _ => trivial
    | .ok none => trivial
    | .ok (some _) => trivial
  save batch time := triple_store i _
  pending batch time := triple_store i (.invoices (.pending batch.id time))
  issue batch time := issueRules cfg time i
  settle batch time := triple_any i (.store (.invoices (.settle batch.id time)))

theorem passRules (cfg : TrialSettings) (i : ι) :
    PassRules (protocol ι) i cfg Anywhere Anywhere (fun _ => Anywhere) (fun _ _ => Anywhere)
      (fun _ _ _ _ => Anywhere) where
  fails_stable := anywhere_stable
  remaining_fails _ _ _ _ _ := trivial
  now := triple_any i .now
  unknown time := triple_store i (.invoices (.unknown time 100))
  remaining_stable _ _ := anywhere_stable
  query time d ds := (triple_any i _).mono fun answer l w _ => by
    rcases answer with _ | ⟨_ | _, _⟩ <;> trivial
  reconcile time d ds id := triple_store i _
  settle time batchId := triple_store i (.invoices (.settle batchId time))

theorem deliveryRules (i : ι) (jobId : TransferJobId) (delivery : Delivery) :
    DeliveryRules (protocol ι) i jobId delivery Anywhere (fun _ => Anywhere) where
  now := triple_any i .now
  record _ _ _ _ := triple_any i (.store (.events _))
  ignored _ _ _ _ := triple_any i (.store (.events _))

theorem kept : (protocol ι).Kept Unconditionally fun _ => Anything where
  toSound := sound
  begins := by
    rintro l w i p - - ⟨hadmitted, -⟩
    cases hadmitted with
    | tick gen cfg =>
        exact discard_ensures sound ((tickRules gen cfg i).tick_ensures sound trivial)
    | pass cfg setOrder =>
        exact discard_ensures sound
          ((passRules cfg i).reconcileInvoices_ensures sound setOrder trivial)
    | delivery jobId delivery =>
        exact discard_ensures sound ((deliveryRules i jobId delivery).receive_ensures trivial)

/-! ### Every interleaving -/

/-- The claim that a process is about to make. -/
def nextClaim (c : Config ι Call Call.Answer Failure Unit World) (i : ι) : Option BatchClaim :=
  match c.procs i with
  | some (.call (.store (.trials (.claimDueBatch claim))) _) => some claim
  | _ => none

/-- No tick is about to be given a batch that another tick claimed and did not settle
before the end of its lease. -/
def Exclusive (c : Config ι Call Call.Answer Failure Unit World) : Prop :=
  ∀ x ∈ unsettled c.log, c.state.time < x.2.leaseUntil → ∀ i claim, nextClaim c i = some claim →
    ∀ batch, (atomically metadata (claimDueBatch claim) c.state.db).1 = .ok (some batch) →
      batch.id ≠ x.2.id

/-- When nobody settles a batch under the lease of another tick, unless it is over, the
claims of a batch exclude each other. -/
theorem claims_exclusive {w : World} {c : Config ι Call Call.Answer Failure Unit World}
    (hc : Runs (system ι Undisturbed) (.initial w) c) : Exclusive c := by
  intro x hx hlease i claim hclaim batch hbatch
  have hstart : Inv ([] : Log ι Call Call.Answer) w := by
    intro x hx
    simp [unsettled] at hx
  have hinv : Inv c.log c.state := kept.inv hstart hc
  unfold nextClaim at hclaim
  split at hclaim
  · next claim' next hproc =>
      obtain rfl := Option.some.inj hclaim
      have hnow : claim'.now ≤ c.state.time := kept.demand hstart hc hproc
      obtain ⟨hexclusive, -⟩ : _ ∧ Inv (⟨i, .store (.trials (.claimDueBatch claim')), _⟩ :: c.log) _ :=
        hinv.claims hnow rfl
      exact hexclusive x hx hlease batch hbatch
  · simp at hclaim

end

/-! ### A reconcile pass during a tick -/

instance (db : Database Row) (batchId : BatchId) : Decidable (Final db batchId) := by
  unfold Final
  infer_instance

instance {ι : Type} [DecidableEq ι] (l : Log ι Call Call.Answer) (w : World) (i : ι) (call : Call) :
    Decidable (Undisturbed l w i call) := by
  unfold Undisturbed
  split <;> infer_instance

/-- One clock, and every call may be next, or only those that disturb no claim. -/
def freely : ScriptRules ℕ where
  clock _ w _ t := t = w.time

def undisturbed : ScriptRules ℕ where
  allowed l w i call := decide (Undisturbed l w i call)
  clock _ w _ t := t = w.time

theorem honestInvoices (rules : ScriptRules ℕ) : HonestInvoices rules provider :=
  ⟨fun _ _ _ _ => trivial, fun _ _ _ _ _ _ => trivial, fun _ _ _ => trivial,
    fun _ _ _ => trivial, fun _ _ _ _ => trivial⟩

theorem honestTransfers (rules : ScriptRules ℕ) : HonestTransfers rules provider :=
  .of_any (fun _ _ _ _ => trivial) fun _ _ _ _ => trivial

/-- An invocation by a process that did nothing yet. -/
def starts (i : ℕ) (p : Service Unit) : ScriptedMove ℕ :=
  .begin i p fun l _ => l.all fun e => e.process != i

/-- A tick issues some drafts, a pass reconciles the last one, and another tick is about
to claim. -/
def reconciledMeanwhile (issued : List Script) : List (ScriptedMove ℕ) :=
  [starts 0 (tick plainGenerators {}).discard, .call 0 (.clock 0), .call 0 .commit,
    .call 0 .commit, .call 0 .commit] ++ issued.map (.call 0) ++
  [starts 1 (reconcileInvoices {} id).discard, .call 1 (.clock 0), .call 1 .commit,
    .call 1 .lookup, .call 1 .commit, .call 1 .commit,
    starts 2 (tick plainGenerators {}).discard, .call 2 (.clock 0)]

theorem reconciledMeanwhile_allowed (issued : List Script)
    (allowed : Log ℕ Call Call.Answer → World → ℕ → Call → Prop) :
    ∀ m ∈ reconciledMeanwhile issued, m.Allowed (system ℕ allowed) := by
  have hstarts : ∀ i p, Admitted p → (starts i p).Allowed (system ℕ allowed) := by
    intro i p hp l w hfresh
    refine ⟨hp, fun e he => ?_⟩
    simpa using List.all_eq_true.mp hfresh e he
  have htick : Admitted (tick plainGenerators {}).discard := .tick _ _
  have hpass : Admitted (reconcileInvoices {} id).discard := .pass _ _
  intro m hm
  simp only [reconciledMeanwhile, List.mem_append, List.mem_cons, List.mem_map,
    List.not_mem_nil, or_false] at hm
  rcases hm with ((rfl | rfl | rfl | rfl | rfl) | ⟨script, -, rfl⟩) |
    (rfl | rfl | rfl | rfl | rfl | rfl | rfl | rfl)
  all_goals first | exact trivial | exact hstarts _ _ htick | exact hstarts _ _ hpass

theorem played_runs {rules : ScriptRules ℕ}
    {allowed : Log ℕ Call Call.Answer → World → ℕ → Call → Prop}
    (hclock : ∀ l w i t, rules.clock l w i t = true → t = w.time)
    (hallowed : ∀ l w i call, rules.allowed l w i call = true → allowed l w i call)
    {issued : List Script} {c : Config ℕ Call Call.Answer Failure Unit World}
    (h : playScript rules scheduledWorld (reconciledMeanwhile issued) = some c) :
    Runs (system ℕ allowed) (.initial scheduledWorld) c := by
  refine playScript_runs (honestInvoices rules) (honestTransfers rules)
    (fun l w i call r w' ha hp => ?_) (reconciledMeanwhile_allowed issued allowed) h
  exact ⟨hp.mono (hclock l w i), hallowed l w i call ha⟩

/-- The first draft failed, so that the pass may settle the batch: nobody claims it. -/
theorem claims_exclusive_failedDraft : ∃ c : Config ℕ Call Call.Answer Failure Unit World,
    (unsettled c.log).map (fun x => (x.1, x.2.id)) = [(0, "b")] ∧
      (nextClaim c 2).isSome = true ∧ Exclusive c := by
  have hends : (playScript undisturbed scheduledWorld (reconciledMeanwhile
      [.failed .inputErrors, .commit, .lost "i" .unknownError, .commit])).map (fun c =>
        ((unsettled c.log).map (fun x => (x.1, x.2.id)), (nextClaim c 2).isSome)) =
          some ([(0, "b")], true) := by decide
  obtain ⟨c, hplay, hc⟩ := Option.map_eq_some_iff.mp hends
  obtain ⟨hunsettled, hnext⟩ := Prod.mk.inj hc
  refine ⟨c, hunsettled, hnext, claims_exclusive (played_runs (fun l w i t h => ?_)
    (fun l w i call h => of_decide_eq_true h) hplay)⟩
  exact of_decide_eq_true h

/-- The pass settles the batch while the first tick still has its lease, and the other
tick is given the batch. -/
theorem claims_overlap : ∃ c : Config ℕ Call Call.Answer Failure Unit World,
    Runs (system ℕ fun _ _ _ _ => True) (.initial scheduledWorld) c ∧ ¬ Exclusive c := by
  have hends : (playScript freely scheduledWorld (reconciledMeanwhile
      [.lost "i" .unknownError, .commit])).map (fun c =>
        ((unsettled c.log).any fun x => c.state.time < x.2.leaseUntil && x.2.id == "b") &&
          (nextClaim c 2).any fun claim =>
            (atomically metadata (claimDueBatch claim) c.state.db).1.toOption.join.any
              fun batch => batch.id == "b") = some true := by decide
  obtain ⟨c, hplay, hc⟩ := Option.map_eq_some_iff.mp hends
  refine ⟨c, played_runs (fun l w i t h => of_decide_eq_true h) (fun _ _ _ _ _ => trivial) hplay,
    fun hexclusive => ?_⟩
  obtain ⟨hheld, hgiven⟩ := Bool.and_eq_true_iff.mp hc
  obtain ⟨x, hx, hlease⟩ := List.any_eq_true.mp hheld
  obtain ⟨claim, hclaim, hbatch⟩ := (Option.any_eq_true _ _).mp hgiven
  simp only [Bool.and_eq_true, decide_eq_true_eq, beq_iff_eq] at hlease
  obtain ⟨batch, hjoin, hid⟩ := (Option.any_eq_true _ _).mp hbatch
  have hgives := Option.join_eq_some_iff.mp hjoin
  cases hgiven : (atomically metadata (claimDueBatch claim) c.state.db).1 with
  | error e =>
      rw [hgiven] at hgives
      simp [Except.toOption] at hgives
  | ok claimed =>
      rw [hgiven] at hgives
      obtain rfl := Option.some.inj hgives
      exact hexclusive x hx hlease.1 2 claim hclaim batch hgiven
        ((beq_iff_eq.mp hid).trans hlease.2.symm)

end StarkbankTrial.BatchLeases
