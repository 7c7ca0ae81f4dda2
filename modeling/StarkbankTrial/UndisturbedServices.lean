import StarkbankTrial.BatchChanges
import StarkbankTrial.InvoiceFacts

/-!
# Ticks and reconcile passes that nobody disturbs

When invocations do not overlap, a tick or a pass finds every draft as it read it, until it
writes it. Every call that it makes is one of a few kinds, `Told`: a creation is for a draft
that still waits and was not attempted or was just looked up in vain, and a write says what
the provider just answered. This is shown once, for every protocol with a single process.
-/
namespace StarkbankTrial.UndisturbedServices
open Domain InteractivePrograms InterleavedRuns RelationalTables DatabaseSchema
open DatabaseSchema.Table
open InvoiceRecording BatchClaims StoreOperations InvoiceChanges ExternalCalls ProviderClient
open BatchChanges Services TrialRules

abbrev CallLog := Log Unit Call Call.Answer

/-- A provider that may do anything. -/
def anyProvider : Provider := ⟨fun _ _ _ _ => True, fun _ _ _ _ => True, fun _ _ _ _ => True,
  fun _ _ _ _ => True⟩

/-! ### What was answered last -/

/-- The last call looked the draft up and found nothing. -/
inductive Missed (d : InvoiceDraft) : CallLog → Prop
  | lookup {l : CallLog} : Missed d (⟨(), .invoiceQuery 1 [d.tag], []⟩ :: l)

/-- The last call returned the invoice for the draft. -/
inductive Reported (d : InvoiceDraft) (id : InvoiceId) : CallLog → Prop
  | found {rest : SdkAnswer SdkInvoice} {l : CallLog} :
      Reported d id (⟨(), .invoiceQuery 1 [d.tag], .ok ⟨id⟩ :: rest⟩ :: l)
  | created {rest : SdkAnswer SdkInvoice} {l : CallLog} :
      Reported d id (⟨(), .invoiceCreate (invoiceRequest d), .ok ⟨id⟩ :: rest⟩ :: l)

/-- The last call for the draft failed, and the operation is what is written then. -/
inductive Refused (cfg : TrialSettings) (d : InvoiceDraft) (time : ℤ) :
    InvoiceStoreOp → CallLog → Prop
  | lookup {e : SdkError} {rest : SdkAnswer SdkInvoice} {l : CallLog} :
      Refused cfg d time (lookupFailure cfg d time (raiseProvider e "find_invoice" false))
        (⟨(), .invoiceQuery 1 [d.tag], .error e :: rest⟩ :: l)
  | creation {answer : SdkAnswer SdkInvoice} {l : CallLog} : NoInvoice answer →
      Refused cfg d time (createFailure cfg d time (createError answer))
        (⟨(), .invoiceCreate (invoiceRequest d), answer⟩ :: l)

/-- What the last call, a lookup of the draft, has found. -/
inductive LookedUp (d : InvoiceDraft) : Option InvoiceId → CallLog → Prop
  | nothing {l : CallLog} : LookedUp d none (⟨(), .invoiceQuery 1 [d.tag], []⟩ :: l)
  | found {id : InvoiceId} {rest : SdkAnswer SdkInvoice} {l : CallLog} :
      LookedUp d (some id) (⟨(), .invoiceQuery 1 [d.tag], .ok ⟨id⟩ :: rest⟩ :: l)

/-! ### What was read -/

/-- The drafts are rows, as they were read. -/
structure Listed (status : DraftStatus) (ds : List InvoiceDraft) (db : Database Row) : Prop where
  distinct : (ds.map InvoiceDraft.id).Nodup
  rows : ∀ d ∈ ds, ∃ row ∈ db invoiceDrafts, toDraft row = d ∧ row.status = status

/-- The batch is stored and was claimed. -/
def Claimed (batch : InvoiceBatch) (db : Database Row) : Prop :=
  ∃ b ∈ db invoiceBatches, b.id = batch.id ∧ b.targetCount = batch.targetCount ∧
    b.status = .issuing

section
variable {status : DraftStatus} {d : InvoiceDraft} {ds : List InvoiceDraft}
variable {db db' : Database Row}

theorem Listed.nil : Listed status [] db := ⟨List.nodup_nil, by simp⟩

theorem Listed.tail (h : Listed status (d :: ds) db) : Listed status ds db :=
  ⟨(List.nodup_cons.mp h.distinct).2, fun d' hd' => h.rows d' (List.mem_cons_of_mem _ hd')⟩

theorem Listed.head (h : Listed status (d :: ds) db) : Listed status [d] db :=
  ⟨by simp, fun d' hd' => h.rows d' (List.mem_singleton.mp hd' ▸ List.mem_cons_self)⟩

/-- The row of the next draft. -/
theorem Listed.row (h : Listed status (d :: ds) db) :
    ∃ row ∈ db invoiceDrafts, toDraft row = d ∧ row.status = status :=
  h.rows d List.mem_cons_self

theorem Listed.reordered (h : Listed status ds db) (hdb : Reordered db db') :
    Listed status ds db' := by
  refine ⟨h.distinct, fun d hd => ?_⟩
  obtain ⟨row, hrow, hrest⟩ := h.rows d hd
  exact ⟨row, hdb.mem.mpr hrow, hrest⟩

/-- A write to the next draft leaves the others as they were. -/
theorem Listed.written (h : Listed status (d :: ds) db)
    (hothers : ∀ row ∈ db invoiceDrafts, row.id ≠ d.id → row ∈ db' invoiceDrafts) :
    Listed status ds db' := by
  obtain ⟨hnew, hdistinct⟩ := List.nodup_cons.mp h.distinct
  refine ⟨hdistinct, fun d' hd' => ?_⟩
  obtain ⟨row, hrow, rfl, hstatus⟩ := h.rows d' (List.mem_cons_of_mem _ hd')
  refine ⟨row, hothers row hrow fun hid => hnew ?_, rfl, hstatus⟩
  exact hid ▸ List.mem_map_of_mem hd'

theorem Claimed.reordered {batch : InvoiceBatch} (h : Claimed batch db)
    (hdb : Reordered db db') : Claimed batch db' := by
  obtain ⟨b, hb, hrest⟩ := h
  exact ⟨b, hdb.mem.mpr hb, hrest⟩

/-- The writes of the trial service to one draft. -/
theorem written_others {op : InvoiceStoreOp} {id : DraftId}
    (hop : (∀ t, transitionOf op = some t → t.draftId = id) ∧
      (∀ result delay maxAttempts, op = .retry result delay maxAttempts → result.draftId = id) ∧
      ∀ result limits, op = .reconcile result limits → result.draft.id = id) :
    ∀ row ∈ db invoiceDrafts, row.id ≠ id →
      row ∈ ((StoreOp.invoices op).apply db).2 invoiceDrafts := by
  have hchanged := invoices_changes op db
  unfold InvoicesChangedIn at hchanged
  generalize ((StoreOp.invoices op).apply db).2 invoiceDrafts = drafts' at hchanged ⊢
  generalize ((StoreOp.invoices op).apply db).2 ownedInvoices = owned' at hchanged
  intro row hrow hne
  cases hchanged with
  | saved => exact List.mem_append.mpr (.inl hrow)
  | @transitioned t ht =>
      exact mem_assignWhere.mpr (.inr ⟨hrow, by simpa [hop.1 t ht] using hne⟩)
  | @retried result delay maxAttempts _ hretry =>
      exact mem_assignWhere.mpr (.inr ⟨hrow, by simpa [hop.2.1 _ _ _ hretry] using hne⟩)
  | @missed draft atTime limits _ hmissed =>
      have hid : draft.id = id := hop.2.2 _ _ hmissed
      exact mem_assignWhere.mpr (.inr ⟨hrow, by simpa [hid] using hne⟩)
  | _ => exact hrow

theorem created_others (d : InvoiceDraft) (id : InvoiceId) (time : ℤ) :
    ∀ row ∈ db invoiceDrafts, row.id ≠ d.id →
      row ∈ ((StoreOp.invoices (.created ⟨d.id, id, time⟩)).apply db).2 invoiceDrafts := by
  refine written_others ⟨?_, ?_, ?_⟩
  · exact fun t ht => Option.some.inj ht ▸ rfl
  · simp
  · simp

theorem reconcile_others (d : InvoiceDraft) (found : Option ProviderInvoice) (time : ℤ)
    (limits : ReconcileLimits) : ∀ row ∈ db invoiceDrafts, row.id ≠ d.id →
      row ∈ ((StoreOp.invoices (.reconcile ⟨d, found, time⟩ limits)).apply db).2 invoiceDrafts := by
  refine written_others ⟨fun t ht => ?_, by simp, ?_⟩
  · cases found with
    | none => simp [transitionOf] at ht
    | some invoice => exact Option.some.inj ht ▸ rfl
  · rintro result limits' hop
    obtain ⟨rfl, -⟩ : _ = result ∧ _ = limits' := by simpa using hop
    rfl

/-- A save leaves the drafts that are stored. -/
theorem saved_others (batchId : BatchId) (ds : List InvoiceDraft) :
    ∀ row ∈ db invoiceDrafts,
      row ∈ ((StoreOp.invoices (.save batchId ds)).apply db).2 invoiceDrafts := by
  have hchanged := invoices_changes (.save batchId ds) db
  unfold InvoicesChangedIn at hchanged
  generalize ((StoreOp.invoices (.save batchId ds)).apply db).2 invoiceDrafts = drafts' at hchanged ⊢
  generalize ((StoreOp.invoices (.save batchId ds)).apply db).2 ownedInvoices = owned' at hchanged
  intro row hrow
  cases hchanged with
  | saved => exact List.mem_append.mpr (.inl hrow)
  | @transitioned t ht => simp [transitionOf] at ht
  | retried hop => cases hop
  | missed hop => cases hop
  | _ => exact hrow

theorem unissued_others {cfg : TrialSettings} {time : ℤ} {op : InvoiceStoreOp}
    (hop : Unissued cfg d time op) : ∀ row ∈ db invoiceDrafts, row.id ≠ d.id →
      row ∈ ((StoreOp.invoices op).apply db).2 invoiceDrafts := by
  refine written_others ⟨fun t ht => ?_, ?_, ?_⟩
  · cases hop with
    | retry => simp [transitionOf] at ht
    | failed => exact Option.some.inj ht ▸ rfl
    | unknownResult => exact Option.some.inj ht ▸ rfl
  · rintro result delay maxAttempts rfl
    cases hop
    rfl
  · rintro result limits rfl
    cases hop

theorem Refused.unissued {cfg : TrialSettings} {time : ℤ} {op : InvoiceStoreOp} {l : CallLog}
    (h : Refused cfg d time op l) : Unissued cfg d time op := by
  cases h with
  | lookup => exact lookupFailure_unissued _ _ _ _
  | creation _ => exact createFailure_unissued _ _ _ _

theorem unknown_nodup {now : ℤ} {limit : ℕ} {drafts : List InvoiceDraft}
    (hc : metadata.Consistent db)
    (h : ((StoreOp.invoices (.unknown now limit)).apply db).1 = .ok drafts) :
    (drafts.map InvoiceDraft.id).Nodup := by
  obtain rfl := Except.ok.inj h
  have hrows : ((db invoiceDrafts).filter fun d : InvoiceDraftRow =>
      d.status == .unknown && d.nextAttemptAt ≤ now).Pairwise fun a b => a.id ≠ b.id := by
    refine ((hc invoiceDrafts).2.sublist List.filter_sublist).imp fun {a b} hab hid => ?_
    simp [metadata, uniqueConflict, hid] at hab
  rw [List.map_map]
  refine List.pairwise_map.mpr (List.Pairwise.sublist (List.take_sublist _ _) ?_)
  exact (List.Perm.pairwise_iff (fun {a b} hab => hab.symm)
    (List.perm_insertionSort _ _)).mpr hrows

/-- A claim that returns a batch has leased it. -/
theorem claimed_of_apply (hc : metadata.Consistent db) {claim : BatchClaim}
    {batch : InvoiceBatch}
    (h : ((StoreOp.trials (.claimDueBatch claim)).apply db).1 = .ok (some batch)) :
    Claimed batch ((StoreOp.trials (.claimDueBatch claim)).apply db).2 := by
  rcases claimDueBatch_apply hc claim with hnone | ⟨row, hrow, -, hsome⟩
  · rw [hnone] at h
    exact absurd h (by simp)
  · rw [hsome] at h ⊢
    obtain rfl := Option.some.inj (Except.ok.inj h)
    refine ⟨leased claim row row, ?_, rfl, rfl, rfl⟩
    simp only [Database.set_self]
    exact mem_assignWhere.mpr (.inl ⟨row, hrow, by simp, rfl⟩)

end

/-! ### The calls -/

/-- The calls of ticks and passes, with what is so when they are made. A log is calm when
no created invoice waits to be written. -/
inductive Told (calm : CallLog → Prop) (gen : Generators) (cfg : TrialSettings) (l : CallLog)
    (db : Database Row) : Call → Prop
  | now : calm l → Told calm gen cfg l db .now
  | claim {time : ℤ} : calm l → Told calm gen cfg l db (.store (.trials (.claimDueBatch
      ⟨time, time + seconds cfg.batchLeaseSeconds, cfg.batchMaxAttempts⟩)))
  | save {batch : InvoiceBatch} {time : ℤ} : calm l → Claimed batch db →
      Told calm gen cfg l db
        (.store (.invoices (.save batch.id (buildInvoiceDrafts gen batch time))))
  | pending {batchId : BatchId} {time : ℤ} : calm l →
      Told calm gen cfg l db (.store (.invoices (.pending batchId time)))
  | unknown {time : ℤ} : calm l →
      Told calm gen cfg l db (.store (.invoices (.unknown time 100)))
  | lookup {tag : String} : calm l → Told calm gen cfg l db (.invoiceQuery 1 [tag])
  | create {d : InvoiceDraft} : calm l → Listed .pending [d] db →
      d.attempts = 0 ∨ Missed d l → Told calm gen cfg l db (.invoiceCreate (invoiceRequest d))
  | created {d : InvoiceDraft} {id : InvoiceId} {time : ℤ} : Listed .pending [d] db →
      Reported d id l → Told calm gen cfg l db (.store (.invoices (.created ⟨d.id, id, time⟩)))
  | refused {d : InvoiceDraft} {time : ℤ} {op : InvoiceStoreOp} : Listed .pending [d] db →
      Refused cfg d time op l → Told calm gen cfg l db (.store (.invoices op))
  | reconcile {d : InvoiceDraft} {found : Option InvoiceId} {time : ℤ} : calm l →
      Listed .unknown [d] db → LookedUp d found l → Told calm gen cfg l db (.store (.invoices
        (.reconcile ⟨d, found.map fun id => ⟨id, d.tag⟩, time⟩ ⟨cfg.invoiceMaxAttempts,
          cfg.invoiceReconciliationMaxAttempts, Services.backoff cfg d.attempts⟩)))
  | settle {batchId : BatchId} {time : ℤ} : calm l →
      Told calm gen cfg l db (.store (.invoices (.settle batchId time)))

/-- A write lands on a draft that was read as another one. -/
theorem listed_others {status : DraftStatus} {d : InvoiceDraft} {db : Database Row}
    (hc : metadata.Consistent db) (h : Listed status [d] db) {op : InvoiceStoreOp}
    (hothers : ∀ row ∈ db invoiceDrafts, row.id ≠ d.id →
      row ∈ ((StoreOp.invoices op).apply db).2 invoiceDrafts) :
    ∀ row ∈ db invoiceDrafts, row.status ≠ status →
      row ∈ ((StoreOp.invoices op).apply db).2 invoiceDrafts := by
  intro row hrow hne
  refine hothers row hrow fun hid => ?_
  obtain ⟨row', hrow', rfl, hstatus⟩ := h.row
  obtain rfl := (hc invoiceDrafts).eq_of_key hrow hrow' hid
  exact hne hstatus

/-- Ticks and passes write no draft that is done. -/
theorem told_others {calm : CallLog → Prop} {gen : Generators} {cfg : TrialSettings} {l : CallLog}
    {db : Database Row} (hc : metadata.Consistent db) {op : StoreOp}
    (htold : Told calm gen cfg l db (.store op)) :
    ∀ row ∈ db invoiceDrafts, row.status ≠ .pending → row.status ≠ .unknown →
      row ∈ (op.apply db).2 invoiceDrafts := by
  intro row hrow hpending hunknown
  have hframe : invoiceDrafts ∉ op.tables → row ∈ (op.apply db).2 invoiceDrafts :=
    fun htables => StoreOp.apply_frame op htables db ▸ hrow
  cases htold with
  | claim => exact hframe (by simp [StoreOp.tables, TrialStoreOp.tables])
  | save => exact saved_others _ _ row hrow
  | pending => exact hframe (by simp [StoreOp.tables, InvoiceStoreOp.tables])
  | unknown => exact hframe (by simp [StoreOp.tables, InvoiceStoreOp.tables])
  | created hlisted => exact listed_others hc hlisted (created_others _ _ _) row hrow hpending
  | refused hlisted hrefused =>
      exact listed_others hc hlisted (unissued_others hrefused.unissued) row hrow hpending
  | reconcile _ hlisted =>
      exact listed_others hc hlisted (reconcile_others _ _ _ _) row hrow hunknown
  | settle => exact hframe (by simp [StoreOp.tables, InvoiceStoreOp.tables])

/-- What has to be shown of a protocol with a single process: its rows change place at most
between two calls, and every call of the kinds above keeps the invariant. -/
structure Undisturbed (P : Protocol Unit Call Call.Answer Failure Unit World)
    (calm : CallLog → Prop) (gen : Generators) (cfg : TrialSettings) : Prop extends P.Sound where
  calms : ∀ l call r, (∀ request, call ≠ .invoiceCreate request) → calm (⟨(), call, r⟩ :: l)
  relied : ∀ i l w l' w', P.rely i l w l' w' → l' = l ∧ Reordered w.db w'.db
  demand : ∀ i l w call, P.inv l w → Told calm gen cfg l w.db call → P.demand i call l w
  consistent : ∀ l w, P.inv l w → metadata.Consistent w.db
  performs : ∀ i l w call r w', P.exec l w i call r w' →
    Performs anyProvider (fun _ => True) w call r w'
  keeps : ∀ i l w call r w', P.inv l w → Told calm gen cfg l w.db call →
    P.exec l w i call r w' → P.inv (⟨i, call, r⟩ :: l) w'

/-- A fact about the log and the database that does not depend on the order of the rows. -/
structure Settles (fact : CallLog → Database Row → Prop) : Prop where
  reordered : ∀ l db db', Reordered db db' → fact l db → fact l db'

/-- The fact, of a world. -/
abbrev ofWorld (fact : CallLog → Database Row → Prop) : Fact Unit World := fun l w => fact l w.db

theorem settles_log {fact : CallLog → Prop} : Settles fun l _ => fact l := ⟨fun _ _ _ _ h => h⟩

theorem settles_listed {status : DraftStatus} {ds : List InvoiceDraft} {fact : CallLog → Prop} :
    Settles fun l db => fact l ∧ Listed status ds db :=
  ⟨fun _ _ _ hdb h => ⟨h.1, h.2.reordered hdb⟩⟩

theorem settles_claimed {batch : InvoiceBatch} {fact : CallLog → Prop} :
    Settles fun l db => fact l ∧ Claimed batch db :=
  ⟨fun _ _ _ hdb h => ⟨h.1, h.2.reordered hdb⟩⟩

namespace Undisturbed
variable {P : Protocol Unit Call Call.Answer Failure Unit World} {calm : CallLog → Prop}
variable {gen : Generators} {cfg : TrialSettings} (h : Undisturbed P calm gen cfg) {i : Unit}
include h

theorem stable {fact : CallLog → Database Row → Prop} (hfact : Settles fact) :
    P.Stable i (ofWorld fact) := by
  intro l w l' w' hw hr _
  obtain ⟨rfl, hdb⟩ := h.relied i l w l' w' hr
  exact hfact.reordered _ _ _ hdb hw

/-- One call of the kinds above, with what it returns. -/
theorem triple {pre : CallLog → Database Row → Prop} {call : Call}
    {result : call.Answer → Fact Unit World} (hpre : Settles pre)
    (htold : ∀ l db, pre l db → Told calm gen cfg l db call)
    (hresult : ∀ l w r w', metadata.Consistent w.db → pre l w.db →
      Performs anyProvider (fun _ => True) w call r w' → result r (⟨i, call, r⟩ :: l) w') :
    P.Triple i (ofWorld pre) call result where
  stable := h.stable hpre
  demand l w hw hi := h.demand i l w call hi (htold l w.db hw)
  keeps l w r w' hw hi he :=
    ⟨h.keeps i l w call r w' hi (htold l w.db hw) he, fun _ hj => absurd rfl hj⟩
  result l w r w' hw hi he := hresult l w r w' (h.consistent l w hi) hw (h.performs i l w call r w' he)

/-- One transaction, which leaves the log calm however it ends. -/
theorem triple_store {op : StoreOp} (pre : CallLog → Database Row → Prop)
    (post : op.Result → CallLog → Database Row → Prop) (hpre : Settles pre)
    (htold : ∀ l db, pre l db → Told calm gen cfg l db (.store op))
    (hpost : ∀ l r db v, metadata.Consistent db → pre l db → (op.apply db).1 = .ok v →
      calm (⟨i, .store op, r⟩ :: l) → post v (⟨i, .store op, r⟩ :: l) (op.apply db).2) :
    P.Triple i (ofWorld pre) (.store op)
      (Ends (fun v => ofWorld (post v)) (ofWorld fun l _ => calm l)) := by
  refine h.triple hpre htold fun l w r w' hc hw hp => ?_
  obtain ⟨hr, rfl⟩ := hp
  have hcalm : calm (⟨i, .store op, r⟩ :: l) := h.calms l (.store op) r (by simp)
  cases r with
  | error e => exact hcalm
  | ok v => exact hpost l (.ok v) w.db v hc hw hr.symm hcalm

/-- One transaction of which only the calm log matters. -/
theorem triple_calm {pre : CallLog → Database Row → Prop} {op : StoreOp} (hpre : Settles pre)
    (htold : ∀ l db, pre l db → Told calm gen cfg l db (.store op)) :
    P.Triple i (ofWorld pre) (.store op) fun _ => ofWorld fun l _ => calm l :=
  h.triple hpre htold fun l _ r _ _ _ _ => h.calms l (.store op) r (by simp)

theorem triple_now : P.Triple i (ofWorld fun l _ => calm l) .now
    fun _ => ofWorld fun l _ => calm l :=
  h.triple settles_log (fun _ _ hcalm => .now hcalm)
    fun l _ r _ _ _ _ => h.calms l .now r (by simp)

/-! ### The loop of a tick -/

omit h in
/-- What a tick knows between two calls for a draft. -/
def stepFacts (calm : CallLog → Prop) (cfg : TrialSettings) (time : ℤ) :
    StepFacts Unit World where
  remaining ds := ofWorld fun l db => calm l ∧ Listed .pending ds db
  absent d ds := ofWorld fun l db =>
    (calm l ∧ (d.attempts = 0 ∨ Missed d l)) ∧ Listed .pending (d :: ds) db
  found d ds id := ofWorld fun l db => Reported d id l ∧ Listed .pending (d :: ds) db
  undecided d ds op := ofWorld fun l db => Refused cfg d time op l ∧ Listed .pending (d :: ds) db

theorem query_triple (time : ℤ) (d : InvoiceDraft) (ds : List InvoiceDraft) :
    P.Triple i ((stepFacts calm cfg time).remaining (d :: ds)) (.invoiceQuery 1 [d.tag])
      fun answer l w =>
        match answer with
        | [] => (stepFacts calm cfg time).absent d ds l w
        | .error e :: _ => (stepFacts calm cfg time).undecided d ds
            (lookupFailure cfg d time (raiseProvider e "find_invoice" false)) l w
        | .ok invoice :: _ => (stepFacts calm cfg time).found d ds invoice.id l w := by
  refine h.triple settles_listed (fun l db hw => .lookup hw.1) fun l w answer w' _ hw hp => ?_
  obtain ⟨-, rfl⟩ := hp
  match answer with
  | [] => exact ⟨⟨h.calms l (.invoiceQuery 1 [d.tag]) [] (by simp), .inr .lookup⟩, hw.2⟩
  | .error e :: rest => exact ⟨.lookup, hw.2⟩
  | .ok invoice :: rest => exact ⟨.found, hw.2⟩

theorem create_triple (time : ℤ) (d : InvoiceDraft) (ds : List InvoiceDraft) :
    P.Triple i ((stepFacts calm cfg time).absent d ds) (.invoiceCreate (invoiceRequest d))
      fun answer l w =>
        match answer with
        | .ok invoice :: _ => (stepFacts calm cfg time).found d ds invoice.id l w
        | answer => (stepFacts calm cfg time).undecided d ds
            (createFailure cfg d time (createError answer)) l w := by
  refine h.triple settles_listed (fun l db hw => .create hw.1.1 hw.2.head hw.1.2)
    fun l w answer w' _ hw hp => ?_
  obtain ⟨held, -, rfl⟩ := hp
  match answer with
  | [] => exact ⟨.creation (by simp [NoInvoice]), hw.2⟩
  | .error e :: rest => exact ⟨.creation (by simp [NoInvoice]), hw.2⟩
  | .ok invoice :: rest => exact ⟨.created, hw.2⟩

theorem issueSteps (time : ℤ) :
    IssueSteps P i cfg time (ofWorld fun l _ => calm l) (stepFacts calm cfg time) where
  remaining_stable _ := h.stable settles_listed
  absent_stable _ _ := h.stable settles_listed
  fails_stable := h.stable settles_log
  absent_fails _ _ _ _ hw := hw.1.1
  fresh _ _ _ _ hw hattempts := ⟨⟨hw.1, .inl hattempts⟩, hw.2⟩
  query d ds _ := h.query_triple time d ds
  create d ds := h.create_triple time d ds
  created d ds id :=
    h.triple_store (fun l db => Reported d id l ∧ Listed .pending (d :: ds) db)
      (fun _ l db => calm l ∧ Listed .pending ds db) settles_listed
      (fun _ _ hw => .created hw.2.head hw.1)
      fun _ _ _ _ _ hw _ hcalm => ⟨hcalm, hw.2.written (created_others d id time)⟩
  unissued d ds op :=
    h.triple_store (fun l db => Refused cfg d time op l ∧ Listed .pending (d :: ds) db)
      (fun _ l db => calm l ∧ Listed .pending ds db) settles_listed
      (fun _ _ hw => .refused hw.2.head hw.1)
      fun _ _ _ _ _ hw _ hcalm => ⟨hcalm, hw.2.written (unissued_others hw.1.unissued)⟩

/-! ### The services -/

theorem tickSteps : TickSteps P i gen cfg (ofWorld fun l _ => calm l) (ofWorld fun l _ => calm l)
    (fun _ => ofWorld fun l _ => calm l)
    (fun batch _ => ofWorld fun l db => calm l ∧ Claimed batch db)
    (fun _ _ => ofWorld fun l _ => calm l)
    (fun _ time => (stepFacts calm cfg time).remaining) where
  fails_stable := h.stable settles_log
  start_fails _ _ hw := hw
  now := h.triple_now
  claim time := by
    refine (h.triple_store (fun l _ => calm l)
      (fun claimed l db => calm l ∧ ∀ batch ∈ claimed, Claimed batch db) settles_log
      (fun l db hcalm => .claim hcalm) fun l r db v hc _ hv hcalm => ⟨hcalm, ?_⟩).mono
      fun r l w hr => ?_
    · intro batch hbatch
      obtain rfl : v = some batch := hbatch
      exact claimed_of_apply hc hv
    · match r, hr with
      | .error _, hr => exact hr
      | .ok none, hr => exact hr.1
      | .ok (some batch), hr => exact ⟨hr.1, hr.2 batch rfl⟩
  save batch time := h.triple_store (fun l db => calm l ∧ Claimed batch db) (fun _ l _ => calm l)
    settles_claimed (fun l db hw => .save hw.1 hw.2) fun l r db v _ _ _ hcalm => hcalm
  pending batch time := by
    refine h.triple_store (fun l _ => calm l) (fun drafts l db => calm l ∧ Listed .pending drafts db)
      settles_log (fun l db hcalm => .pending hcalm)
      fun l r db drafts hc _ hlisted hcalm => ⟨hcalm, pending_nodup hc hlisted, fun d hd => ?_⟩
    exact pending_mem hlisted hd
  remaining_stable batch time ds := h.stable settles_listed
  issue batch time d ds _ _ hr := (h.issueSteps time).issueDraft_ensures h.toSound d ds hr
  settle batch time := h.triple_calm settles_listed fun l db hw => .settle hw.1

theorem tick_ensures {l : CallLog} {w : World} (hcalm : calm l) :
    Ensures P i (tick gen cfg) (Always (ofWorld fun l _ => calm l)) l w :=
  h.tickSteps.tick_ensures h.toSound hcalm

theorem passRules : PassRules P i cfg (ofWorld fun l _ => calm l) (ofWorld fun l _ => calm l)
    (fun _ => ofWorld fun l _ => calm l)
    (fun _ ds => ofWorld fun l db => calm l ∧ Listed .unknown ds db)
    (fun _ d ds found => ofWorld fun l db =>
      (calm l ∧ LookedUp d found l) ∧ Listed .unknown (d :: ds) db) where
  fails_stable := h.stable settles_log
  remaining_fails _ _ _ _ hw := hw.1
  now := h.triple_now
  unknown time := h.triple_store (fun l _ => calm l)
    (fun drafts l db => calm l ∧ Listed .unknown drafts db) settles_log
    (fun l db hcalm => .unknown hcalm)
    fun l r db drafts hc _ hlisted hcalm =>
      ⟨hcalm, unknown_nodup hc hlisted, fun d hd => unknown_mem hlisted hd⟩
  remaining_stable time ds := h.stable settles_listed
  query time d ds := by
    refine h.triple settles_listed (fun l db hw => .lookup hw.1) fun l w answer w' _ hw hp => ?_
    obtain ⟨-, rfl⟩ := hp
    have hcalm : calm (⟨i, .invoiceQuery 1 [d.tag], answer⟩ :: l) := h.calms l _ _ (by simp)
    match answer, hcalm with
    | [], hcalm => exact ⟨⟨hcalm, .nothing⟩, hw.2⟩
    | .error _ :: _, hcalm => exact ⟨hcalm, hw.2.tail⟩
    | .ok invoice :: _, hcalm => exact ⟨⟨hcalm, .found⟩, hw.2⟩
  reconcile time d ds found :=
    h.triple_store (fun l db => (calm l ∧ LookedUp d found l) ∧ Listed .unknown (d :: ds) db)
      (fun _ l db => calm l ∧ Listed .unknown ds db) settles_listed
      (fun l db hw => .reconcile hw.1.1 hw.2.head hw.1.2)
      fun l r db v _ hw _ hcalm => ⟨hcalm, hw.2.written (reconcile_others d _ time _)⟩
  settle time batchId := h.triple_store (fun l db => calm l ∧ Listed .unknown [] db)
    (fun _ l db => calm l ∧ Listed .unknown [] db) settles_listed (fun l db hw => .settle hw.1)
    fun l r db v _ hw _ hcalm => ⟨hcalm, .nil⟩

theorem pass_ensures (setOrder : List BatchId → List BatchId) {l : CallLog} {w : World}
    (hcalm : calm l) :
    Ensures P i (reconcileInvoices cfg setOrder) (Always (ofWorld fun l _ => calm l)) l w :=
  h.passRules.reconcileInvoices_ensures h.toSound setOrder hcalm

end Undisturbed

end StarkbankTrial.UndisturbedServices
