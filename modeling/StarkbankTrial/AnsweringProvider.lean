import StarkbankTrial.AnsweredDrafts
import StarkbankTrial.BoundedCreations

/-!
# A provider that answers

Every creation gives an invoice, and no lookup fails. Ticks and reconcile passes run one
after another, in any order, and each comes when all that waits has waited long enough. The
log counts the claims of ticks and the passes, and what is left of the work is bounded by
what they have done.
-/
namespace StarkbankTrial.AnsweringProvider
open Domain InteractivePrograms InterleavedRuns RelationalTables DatabaseSchema
open DatabaseSchema.Table
open InvoiceRecording BatchClaims StoreOperations InvoiceChanges ExternalCalls ProviderClient
open Services WorkerRules TrialRules CreatedDrafts
open UndisturbedServices TrialInvariants InvoiceAttempts OpenWork AnsweredDrafts

/-- A creation gives an invoice for its tag, and a lookup lists one that is held, or none. -/
def answering (tagOf : InvoiceId → String) : Provider where
  invoiceCreate w request answer held := ∃ id, request.tags = [tagOf id] ∧ answer = [.ok ⟨id⟩] ∧
    held = w.invoices ++ [⟨id, request⟩]
  invoiceQuery w _ tags answer := answer = [] ∨ ∃ x ∈ w.invoices, tags = [tagOf x.id] ∧
    x.request.tags = tags ∧ answer = [.ok ⟨x.id⟩]
  transferCreate _ _ _ _ := True
  transferQuery _ _ _ _ := True

/-! ### What the log counts -/

def isClaim : Entry Unit Call Call.Answer → Bool
  | ⟨_, .store (.trials (.claimDueBatch _)), _⟩ => true
  | _ => false

def isPass : Entry Unit Call Call.Answer → Bool
  | ⟨_, .store (.invoices (.unknown _ _)), _⟩ => true
  | _ => false

/-- The claims of ticks. -/
def ticks (l : CallLog) : ℕ := l.countP isClaim

/-- The reconcile passes. -/
def passes (l : CallLog) : ℕ := l.countP isPass

theorem ticks_claim {claim : BatchClaim} {r : Call.Answer (.store (.trials (.claimDueBatch claim)))}
    {l : CallLog} : ticks (⟨(), .store (.trials (.claimDueBatch claim)), r⟩ :: l) = ticks l + 1 :=
  List.countP_cons_of_pos rfl

theorem passes_unknown {now : ℤ} {limit : ℕ}
    {r : Call.Answer (.store (.invoices (.unknown now limit)))} {l : CallLog} :
    passes (⟨(), .store (.invoices (.unknown now limit)), r⟩ :: l) = passes l + 1 :=
  List.countP_cons_of_pos rfl

theorem ticks_cons {e : Entry Unit Call Call.Answer} {l : CallLog} (h : isClaim e = false) :
    ticks (e :: l) = ticks l := by
  simp [ticks, h]

theorem passes_cons {e : Entry Unit Call Call.Answer} {l : CallLog} (h : isPass e = false) :
    passes (e :: l) = passes l := by
  simp [passes, h]

/-! ### The system -/

inductive Admitted (gen : Generators) (cfg : TrialSettings) : Service Unit → Prop
  | tick : Admitted gen cfg (tick gen cfg).discard
  | pass (setOrder : List BatchId → List BatchId) : (∀ ids, (setOrder ids).Perm ids) →
      Admitted gen cfg (reconcileInvoices cfg setOrder).discard

def system (gen : Generators) (tagOf : InvoiceId → String) (cfg : TrialSettings) :
    System Unit Call Call.Answer Failure Unit World where
  admits _ _ _ p := Admitted gen cfg p
  exec _ w _ call r w' := Performs (answering tagOf) (Late w.db) w call r w'
  drift _ w w' := Reordered w.db w'.db ∧ w'.invoices = w.invoices
  dies _ _ _ _ := False

/-- A write is about an invoice that is held, and none says that there is no invoice. -/
def Sure (w : World) : Call → Prop
  | .store (.invoices (.created result)) => ∀ d ∈ w.db invoiceDrafts, d.id = result.draftId →
      Carries w.invoices result.invoiceId d.tag
  | .store (.invoices (.reconcile result _)) => ∀ invoice, result.providerInvoice = some invoice →
      ∀ d ∈ w.db invoiceDrafts, d.id = result.draft.id → Carries w.invoices invoice.id d.tag
  | .store (.invoices (.retry _ _ _)) => False
  | .store (.invoices (.failed _)) => False
  | .store (.invoices (.unknownResult _)) => False
  | _ => True

/-- Where the provider begins to answer, with the ticks for which a batch on course has claims. -/
structure Outset where
  log : CallLog
  db : Database Row
  spare : ℕ

/-- The draft has an invoice that is held. -/
def Invoiced (held : List HeldInvoice) (d : InvoiceDraftRow) : Prop :=
  ∃ id, d.providerInvoiceId = some id ∧ Carries held id d.tag

structure Inv (gen : Generators) (tagOf : InvoiceId → String) (cfg : TrialSettings)
    (outset : Outset) (l : CallLog) (w : World) : Prop where
  bounded : InvoiceAttempts.Inv gen tagOf cfg l w.db
  tagged : Tagged w.db
  course : ticks l ≤ ticks outset.log + outset.spare →
    KeepsCourse cfg outset.spare outset.db (ticks outset.log + outset.spare - ticks l) w.db
  invoiced : ∀ d ∈ w.db invoiceDrafts, d.status = .created → Invoiced w.invoices d

def protocol (gen : Generators) (tagOf : InvoiceId → String) (cfg : TrialSettings)
    (outset : Outset) : Protocol Unit Call Call.Answer Failure Unit World where
  toSystem := system gen tagOf cfg
  inv := Inv gen tagOf cfg outset
  rely _ l w l' w' := l' = l ∧ Reordered w.db w'.db ∧ w'.invoices = w.invoices
  demand _ call l w := Told Calm gen cfg l w.db call ∧ Sure w call

section
variable {gen : Generators} {tagOf : InvoiceId → String} {cfg : TrialSettings} {outset : Outset}
variable {l : CallLog} {w w' : World} {call : Call} {r : call.Answer}

/-! ### One call -/

theorem answering_reporting {clock : ℤ → Prop} (hp : Performs (answering tagOf) clock w call r w') :
    Performs (reporting tagOf) (fun _ => True) w call r w' := by
  cases call with
  | now => exact ⟨trivial, hp.2⟩
  | store op => exact hp
  | invoiceCreate request =>
      obtain ⟨held, ⟨id, htags, rfl, -⟩, rfl⟩ := hp
      refine ⟨held, fun x hx => ?_, rfl⟩
      have hsame : (⟨id⟩ : SdkInvoice) = x := Except.ok.inj (Option.some.inj hx)
      rw [← hsame]
      exact htags
  | invoiceQuery limit tags =>
      obtain ⟨hlisted, rfl⟩ := hp
      refine ⟨fun x hx => ?_, rfl⟩
      rcases hlisted with rfl | ⟨y, -, htags, -, rfl⟩
      · cases hx
      · have hsame : (⟨y.id⟩ : SdkInvoice) = x := Except.ok.inj (Option.some.inj hx)
        rw [← hsame]
        exact htags
  | transferCreate request => exact hp
  | transferQuery limit tags => exact hp

/-- What a transaction of a tick or a pass makes of a draft. -/
inductive Answered (cfg : TrialSettings) (held : List HeldInvoice) (db : Database Row)
    (d' : InvoiceDraftRow) : Prop
  | kept : d' ∈ db invoiceDrafts → Answered cfg held db d'
  | saved : d'.status = .pending → Answered cfg held db d'
  | created {d : InvoiceDraftRow} {id : InvoiceId} : d ∈ db invoiceDrafts →
      d.batchId = d'.batchId → d'.status = .created → d'.providerInvoiceId = some id →
      Carries held id d'.tag → Answered cfg held db d'
  | missed {d : InvoiceDraftRow} : d ∈ db invoiceDrafts → d.batchId = d'.batchId →
      d'.status ≠ .created → (Hopeful cfg d → Hopeful cfg d') → Answered cfg held db d'

theorem missDraft_open (limits : ReconcileLimits) (draft : InvoiceDraft) (time : ℤ)
    (stored d : InvoiceDraftRow) : (missDraft limits draft time stored d).status ≠ .created := by
  unfold missDraft
  simp only
  split_ifs <;> simp

/-- A draft with attempts left is not given up for a lookup in vain. -/
theorem Hopeful.missed {limits : ReconcileLimits} {draft : InvoiceDraft} {time : ℤ}
    {d : InvoiceDraftRow} (hmax : limits.maxAttempts = cfg.invoiceMaxAttempts)
    (hread : draft.attempts = d.attempts) (hunknown : d.status = .unknown) (h : Hopeful cfg d) :
    Hopeful cfg (missDraft limits draft time d d) := by
  have hleft := h.2 hunknown
  have hspared : ¬ limits.maxAttempts ≤ draft.attempts := by omega
  refine ⟨?_, fun _ => hleft⟩
  unfold missDraft
  simp only [hspared, and_false, if_false]
  split_ifs <;> simp

theorem created_answered {id : DraftId} {invoice : InvoiceId} (time : ℤ)
    (hcarries : ∀ d ∈ w.db invoiceDrafts, d.id = id → Carries w.invoices invoice d.tag) :
    ∀ d' ∈ ((StoreOp.invoices (.created ⟨id, invoice, time⟩)).apply w.db).2 invoiceDrafts,
      Answered cfg w.invoices w.db d' := by
  have hchanged := invoices_changes (.created ⟨id, invoice, time⟩) w.db
  unfold InvoicesChangedIn at hchanged
  generalize ((StoreOp.invoices (.created ⟨id, invoice, time⟩)).apply w.db).2 invoiceDrafts =
    drafts' at hchanged ⊢
  generalize ((StoreOp.invoices (.created ⟨id, invoice, time⟩)).apply w.db).2 ownedInvoices =
    owned' at hchanged
  intro d' hd'
  cases hchanged with
  | same => exact .kept hd'
  | transitioned hop =>
      obtain rfl := Option.some.inj hop
      rcases mem_assignWhere.mp hd' with ⟨d, hd, hid, rfl⟩ | ⟨hd, -⟩
      · exact .created hd rfl rfl rfl (hcarries d hd (beq_iff_eq.mp hid))
      · exact .kept hd
  | saved hop => cases hop
  | registered hop => cases hop
  | bound hop => cases hop
  | retried hop => cases hop
  | missed hop => cases hop

theorem saved_answered (batch : InvoiceBatch) (time : ℤ) :
    ∀ d' ∈ ((StoreOp.invoices (.save batch.id (buildInvoiceDrafts gen batch time))).apply
      w.db).2 invoiceDrafts, Answered cfg w.invoices w.db d' := by
  have hchanged := invoices_changes (.save batch.id (buildInvoiceDrafts gen batch time)) w.db
  unfold InvoicesChangedIn at hchanged
  generalize ((StoreOp.invoices (.save batch.id (buildInvoiceDrafts gen batch time))).apply
    w.db).2 invoiceDrafts = drafts' at hchanged ⊢
  generalize ((StoreOp.invoices (.save batch.id (buildInvoiceDrafts gen batch time))).apply
    w.db).2 ownedInvoices = owned' at hchanged
  intro d' hd'
  cases hchanged with
  | same => exact .kept hd'
  | saved hop =>
      obtain ⟨rfl, rfl⟩ := InvoiceStoreOp.save.inj hop
      rcases List.mem_append.mp hd' with hd' | hd'
      · exact .kept hd'
      · obtain ⟨draft, hdraft, rfl⟩ := List.mem_map.mp hd'
        obtain ⟨k, -, rfl⟩ := List.mem_map.mp (List.mem_filter.mp hdraft).1
        exact .saved rfl
  | registered hop => cases hop
  | bound hop => cases hop
  | transitioned hop => cases hop
  | retried hop => cases hop
  | missed hop => cases hop

theorem told_answered (hc : metadata.Consistent w.db) {op : StoreOp}
    (htold : Told Calm gen cfg l w.db (.store op)) (hsure : Sure w (.store op)) :
    ∀ d' ∈ (op.apply w.db).2 invoiceDrafts, Answered cfg w.invoices w.db d' := by
  have hframe : invoiceDrafts ∉ op.tables →
      ∀ d' ∈ (op.apply w.db).2 invoiceDrafts, Answered cfg w.invoices w.db d' :=
    fun htables d' hd' => .kept (StoreOp.apply_frame op htables w.db ▸ hd')
  cases htold with
  | claim => exact hframe (by simp [StoreOp.tables, TrialStoreOp.tables])
  | pending => exact hframe (by simp [StoreOp.tables, InvoiceStoreOp.tables])
  | unknown => exact hframe (by simp [StoreOp.tables, InvoiceStoreOp.tables])
  | settle => exact hframe (by simp [StoreOp.tables, InvoiceStoreOp.tables])
  | @save batch time => exact saved_answered batch time
  | @created d id time => exact created_answered time hsure
  | refused _ hrefused =>
      have hunissued := hrefused.unissued
      cases hunissued <;> exact hsure.elim
  | @reconcile d found time _ hlisted =>
      obtain ⟨row, hrow, rfl, hstatus⟩ := hlisted.row
      cases found with
      | some id => exact created_answered time (hsure _ rfl)
      | none =>
          have hmiss : (StoreOp.invoices (.reconcile ⟨toDraft row, none, time⟩
              ⟨cfg.invoiceMaxAttempts, cfg.invoiceReconciliationMaxAttempts,
                Services.backoff cfg (toDraft row).attempts⟩)).apply w.db = _ :=
            miss_apply hc _ time hrow rfl
          intro d' hd'
          change d' ∈ ((StoreOp.invoices (.reconcile ⟨toDraft row, none, time⟩ _)).apply w.db).2
            invoiceDrafts at hd'
          rw [hmiss] at hd'
          simp only [Database.set_self] at hd'
          rcases mem_assignWhere.mp hd' with ⟨d, hd, hid, rfl⟩ | ⟨hd, -⟩
          · obtain rfl := (hc invoiceDrafts).eq_of_key hd hrow (beq_iff_eq.mp hid)
            exact .missed hd rfl (missDraft_open _ _ _ _ _) (Hopeful.missed rfl rfl hstatus)
          · exact .kept hd

/-- One transaction, with the claims that it takes. -/
theorem told_course (hfitting : Fitting gen w.db) {op : StoreOp}
    (htold : Told Calm gen cfg l w.db (.store op)) (hsure : Sure w (.store op)) (spare : ℕ)
    (r : Call.Answer (.store op)) :
    KeepsCourse cfg (spare + ticks (⟨(), .store op, r⟩ :: l) - ticks l) w.db spare
      (op.apply w.db).2 := by
  have hanswered := told_answered hfitting.consistent htold hsure
  have hother : isClaim ⟨(), .store op, r⟩ = false → invoiceBatches ∉ op.tables →
      KeepsCourse cfg (spare + ticks (⟨(), .store op, r⟩ :: l) - ticks l) w.db spare
        (op.apply w.db).2 := by
    intro hclaim htables
    rw [ticks_cons hclaim, Nat.add_sub_cancel]
    refine .of_drafts (StoreOp.apply_frame op htables w.db) fun d' hd' => ?_
    cases hanswered d' hd' with
    | kept hd => exact .inr ⟨d', hd, rfl, fun h => h⟩
    | saved hstatus => exact .inl ⟨by simp [hstatus], by simp [hstatus]⟩
    | created _ _ hstatus => exact .inl ⟨by simp [hstatus], by simp [hstatus]⟩
    | missed hd hbatch _ himp => exact .inr ⟨_, hd, hbatch, himp⟩
  cases htold with
  | claim =>
      rw [ticks_claim]
      have hspare : spare + (ticks l + 1) - ticks l = spare + 1 := by omega
      rw [hspare]
      exact claim_course hfitting.consistent rfl
  | settle =>
      rw [ticks_cons rfl, Nat.add_sub_cancel]
      exact settle_course hfitting _ _
  | save => exact hother rfl (by simp [StoreOp.tables, InvoiceStoreOp.tables])
  | pending => exact hother rfl (by simp [StoreOp.tables, InvoiceStoreOp.tables])
  | unknown => exact hother rfl (by simp [StoreOp.tables, InvoiceStoreOp.tables])
  | created => exact hother rfl (by simp [StoreOp.tables, InvoiceStoreOp.tables])
  | reconcile => exact hother rfl (by simp [StoreOp.tables, InvoiceStoreOp.tables])
  | refused _ hrefused =>
      have hunissued := hrefused.unissued
      cases hunissued <;> exact hsure.elim

theorem Invoiced.mono {held held' : List HeldInvoice} {d : InvoiceDraftRow}
    (hsub : ∀ x ∈ held, x ∈ held') (h : Invoiced held d) : Invoiced held' d := by
  obtain ⟨id, hid, hcarries⟩ := h
  exact ⟨id, hid, hcarries.mono hsub⟩

/-- Every call keeps the invariant. -/
theorem Inv.performs (hmax : 0 < cfg.invoiceMaxAttempts) (h : Inv gen tagOf cfg outset l w)
    {clock : ℤ → Prop} (htold : Told Calm gen cfg l w.db call) (hsure : Sure w call)
    (hp : Performs (answering tagOf) clock w call r w') :
    Inv gen tagOf cfg outset (⟨(), call, r⟩ :: l) w' := by
  have hbounded := h.bounded.performs hmax (.told htold) (answering_reporting hp)
  have hquiet : w'.db = w.db → (∀ x ∈ w.invoices, x ∈ w'.invoices) →
      isClaim ⟨(), call, r⟩ = false → Inv gen tagOf cfg outset (⟨(), call, r⟩ :: l) w' := by
    intro hdb hheld hclaim
    refine ⟨hbounded, hdb ▸ h.tagged, fun hspare => ?_, fun d hd hstatus => ?_⟩
    · rw [ticks_cons hclaim] at hspare ⊢
      rw [hdb]
      exact h.course hspare
    · exact (h.invoiced d (hdb ▸ hd) hstatus).mono hheld
  cases call with
  | now => exact hquiet (hp.2 ▸ rfl) (hp.2 ▸ fun x hx => hx) rfl
  | invoiceQuery limit tags => exact hquiet (hp.2 ▸ rfl) (hp.2 ▸ fun x hx => hx) rfl
  | invoiceCreate request =>
      obtain ⟨held, ⟨id, -, -, rfl⟩, rfl⟩ := hp
      exact hquiet rfl (fun x hx => List.mem_append.mpr (.inl hx)) rfl
  | transferCreate request => cases htold
  | transferQuery limit tags => cases htold
  | store op =>
      obtain ⟨-, rfl⟩ := hp
      have hfitting := h.bounded.fitting
      refine ⟨hbounded, ?_, fun hspare => ?_, fun d' hd' hstatus => ?_⟩
      · cases op with
        | invoices op =>
            refine invoices_tagged gen h.tagged fun batchId ds hop => ?_
            cases htold with
            | @save batch time =>
                obtain ⟨-, rfl⟩ := InvoiceStoreOp.save.inj hop
                exact ⟨batch, time, rfl⟩
            | refused _ hrefused =>
                have hunissued := hrefused.unissued
                cases hunissued <;> cases hop
            | _ => cases hop
        | trials op => exact h.tagged.of_eq (StoreOp.apply_frame _ (by
            cases op <;> simp [StoreOp.tables, TrialStoreOp.tables]) w.db)
        | events op => cases htold
        | transfers op => cases htold
      · have hgrows : ticks l ≤ ticks (⟨(), .store op, r⟩ :: l) := by
          simp [ticks, List.countP_cons]
        refine (h.course (hgrows.trans hspare)).trans ?_
        have hcourse := told_course hfitting htold hsure
          (ticks outset.log + outset.spare - ticks (⟨(), .store op, r⟩ :: l)) r
        have hleft : ticks outset.log + outset.spare - ticks (⟨(), .store op, r⟩ :: l) +
            ticks (⟨(), .store op, r⟩ :: l) - ticks l =
              ticks outset.log + outset.spare - ticks l := by omega
        rwa [hleft] at hcourse
      · cases told_answered hfitting.consistent htold hsure d' hd' with
        | kept hd => exact h.invoiced d' hd hstatus
        | saved hpending => simp [hpending] at hstatus
        | created _ _ _ hid hcarries => exact ⟨_, hid, hcarries⟩
        | missed _ _ hmissed => exact absurd hstatus hmissed

theorem Inv.reordered (h : Inv gen tagOf cfg outset l w) (hdb : Reordered w.db w'.db)
    (hheld : w'.invoices = w.invoices) : Inv gen tagOf cfg outset l w' where
  bounded := h.bounded.reordered hdb
  tagged := h.tagged.reordered hdb
  course hspare := (h.course hspare).trans (.reordered hdb)
  invoiced d hd hstatus := hheld ▸ h.invoiced d (hdb.mem.mp hd) hstatus

theorem sound : (protocol gen tagOf cfg outset).Sound where
  rely_refl _ _ _ := ⟨rfl, fun _ => .refl _, rfl⟩
  rely_trans _ _ _ _ _ _ _ h h' :=
    ⟨h'.1.trans h.1, fun t => (h.2.1 t).trans (h'.2.1 t), h'.2.2.trans h.2.2⟩
  drift_keeps _ _ _ h hdrift := ⟨h.reordered hdrift.1 hdrift.2, fun _ => ⟨rfl, hdrift⟩⟩
  dies_keeps _ _ _ _ _ h := h.elim

end

end StarkbankTrial.AnsweringProvider
