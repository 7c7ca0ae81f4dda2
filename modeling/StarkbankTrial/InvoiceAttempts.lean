import StarkbankTrial.CoherentTrials

/-!
# The creations of a draft

Ticks and reconcile passes run one after another with deliveries between them, with the same
limits throughout. The log tells how often the creation of a draft was tried, what was
answered last, and how often a reconciliation looked it up in vain since. The columns of the
draft follow these numbers, so that the limits on the columns are limits on the calls.
-/
namespace StarkbankTrial.InvoiceAttempts
open Domain InteractivePrograms InterleavedRuns RelationalTables DatabaseSchema
open DatabaseSchema.Table
open EventRecording InvoiceRecording BatchClaims StoreOperations InvoiceChanges ExternalCalls
open ProviderClient Services WorkerRules TrialRules ScriptedRuns InvoiceOnce
open UndisturbedServices TrialInvariants CoherentTrials

/-! ### The calls for one tag -/

/-- The answer to a creation of an invoice with the tag. -/
def creation (tag : String) : Entry Unit Call Call.Answer → Option (SdkAnswer SdkInvoice)
  | ⟨_, .invoiceCreate request, answer⟩ => if request.tags = [tag] then some answer else none
  | _ => none

/-- How often the creation was tried. -/
def creates (tag : String) (l : CallLog) : ℕ := (l.filterMap (creation tag)).length

/-- What the last creation answered. -/
def lastCreation (tag : String) (l : CallLog) : Option (SdkAnswer SdkInvoice) :=
  l.findSome? (creation tag)

/-- The creation is the last call. -/
def inFlight (tag : String) (l : CallLog) : Bool := (l.head?.bind (creation tag)).isSome

/-- The last call writes that the lookup before it, for a draft with the tag, was in vain. -/
def missWritten (tag : String) : CallLog → Bool
  | ⟨_, .store (.invoices (.reconcile ⟨draft, none, _⟩ _)), _⟩ ::
      ⟨_, .invoiceQuery _ tags, answer⟩ :: _ =>
      draft.tag == tag && tags == [tag] && List.isEmpty answer
  | _ => false

/-- The reconciliation lookups in vain since the last creation. -/
def lookups (tag : String) : CallLog → ℕ
  | [] => 0
  | e :: l =>
      if (creation tag e).isSome then 0 else lookups tag l + (missWritten tag (e :: l)).toNat

/-- The creation ended in a timeout, or nobody knows how it ended. -/
def UnknownOutcome (answer : SdkAnswer SdkInvoice) : Prop :=
  NoInvoice answer ∧ (createError answer).kind.isTimeout = true

/-- What must have happened before a creation. -/
structure Ready (cfg : TrialSettings) (tag : String) (l : CallLog) : Prop where
  lookup : 0 < creates tag l → ∃ earlier, l = ⟨(), .invoiceQuery 1 [tag], []⟩ :: earlier
  waited : ∀ answer, lastCreation tag l = some answer → UnknownOutcome answer →
    cfg.invoiceReconciliationMaxAttempts ≤ lookups tag l

/-- Every creation was ready. -/
def Paced (cfg : TrialSettings) (l : CallLog) : Prop :=
  ∀ later request answer earlier, l = later ++ ⟨(), .invoiceCreate request, answer⟩ :: earlier →
    ∀ tag, request.tags = [tag] → Ready cfg tag earlier

section
variable {tag : String} {e : Entry Unit Call Call.Answer} {l : CallLog} {cfg : TrialSettings}

theorem creation_of_ne (h : ∀ request, e.op ≠ .invoiceCreate request) : creation tag e = none := by
  unfold creation
  split
  · exact absurd rfl (h _)
  · rfl

@[simp] theorem creation_invoiceCreate {request : InvoiceRequest} {answer : SdkAnswer SdkInvoice} :
    creation tag ⟨(), .invoiceCreate request, answer⟩ =
      if request.tags = [tag] then some answer else none := rfl

theorem creates_cons (h : creation tag e = none) : creates tag (e :: l) = creates tag l := by
  simp [creates, h]

theorem creates_cons_creation {answer : SdkAnswer SdkInvoice} (h : creation tag e = some answer) :
    creates tag (e :: l) = creates tag l + 1 := by
  simp [creates, h]

theorem lastCreation_cons (h : creation tag e = none) :
    lastCreation tag (e :: l) = lastCreation tag l := by
  simp [lastCreation, h]

theorem lastCreation_cons_creation {answer : SdkAnswer SdkInvoice}
    (h : creation tag e = some answer) : lastCreation tag (e :: l) = some answer := by
  simp [lastCreation, h]

/-- Something was answered last exactly when there was a creation. -/
theorem creates_pos {answer : SdkAnswer SdkInvoice} (h : lastCreation tag l = some answer) :
    0 < creates tag l := by
  obtain ⟨e, he, hanswer⟩ := List.exists_of_findSome?_eq_some h
  exact List.length_pos_of_mem (List.mem_filterMap.mpr ⟨e, he, hanswer⟩)

theorem inFlight_cons (h : creation tag e = none) : inFlight tag (e :: l) = false := by
  simp [inFlight, h]

theorem lookups_cons (h : creation tag e = none) :
    lookups tag (e :: l) = lookups tag l + (missWritten tag (e :: l)).toNat := by
  simp [lookups, h]

theorem lookups_cons_creation {answer : SdkAnswer SdkInvoice} (h : creation tag e = some answer) :
    lookups tag (e :: l) = 0 := by
  simp [lookups, h]

theorem missWritten_of_ne
    (h : ∀ draft time limits, e.op ≠ .store (.invoices (.reconcile ⟨draft, none, time⟩ limits))) :
    missWritten tag (e :: l) = false := by
  unfold missWritten
  split
  · next heq =>
      obtain ⟨rfl, -⟩ := List.cons.inj heq
      exact absurd rfl (h _ _ _)
  · rfl

theorem Paced.cons (h : Paced cfg l) (he : ∀ request, e.op ≠ .invoiceCreate request) :
    Paced cfg (e :: l) := by
  intro later request answer earlier hsplit
  cases later with
  | nil =>
      obtain ⟨rfl, -⟩ := List.cons.inj hsplit
      exact absurd rfl (he request)
  | cons e' later => exact h later request answer earlier (List.cons.inj hsplit).2

theorem Paced.cons_creation (h : Paced cfg l) {request : InvoiceRequest}
    {answer : SdkAnswer SdkInvoice} (hready : ∀ tag, request.tags = [tag] → Ready cfg tag l) :
    Paced cfg (⟨(), .invoiceCreate request, answer⟩ :: l) := by
  intro later request' answer' earlier hsplit
  cases later with
  | nil =>
      obtain ⟨hentry, rfl⟩ := List.cons.inj hsplit
      obtain ⟨-, hop, -⟩ := Entry.mk.inj hentry
      obtain rfl := Call.invoiceCreate.inj hop
      exact hready
  | cons e' later => exact h later request' answer' earlier (List.cons.inj hsplit).2

end

/-! ### The columns of a draft -/

/-- How the columns of a draft follow the log. -/
structure Budget (cfg : TrialSettings) (l : CallLog) (d : InvoiceDraftRow) : Prop where
  bound : creates d.tag l ≤ cfg.invoiceMaxAttempts
  counted : d.status = .pending ∨ d.status = .unknown →
    creates d.tag l ≤ d.attempts + (inFlight d.tag l).toNat
  flying : inFlight d.tag l = true → d.status = .pending
  pending : d.status = .pending → d.attempts < cfg.invoiceMaxAttempts ∧ d.reconcileAttempts = 0
  looked : d.status = .unknown → lookups d.tag l = d.reconcileAttempts
  waited : d.status = .pending → inFlight d.tag l = false →
    ∀ answer, lastCreation d.tag l = some answer → UnknownOutcome answer →
      cfg.invoiceReconciliationMaxAttempts ≤ lookups d.tag l

namespace Budget
variable {cfg : TrialSettings} {l : CallLog} {d d' : InvoiceDraftRow}
variable {e : Entry Unit Call Call.Answer}

/-- A draft that no creation was tried for. -/
theorem fresh (hmax : 0 < cfg.invoiceMaxAttempts) (hstatus : d.status = .pending)
    (hattempts : d.attempts = 0) (hreconcile : d.reconcileAttempts = 0)
    (hnone : creates d.tag l = 0) : Budget cfg l d where
  bound := by omega
  counted _ := by omega
  flying _ := hstatus
  pending _ := ⟨by omega, hreconcile⟩
  looked hother := by simp [hstatus] at hother
  waited _ _ answer hlast := by
    have hpos := creates_pos hlast
    omega

/-- A call that is not about the draft. -/
theorem quiet (h : Budget cfg l d) (he : creation d.tag e = none)
    (hmiss : missWritten d.tag (e :: l) = false) (hflight : inFlight d.tag l = false) :
    Budget cfg (e :: l) d where
  bound := by
    rw [creates_cons he]
    exact h.bound
  counted hstatus := by
    have hcount := h.counted hstatus
    rw [hflight] at hcount
    rw [creates_cons he]
    exact hcount.trans (Nat.le_add_right _ _)
  flying hflying := by simp [inFlight_cons he] at hflying
  pending := h.pending
  looked hstatus := by
    rw [lookups_cons he, hmiss]
    exact h.looked hstatus
  waited hstatus _ answer hlast hunknown := by
    rw [lastCreation_cons he] at hlast
    rw [lookups_cons he, hmiss]
    exact h.waited hstatus hflight answer hlast hunknown

/-- The creation of the draft is tried. -/
theorem tried (h : Budget cfg l d) (hpending : d.status = .pending)
    (hflight : inFlight d.tag l = false) {answer : SdkAnswer SdkInvoice}
    (he : creation d.tag e = some answer) : Budget cfg (e :: l) d where
  bound := by
    have hcount := h.counted (.inl hpending)
    have hattempts := (h.pending hpending).1
    rw [hflight] at hcount
    rw [creates_cons_creation he]
    simp only [Bool.toNat_false] at hcount
    omega
  counted hstatus := by
    have hcount := h.counted hstatus
    rw [hflight] at hcount
    rw [creates_cons_creation he]
    simp only [inFlight, List.head?_cons, Option.bind_some, he, Option.isSome_some, Bool.toNat_true,
      Bool.toNat_false] at hcount ⊢
    omega
  flying _ := hpending
  pending := h.pending
  looked hstatus := by simp [hpending] at hstatus
  waited _ hcalm := by simp [inFlight, he] at hcalm

/-- The draft is done. -/
theorem done (h : Budget cfg l d) (he : creation d.tag e = none) (htag : d'.tag = d.tag)
    (hstatus : d'.status = .created ∨ d'.status = .failed) : Budget cfg (e :: l) d' where
  bound := by
    rw [htag, creates_cons he]
    exact h.bound
  counted hother := by rcases hstatus with hs | hs <;> simp [hs] at hother
  flying hflying := by
    rw [htag, inFlight_cons he] at hflying
    exact Bool.noConfusion hflying
  pending hother := by rcases hstatus with hs | hs <;> simp [hs] at hother
  looked hother := by rcases hstatus with hs | hs <;> simp [hs] at hother
  waited hother := by rcases hstatus with hs | hs <;> simp [hs] at hother

/-- The creations so far, after one more attempt was counted. -/
theorem counted_next (h : Budget cfg l d) (hpending : d.status = .pending) :
    creates d.tag l ≤ d.attempts + 1 := by
  have hcount := h.counted (.inl hpending)
  have hflight := Bool.toNat_le (inFlight d.tag l)
  omega

/-- The result of the creation is unknown. -/
theorem unknown (h : Budget cfg l d) (hpending : d.status = .pending)
    (he : creation d.tag e = none) (hmiss : missWritten d.tag (e :: l) = false)
    (hlooked : lookups d.tag l = 0) (htag : d'.tag = d.tag) (hstatus : d'.status = .unknown)
    (hattempts : d'.attempts = d.attempts + 1)
    (hreconcile : d'.reconcileAttempts = d.reconcileAttempts) : Budget cfg (e :: l) d' where
  bound := by
    rw [htag, creates_cons he]
    exact h.bound
  counted _ := by
    rw [htag, creates_cons he, hattempts]
    exact (h.counted_next hpending).trans (Nat.le_add_right _ _)
  flying hflying := by
    rw [htag, inFlight_cons he] at hflying
    exact Bool.noConfusion hflying
  pending hother := by simp [hstatus] at hother
  looked _ := by
    rw [htag, lookups_cons he, hmiss, hlooked, hreconcile, (h.pending hpending).2]
    rfl
  waited hother := by simp [hstatus] at hother

/-- Another attempt is allowed. -/
theorem retried (h : Budget cfg l d) (hpending : d.status = .pending)
    (he : creation d.tag e = none) (hmiss : missWritten d.tag (e :: l) = false)
    (hknown : inFlight d.tag l = true →
      ∀ answer, lastCreation d.tag l = some answer → ¬ UnknownOutcome answer)
    (htag : d'.tag = d.tag) (hattempts : d'.attempts = d.attempts + 1)
    (hleft : d.attempts + 1 < cfg.invoiceMaxAttempts) (hstatus : d'.status = .pending)
    (hreconcile : d'.reconcileAttempts = d.reconcileAttempts) : Budget cfg (e :: l) d' where
  bound := by
    rw [htag, creates_cons he]
    exact h.bound
  counted _ := by
    rw [htag, creates_cons he, hattempts]
    exact (h.counted_next hpending).trans (Nat.le_add_right _ _)
  flying hflying := by
    rw [htag, inFlight_cons he] at hflying
    exact Bool.noConfusion hflying
  pending _ := ⟨hattempts ▸ hleft, hreconcile.trans (h.pending hpending).2⟩
  looked hother := by simp [hstatus] at hother
  waited _ _ answer hlast hunknown := by
    rw [htag, lastCreation_cons he] at hlast
    rw [htag, lookups_cons he, hmiss]
    cases hflight : inFlight d.tag l with
    | true => exact absurd hunknown (hknown hflight answer hlast)
    | false => exact h.waited hpending hflight answer hlast hunknown

/-- A reconciliation looked the draft up in vain. -/
theorem missed (h : Budget cfg l d) (hunknown : d.status = .unknown)
    (he : creation d.tag e = none) (hmiss : missWritten d.tag (e :: l) = true)
    {limits : ReconcileLimits} {draft : InvoiceDraft} {time : ℤ}
    (hmax : limits.maxAttempts = cfg.invoiceMaxAttempts)
    (hlookups : limits.maxReconciliationAttempts = cfg.invoiceReconciliationMaxAttempts)
    (hread : draft.attempts = d.attempts) :
    Budget cfg (e :: l) (missDraft limits draft time d d) := by
  have hflight : inFlight d.tag l = false := by
    by_contra hflying
    simp [h.flying (by simpa using hflying)] at hunknown
  have hcount := h.counted (.inr hunknown)
  have hlooked := h.looked hunknown
  have htag : (missDraft limits draft time d d).tag = d.tag := rfl
  have hattempts : (missDraft limits draft time d d).attempts = d.attempts := rfl
  have hnext : lookups d.tag (e :: l) = d.reconcileAttempts + 1 := by
    rw [lookups_cons he, hmiss, hlooked]
    rfl
  rw [hflight] at hcount
  refine ⟨?_, fun _ => ?_, fun hflying => ?_, fun hpending => ?_, fun hstill => ?_,
    fun hpending _ answer _ _ => ?_⟩
  · rw [htag, creates_cons he]
    exact h.bound
  · rw [htag, creates_cons he, hattempts]
    exact hcount.trans (Nat.le_add_right _ _)
  · rw [htag, inFlight_cons he] at hflying
    exact Bool.noConfusion hflying
  · simp only [missDraft, hread] at hpending ⊢
    split_ifs at hpending ⊢ with h₁ h₂ <;> simp_all
  · rw [htag, hnext]
    simp only [missDraft] at hstill ⊢
    split_ifs at hstill ⊢ <;> simp_all
  · rw [htag, hnext, ← hlookups]
    simp only [missDraft] at hpending
    split_ifs at hpending with h₁ h₂
    simp_all

end Budget

/-! ### The invariant -/

/-- An invoice is only ever reported for its tag. -/
def reporting (tagOf : InvoiceId → String) : Provider where
  invoiceCreate _ request answer _ :=
    ∀ x, answer.head? = some (.ok x) → request.tags = [tagOf x.id]
  invoiceQuery _ _ tags answer := ∀ x, answer.head? = some (.ok x) → tags = [tagOf x.id]
  transferCreate _ _ _ _ := True
  transferQuery _ _ _ _ := True

/-- A credited event carries the tag of its invoice, and no other tag of a draft. -/
def TrulyTagged (tagOf : InvoiceId → String) (event : VerifiedEvent) : Prop :=
  ∀ credit, event = .credited credit →
    ∀ tag ∈ credit.tags, IsDraftTag tag → tagOf credit.invoiceId = tag

structure Inv (gen : Generators) (tagOf : InvoiceId → String) (cfg : TrialSettings) (l : CallLog)
    (db : Database Row) : Prop where
  fitting : Fitting gen db
  drafted : ∀ o ∈ db ownedInvoices, o.draftId ≠ none
  bound : ∀ d ∈ db invoiceDrafts, ∀ id, d.providerInvoiceId = some id → tagOf id = d.tag
  honest : ∀ d id, Reported d id l → tagOf id = d.tag
  stored : ∀ tag, 0 < creates tag l → ∃ d ∈ db invoiceDrafts, d.tag = tag
  budget : ∀ d ∈ db invoiceDrafts, Budget cfg l d
  paced : Paced cfg l

/-- No creation waits to be written. -/
def Calm (l : CallLog) : Prop := ∀ request answer earlier,
  l ≠ ⟨(), .invoiceCreate request, answer⟩ :: earlier

theorem Calm.inFlight {l : CallLog} (h : Calm l) (tag : String) : inFlight tag l = false := by
  cases l with
  | nil => rfl
  | cons e l =>
      refine inFlight_cons (creation_of_ne fun request hop => ?_)
      obtain ⟨process, op, answer⟩ := e
      cases hop
      exact h request answer l rfl

theorem calm_cons {l : CallLog} {call : Call} {r : call.Answer}
    (h : ∀ request, call ≠ .invoiceCreate request) : Calm (⟨(), call, r⟩ :: l) := by
  intro request answer earlier heq
  obtain ⟨hentry, -⟩ := List.cons.inj heq
  exact h request (Entry.mk.inj hentry).2.1

section
variable {gen : Generators} {tagOf : InvoiceId → String} {cfg : TrialSettings} {l : CallLog}
variable {db db' : Database Row} {e : Entry Unit Call Call.Answer}

/-- The order of the rows does not matter. -/
theorem Inv.reordered (h : Inv gen tagOf cfg l db) (hdb : Reordered db db') :
    Inv gen tagOf cfg l db' where
  fitting := h.fitting.reordered hdb
  drafted o ho := h.drafted o (hdb.mem.mp ho)
  bound d hd := h.bound d (hdb.mem.mp hd)
  honest := h.honest
  stored tag hpos := by
    obtain ⟨d, hd, htag⟩ := h.stored tag hpos
    exact ⟨d, hdb.mem.mpr hd, htag⟩
  budget d hd := h.budget d (hdb.mem.mp hd)
  paced := h.paced

theorem honest_of_ne (he : ∀ request, e.op ≠ .invoiceCreate request)
    (hquery : ∀ limit tags, e.op ≠ .invoiceQuery limit tags) :
    ∀ d id, Reported d id (e :: l) → tagOf id = d.tag := by
  intro d id hreported
  cases hreported with
  | found => exact absurd rfl (hquery 1 [d.tag])
  | created => exact absurd rfl (he (invoiceRequest d))

/-- What the provider returned is honest. -/
theorem honest_of_performs {clock : ℤ → Prop} {w w' : World} {call : Call} {r : call.Answer}
    (hp : Performs (reporting tagOf) clock w call r w') :
    ∀ d id, Reported d id (⟨(), call, r⟩ :: l) → tagOf id = d.tag := by
  intro d id hreported
  cases hreported with
  | found => exact (List.singleton_inj.mp (hp.1 _ rfl)).symm
  | created =>
      obtain ⟨held, hreports, -⟩ := hp
      exact (List.singleton_inj.mp (hreports _ rfl)).symm

/-- A call that is not a creation and writes neither drafts nor owned rows. -/
theorem Inv.unwritten (h : Inv gen tagOf cfg l db) (hcalm : Calm l)
    (he : ∀ request, e.op ≠ .invoiceCreate request)
    (hmiss : ∀ tag, missWritten tag (e :: l) = false)
    (hhonest : ∀ d id, Reported d id (e :: l) → tagOf id = d.tag) (hfitting : Fitting gen db')
    (hdrafts : db' invoiceDrafts = db invoiceDrafts)
    (howned : db' ownedInvoices = db ownedInvoices) : Inv gen tagOf cfg (e :: l) db' where
  fitting := hfitting
  drafted := howned ▸ h.drafted
  bound := hdrafts ▸ h.bound
  honest := hhonest
  stored tag hpos := by
    rw [creates_cons (creation_of_ne he)] at hpos
    exact hdrafts ▸ h.stored tag hpos
  budget d hd := (h.budget d (hdrafts ▸ hd)).quiet (creation_of_ne he) (hmiss d.tag)
    (hcalm.inFlight d.tag)
  paced := h.paced.cons he

/-- A transaction that writes one draft. -/
theorem Inv.assigned (h : Inv gen tagOf cfg l db) {op : StoreOp} {r : Except StoreError op.Result}
    (hfitting : Fitting gen db') (hdrafted : ∀ o ∈ db' ownedInvoices, o.draftId ≠ none)
    {row : InvoiceDraftRow} (hrow : row ∈ db invoiceDrafts)
    {assign : InvoiceDraftRow → InvoiceDraftRow}
    (hdrafts : db' invoiceDrafts = assignWhere (fun d : InvoiceDraftRow => d.id == row.id) assign
      (db invoiceDrafts))
    (htag : (assign row).tag = row.tag)
    (hother : ∀ tag, tag ≠ row.tag → inFlight tag l = false ∧
      missWritten tag (⟨(), .store op, r⟩ :: l) = false)
    (hbudget : Budget cfg (⟨(), .store op, r⟩ :: l) (assign row))
    (hbound : ∀ id, (assign row).providerInvoiceId = some id → tagOf id = row.tag) :
    Inv gen tagOf cfg (⟨(), .store op, r⟩ :: l) db' := by
  have hcases : ∀ d ∈ db' invoiceDrafts, d = assign row ∨ d ∈ db invoiceDrafts ∧ d.tag ≠ row.tag := by
    intro d hd
    rw [hdrafts] at hd
    rcases mem_assignWhere.mp hd with ⟨d₀, hd₀, hid, rfl⟩ | ⟨hd, hid⟩
    · obtain rfl := (h.fitting.consistent invoiceDrafts).eq_of_key hd₀ hrow (beq_iff_eq.mp hid)
      exact .inl rfl
    · refine .inr ⟨hd, fun heq => ?_⟩
      have hsame : d = row := (h.fitting.consistent invoiceDrafts).eq_of_clash hd hrow
        (by simp [metadata, uniqueConflict, heq])
      simp [hsame] at hid
  have he : ∀ request, (⟨(), .store op, r⟩ : Entry Unit Call Call.Answer).op ≠
      .invoiceCreate request := by simp
  refine ⟨hfitting, hdrafted, fun d hd id hid => ?_, honest_of_ne he (by simp), fun tag hpos => ?_,
    fun d hd => ?_, h.paced.cons he⟩
  · rcases hcases d hd with rfl | ⟨hd, -⟩
    · exact (hbound id hid).trans htag.symm
    · exact h.bound d hd id hid
  · rw [creates_cons (creation_of_ne he)] at hpos
    obtain ⟨d, hd, rfl⟩ := h.stored tag hpos
    by_cases hid : d.id = row.id
    · obtain rfl := (h.fitting.consistent invoiceDrafts).eq_of_key hd hrow hid
      exact ⟨assign d, hdrafts ▸ mem_assignWhere.mpr (.inl ⟨d, hd, by simp, rfl⟩), htag⟩
    · exact ⟨d, hdrafts ▸ mem_assignWhere.mpr (.inr ⟨hd, by simpa using hid⟩), rfl⟩
  · rcases hcases d hd with rfl | ⟨hd, hne⟩
    · exact hbudget
    · exact (h.budget d hd).quiet (creation_of_ne he) (hother d.tag hne).2 (hother d.tag hne).1

/-- The operations of ticks and passes give every owned row a draft. -/
theorem owners_drafted {op : InvoiceStoreOp} (hop : ∀ draft time, op ≠ .registerSmoke draft time)
    (h : ∀ o ∈ db ownedInvoices, o.draftId ≠ none) :
    ∀ o ∈ ((StoreOp.invoices op).apply db).2 ownedInvoices, o.draftId ≠ none := by
  have hchanged := invoices_changes op db
  unfold InvoicesChangedIn at hchanged
  generalize ((StoreOp.invoices op).apply db).2 invoiceDrafts = drafts' at hchanged
  generalize ((StoreOp.invoices op).apply db).2 ownedInvoices = owned' at hchanged ⊢
  cases hchanged with
  | saved =>
      intro o ho
      rcases List.mem_append.mp ho with ho | ho
      · exact h o ho
      · obtain ⟨d, -, rfl⟩ := List.mem_map.mp ho
        simp [trialOwner]
  | registered heq => exact absurd heq (hop _ _)
  | bound _ hassign =>
      intro o ho
      rcases mem_assignWhere.mp ho with ⟨o₀, ho₀, -, rfl⟩ | ⟨ho, -⟩
      · exact (hassign o₀).2.1 ▸ h o₀ ho₀
      · exact h o ho
  | transitioned =>
      intro o ho
      rcases mem_assignWhere.mp ho with ⟨o₀, ho₀, -, rfl⟩ | ⟨ho, -⟩
      · exact h o₀ ho₀
      · exact h o ho
  | _ => exact h

/-! ### The writes of ticks and passes -/

/-- The row of a draft that was read, with what makes it the only one with its tag. -/
theorem Inv.same_of_tag (h : Inv gen tagOf cfg l db) {d row : InvoiceDraftRow}
    (hd : d ∈ db invoiceDrafts) (hrow : row ∈ db invoiceDrafts) (htag : d.tag = row.tag) :
    d = row :=
  (h.fitting.consistent invoiceDrafts).eq_of_clash hd hrow
    (by simp [metadata, uniqueConflict, htag])

/-- A transition to one draft, with an invoice that is only reported for its tag. -/
theorem Inv.transitioned (h : Inv gen tagOf cfg l db) {op : InvoiceStoreOp}
    {r : Except StoreError op.Result}
    (hfitting : Fitting gen ((StoreOp.invoices op).apply db).2) {row : InvoiceDraftRow}
    (hrow : row ∈ db invoiceDrafts) {t : DraftTransition} (ht : t.draftId = row.id)
    (hop : ((StoreOp.invoices op).apply db).2 = (atomically metadata (transition t) db).2)
    (hsmoke : ∀ draft time, op ≠ .registerSmoke draft time)
    (hinvoice : ∀ id, t.providerInvoiceId = some id → tagOf id = row.tag)
    (hother : ∀ tag, tag ≠ row.tag → inFlight tag l = false)
    (hmiss : ∀ tag, missWritten tag (⟨(), .store (.invoices op), r⟩ :: l) = false)
    (hbudget : Budget cfg (⟨(), .store (.invoices op), r⟩ :: l) (t.apply row)) :
    Inv gen tagOf cfg (⟨(), .store (.invoices op), r⟩ :: l) ((StoreOp.invoices op).apply db).2 := by
  have hfree : ∀ d ∈ db invoiceDrafts, d.id ≠ t.draftId →
      sameNonNull t.providerInvoiceId d.providerInvoiceId = false := by
    intro d hd hne
    rw [Bool.eq_false_iff, ne_eq, sameNonNull_iff]
    rintro ⟨id, hid, hid'⟩
    have htag := (h.bound d hd id hid').symm.trans (hinvoice id hid)
    exact hne (h.same_of_tag hd hrow htag ▸ ht.symm)
  obtain ⟨db', hok, hdrafts⟩ := transition_ok h.fitting.consistent hfree fun o ho hne => by
    -- the owned row belongs to another draft, which has the same invoice
    obtain ⟨id, hdraft⟩ := Option.ne_none_iff_exists'.mp (h.drafted o ho)
    obtain ⟨d, hd, rfl, -⟩ := h.fitting.paired.stored o ho id hdraft
    rw [h.fitting.paired.agreed.same d hd o ho hdraft]
    exact hfree d hd fun hid => hne (hdraft.trans (congrArg some hid))
  have hdb : ((StoreOp.invoices op).apply db).2 invoiceDrafts =
      assignWhere (fun d : InvoiceDraftRow => d.id == row.id) t.apply (db invoiceDrafts) := by
    rw [hop, hok, ← ht]
    exact hdrafts
  exact h.assigned hfitting (owners_drafted hsmoke h.drafted) hrow hdb rfl
    (fun tag htag => ⟨hother tag htag, hmiss tag⟩) hbudget hinvoice

theorem reported_inFlight {d : InvoiceDraft} {id : InvoiceId} (h : Reported d id l) :
    ∀ tag, tag ≠ d.tag → inFlight tag l = false := by
  intro tag htag
  cases h with
  | found => exact inFlight_cons rfl
  | created => exact inFlight_cons (if_neg fun heq => htag (List.singleton_inj.mp heq).symm)

theorem refused_inFlight {d : InvoiceDraft} {time : ℤ} {op : InvoiceStoreOp}
    (h : Refused cfg d time op l) : ∀ tag, tag ≠ d.tag → inFlight tag l = false := by
  intro tag htag
  cases h with
  | lookup => exact inFlight_cons rfl
  | creation => exact inFlight_cons (if_neg fun heq => htag (List.singleton_inj.mp heq).symm)

/-- The invoice of a draft is written. -/
theorem Inv.created (h : Inv gen tagOf cfg l db) {d : InvoiceDraft} {id : InvoiceId} {time : ℤ}
    {r : Except StoreError (InvoiceStoreOp.created ⟨d.id, id, time⟩).Result}
    (hfitting : Fitting gen ((StoreOp.invoices (.created ⟨d.id, id, time⟩)).apply db).2)
    (hlisted : Listed .pending [d] db) (hreported : Reported d id l) :
    Inv gen tagOf cfg (⟨(), .store (.invoices (.created ⟨d.id, id, time⟩)), r⟩ :: l)
      ((StoreOp.invoices (.created ⟨d.id, id, time⟩)).apply db).2 := by
  obtain ⟨row, hrow, rfl, -⟩ := hlisted.row
  refine h.transitioned hfitting hrow rfl rfl (by simp) (fun id' hid' => ?_) (reported_inFlight hreported)
    (fun tag => missWritten_of_ne (by simp)) ?_
  · obtain rfl : id = id' := Option.some.inj hid'
    exact h.honest (toDraft row) id hreported
  · exact (h.budget row hrow).done rfl rfl (.inl rfl)


/-- A failure for good is written. -/
theorem Inv.failed (h : Inv gen tagOf cfg l db) {d : InvoiceDraft} {code : String} {time : ℤ}
    {r : Except StoreError (InvoiceStoreOp.failed ⟨d.id, code, time⟩).Result}
    (hfitting : Fitting gen ((StoreOp.invoices (.failed ⟨d.id, code, time⟩)).apply db).2)
    (hlisted : Listed .pending [d] db) (hother : ∀ tag, tag ≠ d.tag → inFlight tag l = false) :
    Inv gen tagOf cfg (⟨(), .store (.invoices (.failed ⟨d.id, code, time⟩)), r⟩ :: l)
      ((StoreOp.invoices (.failed ⟨d.id, code, time⟩)).apply db).2 := by
  obtain ⟨row, hrow, rfl, -⟩ := hlisted.row
  refine h.transitioned hfitting hrow rfl rfl (by simp) (fun id hid => ?_) hother
    (fun tag => missWritten_of_ne (by simp)) ?_
  · simp [DraftTransition.failed] at hid
  · exact (h.budget row hrow).done rfl rfl (.inr rfl)

/-- An unknown result of the creation before is written. -/
theorem Inv.unknownResult (h : Inv gen tagOf cfg l db) {d : InvoiceDraft} {code : String}
    {time : ℤ} {r : Except StoreError (InvoiceStoreOp.unknownResult ⟨d.id, code, time⟩).Result}
    (hfitting : Fitting gen ((StoreOp.invoices (.unknownResult ⟨d.id, code, time⟩)).apply db).2)
    (hlisted : Listed .pending [d] db) (hother : ∀ tag, tag ≠ d.tag → inFlight tag l = false)
    (hlooked : lookups d.tag l = 0) :
    Inv gen tagOf cfg (⟨(), .store (.invoices (.unknownResult ⟨d.id, code, time⟩)), r⟩ :: l)
      ((StoreOp.invoices (.unknownResult ⟨d.id, code, time⟩)).apply db).2 := by
  obtain ⟨row, hrow, rfl, hstatus⟩ := hlisted.row
  have hmiss : ∀ tag, missWritten tag (⟨(), .store (.invoices (.unknownResult
      ⟨row.id, code, time⟩)), r⟩ :: l) = false := fun tag => missWritten_of_ne (by simp)
  refine h.transitioned hfitting hrow rfl rfl (by simp) (fun id hid => ?_) hother hmiss ?_
  · simp [DraftTransition.unknownResult] at hid
  · exact (h.budget row hrow).unknown hstatus rfl (hmiss row.tag) hlooked rfl rfl rfl rfl

/-- Another attempt is written, or that there is none left. -/
theorem Inv.retry (h : Inv gen tagOf cfg l db) {d : InvoiceDraft} {code : String}
    {time delay : ℤ} {r : Except StoreError
      (InvoiceStoreOp.retry ⟨d.id, code, time⟩ delay cfg.invoiceMaxAttempts).Result}
    (hfitting : Fitting gen ((StoreOp.invoices
      (.retry ⟨d.id, code, time⟩ delay cfg.invoiceMaxAttempts)).apply db).2)
    (hlisted : Listed .pending [d] db) (hother : ∀ tag, tag ≠ d.tag → inFlight tag l = false)
    (hknown : inFlight d.tag l = true →
      ∀ answer, lastCreation d.tag l = some answer → ¬ UnknownOutcome answer) :
    Inv gen tagOf cfg (⟨(), .store (.invoices
        (.retry ⟨d.id, code, time⟩ delay cfg.invoiceMaxAttempts)), r⟩ :: l)
      ((StoreOp.invoices (.retry ⟨d.id, code, time⟩ delay cfg.invoiceMaxAttempts)).apply db).2 := by
  obtain ⟨row, hrow, rfl, hstatus⟩ := hlisted.row
  have hmiss : ∀ tag, missWritten tag (⟨(), .store (.invoices (.retry ⟨row.id, code, time⟩ delay
      cfg.invoiceMaxAttempts)), r⟩ :: l) = false := fun tag => missWritten_of_ne (by simp)
  obtain ⟨b, db', hok, hdrafts⟩ := retry_ok h.fitting.consistent ⟨row.id, code, time⟩ delay
    cfg.invoiceMaxAttempts hrow rfl
  have hsame : (StoreOp.invoices (.retry ⟨row.id, code, time⟩ delay
      cfg.invoiceMaxAttempts)).apply db = (.ok b, db') := hok
  refine h.assigned hfitting (owners_drafted (by simp) h.drafted) hrow
    ((congrArg (fun p => p.2 invoiceDrafts) hsame).trans hdrafts) rfl
    (fun tag htag => ⟨hother tag htag, hmiss tag⟩) ?_ fun id hid =>
      absurd hid.symm (Option.some_ne_none id)
  by_cases hexhausted : cfg.invoiceMaxAttempts ≤ row.attempts + 1
  · exact (h.budget row hrow).done rfl rfl (.inr (by simp [retryDraft, hexhausted]))
  · exact (h.budget row hrow).retried hstatus rfl (hmiss row.tag) hknown rfl rfl
      (not_le.mp hexhausted) (by simp [retryDraft, hexhausted]) rfl

/-- What is written after a call that failed, with what the log says then. -/
theorem refused_cases {d : InvoiceDraft} {time : ℤ} {op : InvoiceStoreOp}
    (h : Refused cfg d time op l) :
    (∃ code, op = .failed ⟨d.id, code, time⟩) ∨
    (∃ code, op = .unknownResult ⟨d.id, code, time⟩ ∧ lookups d.tag l = 0) ∨
    ∃ code delay, op = .retry ⟨d.id, code, time⟩ delay cfg.invoiceMaxAttempts ∧
      (inFlight d.tag l = true →
        ∀ answer, lastCreation d.tag l = some answer → ¬ UnknownOutcome answer) := by
  cases h with
  | @lookup e rest l =>
      have hcalm : inFlight d.tag (⟨(), .invoiceQuery 1 [d.tag], .error e :: rest⟩ :: l) = false :=
        inFlight_cons rfl
      unfold lookupFailure
      split_ifs
      · exact .inr (.inr ⟨_, _, rfl, fun hflying => by simp [hcalm] at hflying⟩)
      · exact .inl ⟨_, rfl⟩
  | @creation answer l _ =>
      have hlast : creation d.tag ⟨(), .invoiceCreate (invoiceRequest d), answer⟩ = some answer :=
        if_pos rfl
      unfold createFailure lookupFailure
      split_ifs with htimeout
      · exact .inr (.inl ⟨_, rfl, lookups_cons_creation hlast⟩)
      · refine .inr (.inr ⟨_, _, rfl, fun _ answer' hanswer hunknown => htimeout ?_⟩)
        rw [lastCreation_cons_creation hlast] at hanswer
        exact Option.some.inj hanswer ▸ hunknown.2
      · exact .inl ⟨_, rfl⟩

/-- Whatever is written after a call that failed. -/
theorem Inv.refused (h : Inv gen tagOf cfg l db) {d : InvoiceDraft} {time : ℤ}
    {op : InvoiceStoreOp} {r : Except StoreError op.Result}
    (hfitting : Fitting gen ((StoreOp.invoices op).apply db).2)
    (hlisted : Listed .pending [d] db) (hrefused : Refused cfg d time op l) :
    Inv gen tagOf cfg (⟨(), .store (.invoices op), r⟩ :: l)
      ((StoreOp.invoices op).apply db).2 := by
  have hother := refused_inFlight hrefused
  rcases refused_cases hrefused with ⟨code, rfl⟩ | ⟨code, rfl, hlooked⟩ | ⟨code, delay, rfl, hknown⟩
  · exact h.failed hfitting hlisted hother
  · exact h.unknownResult hfitting hlisted hother hlooked
  · exact h.retry hfitting hlisted hother hknown

/-- The invoice that a reconciliation found is written, or that there is none. -/
theorem Inv.reconcile (h : Inv gen tagOf cfg l db) (hcalm : Calm l) {d : InvoiceDraft}
    {found : Option InvoiceId} {time : ℤ} {limits : ReconcileLimits}
    (hmax : limits.maxAttempts = cfg.invoiceMaxAttempts)
    (hlookups : limits.maxReconciliationAttempts = cfg.invoiceReconciliationMaxAttempts)
    {r : Except StoreError
      (InvoiceStoreOp.reconcile ⟨d, found.map fun id => ⟨id, d.tag⟩, time⟩ limits).Result}
    (hfitting : Fitting gen ((StoreOp.invoices
      (.reconcile ⟨d, found.map fun id => ⟨id, d.tag⟩, time⟩ limits)).apply db).2)
    (hlisted : Listed .unknown [d] db) (hlooked : LookedUp d found l) :
    Inv gen tagOf cfg (⟨(), .store (.invoices
        (.reconcile ⟨d, found.map fun id => ⟨id, d.tag⟩, time⟩ limits)), r⟩ :: l)
      ((StoreOp.invoices (.reconcile ⟨d, found.map fun id => ⟨id, d.tag⟩, time⟩ limits)).apply
        db).2 := by
  obtain ⟨row, hrow, rfl, hstatus⟩ := hlisted.row
  have hother : ∀ tag, tag ≠ row.tag → inFlight tag l = false := fun tag _ => hcalm.inFlight tag
  cases hlooked with
  | @found id rest l =>
      refine h.transitioned (t := .created ⟨row.id, id, time⟩) hfitting hrow rfl rfl (by simp)
        (fun id' hid' => ?_) hother (fun tag => missWritten_of_ne (by simp)) ?_
      · obtain rfl : id = id' := Option.some.inj hid'
        exact h.honest (toDraft row) id .found
      · exact (h.budget row hrow).done rfl rfl (.inl rfl)
  | @nothing l =>
      have happly := miss_apply h.fitting.consistent limits time hrow
        (rfl : (toDraft row).id = row.id)
      refine h.assigned hfitting (owners_drafted (by simp) h.drafted) hrow
        (by simp only [Option.map_none, happly, Database.set_self]; rfl) rfl
        (fun tag htag => ⟨hother tag htag, ?_⟩) ?_ fun id hid => ?_
      · simp [missWritten, toDraft, htag.symm]
      · exact (h.budget row hrow).missed hstatus rfl (by simp [missWritten, toDraft]) hmax hlookups
          rfl
      · exact h.bound row hrow id hid


/-- The drafts of a batch are saved. -/
theorem Inv.save (h : Inv gen tagOf cfg l db) (hcalm : Calm l) (hmax : 0 < cfg.invoiceMaxAttempts)
    {batchId : BatchId} {batch : InvoiceBatch} {time : ℤ} {r : Except StoreError
      (InvoiceStoreOp.save batchId (buildInvoiceDrafts gen batch time)).Result}
    (hfitting : Fitting gen
      ((StoreOp.invoices (.save batchId (buildInvoiceDrafts gen batch time))).apply db).2) :
    Inv gen tagOf cfg
      (⟨(), .store (.invoices (.save batchId (buildInvoiceDrafts gen batch time))), r⟩ :: l)
      ((StoreOp.invoices (.save batchId (buildInvoiceDrafts gen batch time))).apply db).2 := by
  have hdrafted : ∀ o ∈ ((StoreOp.invoices (.save batchId
      (buildInvoiceDrafts gen batch time))).apply db).2 ownedInvoices, o.draftId ≠ none :=
    owners_drafted (by simp) h.drafted
  have hmiss : ∀ tag, missWritten tag (⟨(), .store (.invoices
      (.save batchId (buildInvoiceDrafts gen batch time))), r⟩ :: l) = false :=
    fun tag => missWritten_of_ne (by simp)
  have hchanged := invoices_changes (.save batchId (buildInvoiceDrafts gen batch time)) db
  unfold InvoicesChangedIn at hchanged
  generalize ((StoreOp.invoices (.save batchId (buildInvoiceDrafts gen batch time))).apply db).2 =
    db' at hfitting hdrafted hchanged ⊢
  generalize hdrafts : db' invoiceDrafts = drafts' at hchanged
  generalize howned : db' ownedInvoices = owned' at hchanged
  cases hchanged with
  | same =>
      exact h.unwritten hcalm (by simp) hmiss (honest_of_ne (by simp) (by simp)) hfitting hdrafts
        howned
  | registered heq => cases heq
  | bound heq => cases heq
  | transitioned ht => simp [transitionOf] at ht
  | retried heq => cases heq
  | missed heq => cases heq
  | @saved batchId' ds heq =>
      obtain ⟨rfl, rfl⟩ := InvoiceStoreOp.save.inj heq
      have hnew : ∀ d ∈ newDrafts batchId (buildInvoiceDrafts gen batch time) (db invoiceDrafts),
          d.status = .pending ∧ d.attempts = 0 ∧ d.reconcileAttempts = 0 ∧
            d.providerInvoiceId = none ∧ creates d.tag l = 0 := by
        intro d hd
        have hunused : creates d.tag l = 0 := by
          by_contra hsome
          obtain ⟨d₀, hd₀, htag⟩ := h.stored d.tag (Nat.pos_of_ne_zero hsome)
          have hdistinct := (hfitting.consistent invoiceDrafts).2
          rw [hdrafts] at hdistinct
          have hclash := (List.pairwise_append.mp hdistinct).2.2 d₀ hd₀ d hd
          simp [metadata, uniqueConflict, htag] at hclash
        obtain ⟨draft, hdraft, rfl⟩ := List.mem_map.mp hd
        obtain ⟨k, -, rfl⟩ := List.mem_map.mp (List.mem_filter.mp hdraft).1
        exact ⟨rfl, rfl, rfl, rfl, hunused⟩
      refine ⟨hfitting, hdrafted, fun d hd id hid => ?_, honest_of_ne (by simp) (by simp),
        fun tag hpos => ?_, fun d hd => ?_, h.paced.cons (by simp)⟩
      · rw [hdrafts] at hd
        rcases List.mem_append.mp hd with hd | hd
        · exact h.bound d hd id hid
        · simp [(hnew d hd).2.2.2.1] at hid
      · obtain ⟨d, hd, htag⟩ := h.stored tag hpos
        exact ⟨d, hdrafts ▸ List.mem_append.mpr (.inl hd), htag⟩
      · rw [hdrafts] at hd
        rcases List.mem_append.mp hd with hd | hd
        · exact (h.budget d hd).quiet rfl (hmiss d.tag) (hcalm.inFlight d.tag)
        · obtain ⟨hstatus, hattempts, hreconcile, -, hnone⟩ := hnew d hd
          exact .fresh hmax hstatus hattempts hreconcile hnone

/-- The creation of a draft that waits is tried. -/
theorem Inv.tried (h : Inv gen tagOf cfg l db) (hcalm : Calm l) {d : InvoiceDraft}
    {answer : SdkAnswer SdkInvoice} (hlisted : Listed .pending [d] db)
    (hready : d.attempts = 0 ∨ Missed d l)
    (hhonest : ∀ d' id, Reported d' id (⟨(), .invoiceCreate (invoiceRequest d), answer⟩ :: l) →
      tagOf id = d'.tag) :
    Inv gen tagOf cfg (⟨(), .invoiceCreate (invoiceRequest d), answer⟩ :: l) db := by
  obtain ⟨row, hrow, rfl, hstatus⟩ := hlisted.row
  have hbudget := h.budget row hrow
  have hflight := hcalm.inFlight row.tag
  have hself : creation row.tag ⟨(), .invoiceCreate (invoiceRequest (toDraft row)), answer⟩ =
      some answer := if_pos rfl
  have hother : ∀ tag, tag ≠ row.tag →
      creation tag ⟨(), .invoiceCreate (invoiceRequest (toDraft row)), answer⟩ = none :=
    fun tag htag => if_neg fun heq => htag (List.singleton_inj.mp heq).symm
  refine ⟨h.fitting, h.drafted, h.bound, hhonest, fun tag hpos => ?_, fun d hd => ?_,
    h.paced.cons_creation fun tag htag => ?_⟩
  · by_cases htag : tag = row.tag
    · exact ⟨row, hrow, htag.symm⟩
    · rw [creates_cons (hother tag htag)] at hpos
      exact h.stored tag hpos
  · by_cases htag : d.tag = row.tag
    · obtain rfl := h.same_of_tag hd hrow htag
      exact hbudget.tried hstatus hflight hself
    · exact (h.budget d hd).quiet (hother d.tag htag) (missWritten_of_ne (by simp))
        (hcalm.inFlight d.tag)
  · obtain rfl : row.tag = tag := List.singleton_inj.mp htag
    refine ⟨fun hpos => ?_, hbudget.waited hstatus hflight⟩
    have hcount := hbudget.counted (.inl hstatus)
    rw [hflight] at hcount
    rcases hready with hnone | hmissed
    · have hattempts : row.attempts = 0 := hnone
      simp only [Bool.toNat_false] at hcount
      omega
    · cases hmissed with
      | lookup => exact ⟨_, rfl⟩


/-! ### The recording of events -/

/-- The credit of an owned row creates the draft of the row. -/
theorem Inv.recorded (h : Inv gen tagOf cfg l db) (hcalm : Calm l) {jobId : TransferJobId}
    {record : EventRecord} {r : Except StoreError (StoreOp.events (.record jobId record)).Result}
    (htagged : TrulyTagged tagOf record.event)
    (hfitting : Fitting gen ((StoreOp.events (.record jobId record)).apply db).2) :
    Inv gen tagOf cfg (⟨(), .store (.events (.record jobId record)), r⟩ :: l)
      ((StoreOp.events (.record jobId record)).apply db).2 := by
  have hmiss : ∀ tag, missWritten tag (⟨(), .store (.events (.record jobId record)), r⟩ :: l) =
      false := fun tag => missWritten_of_ne (by simp)
  have hhonest : ∀ d id, Reported d id (⟨(), .store (.events (.record jobId record)), r⟩ :: l) →
      tagOf id = d.tag := honest_of_ne (by simp) (by simp)
  cases record_changes jobId record h.fitting.consistent with
  | untouched hdrafts howned _ =>
      exact h.unwritten hcalm (by simp) hmiss hhonest hfitting hdrafts howned
  | @owned event o hevent ho howns hdrafts howned _ =>
      obtain ⟨id, hdraft⟩ := Option.ne_none_iff_exists'.mp (h.drafted o ho)
      obtain ⟨row, hrow, rfl, htag⟩ := h.fitting.paired.stored o ho id hdraft
      have hsame := h.fitting.paired.agreed.same row hrow o ho hdraft
      -- the row of the draft is the one that the credit may write
      have hassigned : createdDrafts o event record.receivedAt (db invoiceDrafts) =
          assignWhere (fun d : InvoiceDraftRow => d.id == row.id) (fun d => { d with
            providerInvoiceId := some event.invoiceId
            status := .created
            updatedAt := record.receivedAt }) (db invoiceDrafts) := by
        simp only [createdDrafts, hdraft]
        refine List.map_congr_left fun d hd => ?_
        by_cases hid : d.id = row.id
        · obtain rfl := (h.fitting.consistent invoiceDrafts).eq_of_key hd hrow hid
          cases howns with
          | byId hbound => simp [← hsame, hbound]
          | byTag _ hfree => simp [← hsame, hfree]
        · simp [hid]
      refine h.assigned hfitting (fun o' ho' => ?_) hrow (hdrafts.trans hassigned) rfl
        (fun tag _ => ⟨hcalm.inFlight tag, hmiss tag⟩) ((h.budget row hrow).done rfl rfl (.inl rfl))
        fun invoice hinvoice => ?_
      · rw [howned] at ho'
        rcases mem_assignWhere.mp ho' with ⟨o₀, ho₀, -, rfl⟩ | ⟨ho₀, -⟩
        · exact h.drafted o₀ ho₀
        · exact h.drafted o' ho₀
      · obtain rfl : event.invoiceId = invoice := Option.some.inj hinvoice
        cases howns with
        | byId hbound => exact h.bound row hrow event.invoiceId (hsame ▸ hbound)
        | byTag hmem _ =>
            rw [← htag] at hmem
            exact htagged event hevent row.tag hmem (h.fitting.paired.tags row hrow)

/-! ### Every call -/

/-- What is called when no other call disturbs: the calls of ticks and passes, the creation
of a trial and the recording of an event. -/
inductive Called (gen : Generators) (tagOf : InvoiceId → String) (cfg : TrialSettings)
    (l : CallLog) (db : Database Row) : Call → Prop
  | told {call : Call} : Told Calm gen cfg l db call → Called gen tagOf cfg l db call
  | create {runId : TrialRunId} {command : NewTrial} : Calm l → command.schedule.length = 8 →
      Called gen tagOf cfg l db (.store (.trials (.create gen.uuid5 runId command)))
  | record {jobId : TransferJobId} {r : EventRecord} : Calm l → TrulyTagged tagOf r.event →
      Called gen tagOf cfg l db (.store (.events (.record jobId r)))
  | ignored {r : EventRecord} : Calm l →
      Called gen tagOf cfg l db (.store (.events (.recordIgnoredWorkspace r)))


theorem Called.permitted (hc : metadata.Consistent db) {call : Call}
    (h : Called gen tagOf cfg l db call) : Permitted gen db call := by
  cases h with
  | told htold => exact told_permitted hc htold
  | create _ hlength => exact hlength
  | record => trivial
  | ignored => trivial

theorem reporting_any {w w' : World} {call : Call} {r : call.Answer}
    (hp : Performs (reporting tagOf) (fun _ => True) w call r w') :
    Performs anyProvider (fun _ => True) w call r w' := by
  cases call with
  | now => exact hp
  | store op => exact hp
  | invoiceCreate request => exact hp.imp fun _ h => ⟨trivial, h.2⟩
  | invoiceQuery limit tags => exact ⟨trivial, hp.2⟩
  | transferCreate request => exact hp.imp fun _ h => ⟨trivial, h.2⟩
  | transferQuery limit tags => exact ⟨trivial, hp.2⟩

/-- A transaction that writes neither drafts nor owned rows. -/
theorem Inv.store_quiet (h : Inv gen tagOf cfg l db) (hcalm : Calm l) {op : StoreOp}
    {r : Except StoreError op.Result} (hfitting : Fitting gen (op.apply db).2)
    (hmiss : ∀ draft time limits, op ≠ .invoices (.reconcile ⟨draft, none, time⟩ limits))
    (hdrafts : invoiceDrafts ∉ op.tables) (howned : ownedInvoices ∉ op.tables) :
    Inv gen tagOf cfg (⟨(), .store op, r⟩ :: l) (op.apply db).2 :=
  h.unwritten hcalm (by simp) (fun tag => missWritten_of_ne (by simpa using hmiss))
    (honest_of_ne (by simp) (by simp)) hfitting (StoreOp.apply_frame op hdrafts db)
    (StoreOp.apply_frame op howned db)

/-- Every call keeps the invariant. -/
theorem Inv.performs (hmax : 0 < cfg.invoiceMaxAttempts) {w w' : World}
    (h : Inv gen tagOf cfg l w.db) {call : Call} {r : call.Answer}
    (hcalled : Called gen tagOf cfg l w.db call)
    (hp : Performs (reporting tagOf) (fun _ => True) w call r w') :
    Inv gen tagOf cfg (⟨(), call, r⟩ :: l) w'.db := by
  have hfitting := (performs_fitting h.fitting (hcalled.permitted h.fitting.consistent)
    (reporting_any hp)).1
  have hhonest := honest_of_performs (l := l) hp
  cases hcalled with
  | create hcalm =>
      obtain ⟨-, rfl⟩ := hp
      exact h.store_quiet hcalm hfitting (by simp) (by simp [StoreOp.tables, TrialStoreOp.tables])
        (by simp [StoreOp.tables, TrialStoreOp.tables])
  | record hcalm htagged =>
      obtain ⟨-, rfl⟩ := hp
      exact h.recorded hcalm htagged hfitting
  | ignored hcalm =>
      obtain ⟨-, rfl⟩ := hp
      exact h.store_quiet hcalm hfitting (by simp) (by simp [StoreOp.tables, EventStoreOp.tables])
        (by simp [StoreOp.tables, EventStoreOp.tables])
  | told htold =>
      cases htold with
      | now hcalm =>
          obtain ⟨-, rfl⟩ := hp
          exact h.unwritten hcalm (by simp) (fun tag => missWritten_of_ne (by simp)) hhonest
            hfitting rfl rfl
      | claim hcalm =>
          obtain ⟨-, rfl⟩ := hp
          exact h.store_quiet hcalm hfitting (by simp)
            (by simp [StoreOp.tables, TrialStoreOp.tables])
            (by simp [StoreOp.tables, TrialStoreOp.tables])
      | save hcalm =>
          obtain ⟨-, rfl⟩ := hp
          exact h.save hcalm hmax hfitting
      | pending hcalm =>
          obtain ⟨-, rfl⟩ := hp
          exact h.store_quiet hcalm hfitting (by simp)
            (by simp [StoreOp.tables, InvoiceStoreOp.tables])
            (by simp [StoreOp.tables, InvoiceStoreOp.tables])
      | unknown hcalm =>
          obtain ⟨-, rfl⟩ := hp
          exact h.store_quiet hcalm hfitting (by simp)
            (by simp [StoreOp.tables, InvoiceStoreOp.tables])
            (by simp [StoreOp.tables, InvoiceStoreOp.tables])
      | lookup hcalm =>
          obtain ⟨-, rfl⟩ := hp
          exact h.unwritten hcalm (by simp) (fun tag => missWritten_of_ne (by simp)) hhonest
            hfitting rfl rfl
      | create hcalm hlisted hready =>
          obtain ⟨held, -, rfl⟩ := hp
          exact h.tried hcalm hlisted hready hhonest
      | created hlisted hreported =>
          obtain ⟨-, rfl⟩ := hp
          exact h.created hfitting hlisted hreported
      | refused hlisted hrefused =>
          obtain ⟨-, rfl⟩ := hp
          exact h.refused hfitting hlisted hrefused
      | reconcile hcalm hlisted hlooked =>
          obtain ⟨-, rfl⟩ := hp
          exact h.reconcile hcalm rfl rfl hfitting hlisted hlooked
      | settle hcalm =>
          obtain ⟨-, rfl⟩ := hp
          exact h.store_quiet hcalm hfitting (by simp)
            (by simp [StoreOp.tables, InvoiceStoreOp.tables])
            (by simp [StoreOp.tables, InvoiceStoreOp.tables])


end

end StarkbankTrial.InvoiceAttempts
