import StarkbankTrial.OwnedInvoices
import StarkbankTrial.ScriptedRuns

/-!
# One invoice for a draft

Ticks and reconcile passes run one at a time, and any of them may be killed between two of
its calls. A draft is looked up at the provider before it is created again, but only when
it was attempted before, and an attempt is written after the creation. A tick that is
killed between its first creation for a draft and that write makes a second invoice
possible. As long as none is killed there, the provider holds at most one invoice for the
tag of a draft.
-/
namespace StarkbankTrial.InvoiceOnce
open Domain InteractivePrograms InterleavedRuns RelationalTables DatabaseSchema
open DatabaseSchema.Table
open EventRecording InvoiceRecording StoreOperations InvoiceChanges ExternalCalls ProviderClient
open Services WorkerRules TrialRules ScriptedRuns InvoiceFacts OwnedInvoices

def IsDraftTag (tag : String) : Prop := ∃ id, tag = "trial-draft:" ++ id

/-- The held invoices with a tag. -/
def carrying (tag : String) (held : List HeldInvoice) : List HeldInvoice :=
  held.filter fun x => x.request.tags.contains tag

theorem carrying_nil {tag : String} {held : List HeldInvoice} :
    carrying tag held = [] ↔ ∀ x ∈ held, tag ∉ x.request.tags := by
  simp [carrying]

theorem carrying_append {tag : String} {held : List HeldInvoice} {x : HeldInvoice}
    (h : tag ∉ x.request.tags) : carrying tag (held ++ [x]) = carrying tag held := by
  simp [carrying, h]

/-- What is so in every state. -/
structure Inv (w : World) : Prop where
  owned : Owned w.invoices w.db
  unique : UniqueIds w.invoices
  tags : ∀ d ∈ w.db invoiceDrafts, IsDraftTag d.tag
  owner : ∀ d ∈ w.db invoiceDrafts, ∃ o ∈ w.db ownedInvoices, o.draftId = some d.id
  bound : ∀ d ∈ w.db invoiceDrafts, ∀ id, d.providerInvoiceId = some id →
    Carries w.invoices id d.tag
  alone : ∀ x ∈ w.invoices, ∀ tag ∈ x.request.tags, IsDraftTag tag →
    x.request.tags = [tag] ∧ ∃ d ∈ w.db invoiceDrafts, d.tag = tag
  once : ∀ d ∈ w.db invoiceDrafts, (carrying d.tag w.invoices).length ≤ 1

/-- While drafts are issued: no draft without an attempt has an invoice, except the one
whose result is not written yet, and those that remain are rows, with their attempts. -/
structure Standing (unwritten : Option DraftId) (ds : List InvoiceDraft) (w : World) : Prop where
  calm : ∀ d ∈ w.db invoiceDrafts, d.attempts = 0 → some d.id ≠ unwritten →
    carrying d.tag w.invoices = []
  known : ∀ d ∈ ds, ∃ row ∈ w.db invoiceDrafts, row.id = d.id ∧ row.tag = d.tag ∧
    row.attempts = d.attempts
  distinct : (ds.map InvoiceDraft.id).Nodup

/-- No draft without an attempt has an invoice. -/
abbrev Calm : World → Prop := Standing none []

/-! ### The rows after a transaction -/

/-- The transaction saves the draft. -/
def Saves (op : StoreOp) (draft : InvoiceDraft) : Prop :=
  ∃ batchId ds, op = .invoices (.save batchId ds) ∧ draft ∈ ds

/-- What a transaction of the trial service makes of the drafts. -/
structure DraftsMove (op : StoreOp) (held : List HeldInvoice) (db db' : Database Row) :
    Prop where
  kept : ∀ d ∈ db invoiceDrafts, ∃ d' ∈ db' invoiceDrafts, SameDraft d d'
  moved : ∀ d' ∈ db' invoiceDrafts,
    (∃ d ∈ db invoiceDrafts, SameDraft d d' ∧ d.attempts ≤ d'.attempts ∧
      ∀ id, d'.providerInvoiceId = some id →
        d.providerInvoiceId = some id ∨ Carries held id d.tag) ∨
    (∃ draft, Saves op draft ∧ d' = draftRow draft) ∧ (∀ d ∈ db invoiceDrafts, d.tag ≠ d'.tag) ∧
      ∃ o ∈ db' ownedInvoices, o.draftId = some d'.id

theorem moved_assign {held : List HeldInvoice} {drafts : List InvoiceDraftRow}
    {condition : InvoiceDraftRow → Bool} {assign : InvoiceDraftRow → InvoiceDraftRow}
    {d' : InvoiceDraftRow} (hd' : d' ∈ assignWhere condition assign drafts)
    (hsame : ∀ d ∈ drafts, condition d = true → SameDraft d (assign d) ∧
      d.attempts ≤ (assign d).attempts ∧ ∀ id, (assign d).providerInvoiceId = some id →
        d.providerInvoiceId = some id ∨ Carries held id d.tag) :
    ∃ d ∈ drafts, SameDraft d d' ∧ d.attempts ≤ d'.attempts ∧
      ∀ id, d'.providerInvoiceId = some id →
        d.providerInvoiceId = some id ∨ Carries held id d.tag := by
  rcases mem_assignWhere.mp hd' with ⟨d, hd, hc, rfl⟩ | ⟨hd, -⟩
  · exact ⟨d, hd, hsame d hd hc⟩
  · exact ⟨d', hd, .refl d', Nat.le_refl _, fun id hid => .inl hid⟩

theorem invoices_move {smoke : Bool} {held : List HeldInvoice} {db : Database Row}
    (hc : metadata.Consistent db) {op : InvoiceStoreOp}
    (htrue : Truthful smoke held db (.invoices op)) :
    DraftsMove (.invoices op) held db ((StoreOp.invoices op).apply db).2 := by
  refine ⟨(invoices_rowsKept op db).drafts, ?_⟩
  have hchanged := invoices_changes op db
  have hvalid := StoreOp.apply_consistent hc (.invoices op) invoiceDrafts
  unfold InvoicesChangedIn at hchanged
  generalize ((StoreOp.invoices op).apply db).2 = db' at hchanged hvalid ⊢
  generalize db' invoiceDrafts = drafts' at hchanged hvalid ⊢
  generalize db' ownedInvoices = owned' at hchanged ⊢
  have hsame : ∀ d ∈ db invoiceDrafts, ∃ d₀ ∈ db invoiceDrafts, SameDraft d₀ d ∧
      d₀.attempts ≤ d.attempts ∧ ∀ id, d.providerInvoiceId = some id →
        d₀.providerInvoiceId = some id ∨ Carries held id d₀.tag :=
    fun d hd => ⟨d, hd, .refl d, Nat.le_refl _, fun id hid => .inl hid⟩
  intro d' hd'
  cases hchanged with
  | @saved batchId ds hop =>
      rcases List.mem_append.mp hd' with hd | hd
      · exact .inl (hsame d' hd)
      · obtain ⟨draft, hdraft, rfl⟩ := List.mem_map.mp hd
        subst hop
        refine .inr ⟨⟨draft, ⟨batchId, ds, rfl, (List.mem_filter.mp hdraft).1⟩, rfl⟩,
          fun d₀ hd₀ htag => ?_, trialOwner (draftRow draft), List.mem_append.mpr (.inr ?_), rfl⟩
        · have hclash := (List.pairwise_append.mp hvalid.2).2.2 d₀ hd₀ _ hd
          simp [metadata, uniqueConflict, htag] at hclash
        · exact List.mem_map.mpr ⟨_, hd, rfl⟩
  | @transitioned t hop =>
      refine .inl (moved_assign hd' fun d hd hid => ⟨⟨rfl, rfl, rfl⟩, Nat.le_succ _, ?_⟩)
      intro id hinvoice
      obtain ⟨d₀, hd₀, hid₀, hcarries⟩ := htrue.transition hop hinvoice
      obtain rfl := (hc invoiceDrafts).eq_of_key hd₀ hd (hid₀.trans (beq_iff_eq.mp hid).symm)
      exact .inr hcarries
  | @retried result delay maxAttempts draft hop hdraft hid =>
      refine .inl (moved_assign hd' fun d hd hcond => ⟨⟨rfl, rfl, rfl⟩, ?_, by simp [retryDraft]⟩)
      obtain rfl := (hc invoiceDrafts).eq_of_key hd hdraft ((beq_iff_eq.mp hcond).trans hid.symm)
      exact Nat.le_succ _
  | missed =>
      exact .inl (moved_assign hd' fun d hd _ =>
        ⟨⟨rfl, rfl, rfl⟩, Nat.le_refl _, fun id hid => .inl hid⟩)
  | _ => exact .inl (hsame d' hd')

theorem store_move {smoke : Bool} {held : List HeldInvoice} {db : Database Row}
    (hc : metadata.Consistent db) {op : StoreOp} (htrue : Truthful smoke held db op)
    (hevents : ∀ eventOp, op ≠ .events eventOp) : DraftsMove op held db (op.apply db).2 := by
  rcases apply_cases op with ⟨iop, rfl⟩ | ⟨jobId, r, rfl⟩ | hsame
  · exact invoices_move hc htrue
  · exact absurd rfl (hevents _)
  · have hdrafts := (hsame db).drafts
    exact ⟨fun d hd => ⟨d, hdrafts ▸ hd, .refl d⟩, fun d hd => .inl
      ⟨d, hdrafts ▸ hd, .refl d, Nat.le_refl _, fun id hid => .inl hid⟩⟩

/-! ### What a call keeps -/

/-- The transactions and creations of the trial service. -/
def Proper (w : World) : Call → Prop
  | .store op => Truthful false w.invoices w.db op ∧ (∀ eventOp, op ≠ .events eventOp) ∧
      ∀ draft, Saves op draft → IsDraftTag draft.tag
  | .invoiceCreate request => ∃ d ∈ w.db invoiceDrafts, request.tags = [d.tag] ∧
      carrying d.tag w.invoices = []
  | _ => True

section
variable {w : World}

/-- Invoices with a draft tag belong to the draft. -/
theorem Inv.not_carried (h : Inv w) {tag : String} (htag : IsDraftTag tag)
    (hnew : ∀ d ∈ w.db invoiceDrafts, d.tag ≠ tag) : carrying tag w.invoices = [] := by
  refine carrying_nil.mpr fun x hx hin => ?_
  obtain ⟨-, d, hd, hsame⟩ := h.alone x hx tag hin htag
  exact hnew d hd hsame

theorem Inv.store (h : Inv w) {op : StoreOp} (hproper : Proper w (.store op)) :
    Inv { w with db := (op.apply w.db).2 } := by
  obtain ⟨htrue, hevents, hsave⟩ := hproper
  have hmove := store_move h.owned.consistent htrue hevents
  refine ⟨h.owned.apply htrue, h.unique, fun d' hd' => ?_, fun d' hd' => ?_,
    fun d' hd' id hid => ?_, fun x hx tag hin htag => ?_, fun d' hd' => ?_⟩
  · rcases hmove.moved d' hd' with ⟨d, hd, hsame, -⟩ | ⟨⟨draft, hdraft, rfl⟩, -⟩
    · exact hsame.tag ▸ h.tags d hd
    · exact hsave draft hdraft
  · rcases hmove.moved d' hd' with ⟨d, hd, hsame, -⟩ | ⟨_, _, howner⟩
    · obtain ⟨o, ho, hdraft⟩ := h.owner d hd
      obtain ⟨o', ho', hsame'⟩ := (apply_rowsKept h.owned.consistent op).owners o ho
      exact ⟨o', ho', by rw [hsame'.draftId, hdraft, hsame.id]⟩
    · exact howner
  · rcases hmove.moved d' hd' with ⟨d, hd, hsame, -, hinvoice⟩ | ⟨⟨draft, -, rfl⟩, -⟩
    · rw [hsame.tag]
      rcases hinvoice id hid with hid | hcarries
      · exact h.bound d hd id hid
      · exact hcarries
    · simp [draftRow] at hid
  · obtain ⟨htags, d, hd, hsame⟩ := h.alone x hx tag hin htag
    obtain ⟨d', hd', hkept⟩ := hmove.kept d hd
    exact ⟨htags, d', hd', hkept.tag.trans hsame⟩
  · change (carrying d'.tag w.invoices).length ≤ 1
    rcases hmove.moved d' hd' with ⟨d, hd, hsame, -⟩ | ⟨⟨draft, hdraft, rfl⟩, hnew, -⟩
    · exact hsame.tag ▸ h.once d hd
    · have hnone : carrying (draftRow draft).tag w.invoices = [] :=
        h.not_carried (hsave draft hdraft) hnew
      rw [hnone]
      exact Nat.zero_le 1

/-- Attempts only grow, and new drafts have new tags. -/
theorem Inv.calm_store (h : Inv w) {op : StoreOp} (hproper : Proper w (.store op))
    (hcalm : Calm w) : Calm { w with db := (op.apply w.db).2 } := by
  obtain ⟨htrue, hevents, hsave⟩ := hproper
  refine ⟨fun d' hd' hattempts _ => ?_, by simp, by simp⟩
  change carrying d'.tag w.invoices = []
  rcases (store_move h.owned.consistent htrue hevents).moved d' hd' with
    ⟨d, hd, hsame, hle, -⟩ | ⟨⟨draft, hdraft, rfl⟩, hnew, -⟩
  · rw [hsame.tag]
    exact hcalm.calm d hd (by omega) (by simp)
  · exact h.not_carried (hsave draft hdraft) hnew

/-- A creation for a draft that has no invoice. -/
theorem Inv.create (h : Inv w) {request : InvoiceRequest} {held : List HeldInvoice}
    {answer : SdkAnswer SdkInvoice} {lost : SdkAnswer SdkInvoice → Prop}
    (hproper : Proper w (.invoiceCreate request))
    (hcreate : InvoiceCreated (fun id => ∀ x ∈ w.invoices, x.id ≠ id) lost w.invoices request
      answer held) : Inv { w with invoices := held } := by
  obtain ⟨d, hd, htags, habsent⟩ := hproper
  rcases hcreate.added with rfl | ⟨id, hfresh, rfl⟩
  · exact h
  · have hsub : ∀ x ∈ w.invoices, x ∈ w.invoices ++ [⟨id, request⟩] :=
      fun x hx => List.mem_append.mpr (.inl hx)
    refine ⟨h.owned.mono hsub, h.unique.append hfresh, h.tags, h.owner,
      fun d hd id hid => (h.bound d hd id hid).mono hsub, fun x hx tag hin htag => ?_,
      fun d' hd' => ?_⟩
    · rcases List.mem_append.mp hx with hx | hx
      · exact h.alone x hx tag hin htag
      · obtain rfl := List.mem_singleton.mp hx
        obtain rfl : tag = d.tag := by simpa [htags] using hin
        exact ⟨htags, d, hd, rfl⟩
    · by_cases hsame : d'.tag = d.tag
      · change (carrying d'.tag (w.invoices ++ [⟨id, request⟩])).length ≤ 1
        rw [hsame]
        unfold carrying at habsent ⊢
        rw [List.filter_append, habsent, List.nil_append]
        exact List.length_filter_le _ [_]
      · change (carrying d'.tag (w.invoices ++ [⟨id, request⟩])).length ≤ 1
        rw [carrying_append (by simp [htags, hsame])]
        exact h.once d' hd'

/-! ### One draft after the other -/

theorem Standing.reordered {unwritten : Option DraftId} {ds : List InvoiceDraft} {w' : World}
    (h : Standing unwritten ds w) (hdb : Reordered w.db w'.db)
    (hheld : w'.invoices = w.invoices) : Standing unwritten ds w' where
  calm d hd := hheld ▸ h.calm d (hdb.mem.mp hd)
  known d hd := by
    obtain ⟨row, hrow, hrest⟩ := h.known d hd
    exact ⟨row, hdb.mem.mpr hrow, hrest⟩
  distinct := h.distinct

/-- Only the next draft may be without its result. -/
theorem Standing.next {d : InvoiceDraft} {ds : List InvoiceDraft} (h : Standing none (d :: ds) w) :
    Standing (some d.id) (d :: ds) w :=
  ⟨fun row hrow hattempts _ => h.calm row hrow hattempts (by simp), h.known, h.distinct⟩

theorem Standing.calm_all {ds : List InvoiceDraft} (h : Standing none ds w) : Calm w :=
  ⟨h.calm, by simp, by simp⟩

/-- A draft without an attempt has no invoice. -/
theorem Standing.fresh {d : InvoiceDraft} {ds : List InvoiceDraft}
    (h : Standing none (d :: ds) w) (hattempts : d.attempts = 0) :
    carrying d.tag w.invoices = [] := by
  obtain ⟨row, hrow, -, htag, heq⟩ := h.known d List.mem_cons_self
  exact htag ▸ h.calm row hrow (heq.trans hattempts) (by simp)

/-- The result of the next draft is written, and it counts as an attempt. -/
theorem Standing.written {d : InvoiceDraft} {ds : List InvoiceDraft} {w' : World}
    {assign : InvoiceDraftRow → InvoiceDraftRow} (h : Standing (some d.id) (d :: ds) w)
    (hdrafts : w'.db invoiceDrafts = assignWhere (fun r : InvoiceDraftRow => r.id == d.id) assign
      (w.db invoiceDrafts))
    (hheld : w'.invoices = w.invoices) (hattempts : ∀ r, 0 < (assign r).attempts) :
    Standing none ds w' where
  calm row hrow hzero _ := by
    rw [hdrafts] at hrow
    rw [hheld]
    rcases mem_assignWhere.mp hrow with ⟨r, -, -, rfl⟩ | ⟨hrow, hne⟩
    · exact absurd hzero (Nat.ne_of_gt (hattempts r))
    · exact h.calm row hrow hzero (by simpa using hne)
  known d' hd' := by
    obtain ⟨row, hrow, hid, hrest⟩ := h.known d' (List.mem_cons_of_mem _ hd')
    have hne : d'.id ≠ d.id := by
      intro heq
      have hdistinct := (List.nodup_cons.mp h.distinct).1
      exact hdistinct (List.mem_map.mpr ⟨d', hd', heq⟩)
    refine ⟨row, ?_, hid, hrest⟩
    rw [hdrafts]
    exact mem_assignWhere.mpr (.inr ⟨hrow, by simpa [hid] using hne⟩)
  distinct := (List.nodup_cons.mp h.distinct).2

/-- A creation for the next draft. -/
theorem Standing.created {d : InvoiceDraft} {ds : List InvoiceDraft}
    {held : List HeldInvoice} {request : InvoiceRequest} {answer : SdkAnswer SdkInvoice}
    {fresh : InvoiceId → Prop} {lost : SdkAnswer SdkInvoice → Prop}
    (h : Standing none (d :: ds) w) (hc : metadata.Consistent w.db)
    (htags : request.tags = [d.tag])
    (hcreate : InvoiceCreated fresh lost w.invoices request answer held) :
    Standing (some d.id) (d :: ds) { w with invoices := held } := by
  rcases hcreate.added with rfl | ⟨id, -, rfl⟩
  · exact h.next
  · refine ⟨fun row hrow hzero hne => ?_, h.known, h.distinct⟩
    obtain ⟨row₀, hrow₀, hid, htag, -⟩ := h.known d List.mem_cons_self
    have hother : row.tag ≠ d.tag := by
      intro heq
      have hsame : row = row₀ := (hc invoiceDrafts).eq_of_clash hrow hrow₀
        (by simp [metadata, uniqueConflict, heq, htag])
      exact hne (by rw [hsame, hid])
    change carrying row.tag (w.invoices ++ [⟨id, request⟩]) = []
    rw [carrying_append (by simp [htags, hother])]
    exact h.calm row hrow hzero (by simp)

/-- Nobody else has the invoice of a draft, so that the write of it succeeds. -/
theorem Inv.created_ok (h : Inv w) {d : InvoiceDraft} {ds : List InvoiceDraft} {id : InvoiceId}
    (time : ℤ) (hs : Standing (some d.id) (d :: ds) w) (hcarries : Carries w.invoices id d.tag) :
    ∃ db', (StoreOp.invoices (.created ⟨d.id, id, time⟩)).apply w.db = (.ok (), db') ∧
      db' invoiceDrafts = assignWhere (fun r : InvoiceDraftRow => r.id == d.id)
        (DraftTransition.created ⟨d.id, id, time⟩).apply (w.db invoiceDrafts) := by
  obtain ⟨row, hrow, hid, htag, -⟩ := hs.known d List.mem_cons_self
  have hdraftTag : IsDraftTag d.tag := htag ▸ h.tags row hrow
  -- the invoice carries no other tag
  have honly : ∀ tag, Carries w.invoices id tag → tag = d.tag := by
    rintro tag ⟨x, hx, hxid, hin⟩
    obtain ⟨y, hy, hyid, hin'⟩ := hcarries
    obtain rfl := h.unique x hx y hy (hxid.trans hyid.symm)
    simpa [(h.alone x hx d.tag hin' hdraftTag).1] using hin
  have hfree : ∀ {current : Option InvoiceId}, current ≠ some id →
      sameNonNull (some id) current = false := by
    intro current hne
    rw [Bool.eq_false_iff]
    intro hsame
    obtain ⟨x, hx, hcurrent⟩ := sameNonNull_iff.mp hsame
    exact hne (hx ▸ hcurrent)
  change ∃ db', atomically metadata (transition (.created ⟨d.id, id, time⟩)) w.db = _ ∧ _
  refine transition_ok h.owned.consistent (fun r hr hne => ?_) fun o ho hne => ?_
  · refine hfree fun hbound => hne ?_
    have hsame : r = row := (h.owned.consistent invoiceDrafts).eq_of_clash hr hrow
      (by simp [metadata, uniqueConflict, honly r.tag (h.bound r hr id hbound), htag])
    exact hsame ▸ hid
  · refine hfree fun hbound => hne ?_
    obtain ⟨o₀, ho₀, hdraft⟩ := h.owner row hrow
    obtain ⟨r, hr, hrid, hrtag⟩ := h.owned.drafts o₀ ho₀ row.id hdraft
    obtain rfl := (h.owned.consistent invoiceDrafts).eq_of_key hr hrow hrid
    have hsame : o = o₀ := (h.owned.consistent ownedInvoices).eq_of_key ho ho₀
      ((honly o.tag (h.owned.bound o ho id hbound)).trans (htag.symm.trans hrtag))
    rw [hsame, hdraft, hid]
    rfl

end

/-! ### The system -/

/-- The client reports a lost answer as a timeout. -/
def TimesOut (answer : SdkAnswer SdkInvoice) : Prop :=
  ∀ e, answer.head? = some (.error e) → (raiseProvider e "create_invoice" true).kind.isTimeout

def provider : Provider where
  invoiceCreate w request answer held :=
    InvoiceCreated (fun id => ∀ x ∈ w.invoices, x.id ≠ id) TimesOut w.invoices request answer held
  invoiceQuery w limit tags answer := InvoiceListed w.invoices tags answer ∧
    (answer = [] → 0 < limit → ∀ x ∈ w.invoices, ¬ ∀ tag ∈ tags, tag ∈ x.request.tags)
  transferCreate _ _ _ _ := True
  transferQuery _ _ _ _ := True

inductive Admitted : Service Unit → Prop
  | tick (gen : Generators) (cfg : TrialSettings) : Admitted (tick gen cfg).discard
  | pass (cfg : TrialSettings) (setOrder : List BatchId → List BatchId) :
      Admitted (reconcileInvoices cfg setOrder).discard

/-- One process, which may be killed where `killable` says. -/
def system (killable : World → Prop) : System Unit Call Call.Answer Failure Unit World where
  admits _ _ _ p := Admitted p
  exec _ w _ call r w' := Performs provider (fun _ => True) w call r w'
  drift _ w w' := Reordered w.db w'.db ∧ w'.invoices = w.invoices
  dies _ w _ w' := killable w ∧ w' = w

def protocol : Protocol Unit Call Call.Answer Failure Unit World where
  toSystem := system Calm
  inv _ w := Inv w
  rely _ _ w _ w' := Reordered w.db w'.db ∧ w'.invoices = w.invoices
  demand _ _ _ _ := True

theorem Inv.reordered {w w' : World} (h : Inv w) (hdb : Reordered w.db w'.db)
    (hheld : w'.invoices = w.invoices) : Inv w' where
  owned := hheld ▸ h.owned.reordered hdb
  unique := hheld ▸ h.unique
  tags d hd := h.tags d (hdb.mem.mp hd)
  owner d hd := by
    obtain ⟨o, ho, hdraft⟩ := h.owner d (hdb.mem.mp hd)
    exact ⟨o, hdb.mem.mpr ho, hdraft⟩
  bound d hd := hheld ▸ h.bound d (hdb.mem.mp hd)
  alone x hx tag hin htag := by
    obtain ⟨htags, d, hd, hsame⟩ := h.alone x (hheld ▸ hx) tag hin htag
    exact ⟨htags, d, hdb.mem.mpr hd, hsame⟩
  once d hd := hheld ▸ h.once d (hdb.mem.mp hd)

theorem sound : protocol.Sound where
  rely_refl _ _ _ := ⟨fun _ => .refl _, rfl⟩
  rely_trans _ _ _ _ _ _ _ h h' := ⟨fun t => (h.1 t).trans (h'.1 t), h'.2.trans h.2⟩
  drift_keeps _ _ _ h hdrift := ⟨h.reordered hdrift.1 hdrift.2, fun _ => hdrift⟩
  dies_keeps := by
    rintro l w i w' h ⟨-, rfl⟩
    exact ⟨h, fun _ _ => ⟨fun _ => .refl _, rfl⟩⟩

/-! ### The calls -/

section
variable {pre : World → Prop}

/-- A fact that the order of rows does not matter for. -/
def Unordered (pre : World → Prop) : Prop :=
  ∀ w w', pre w → Reordered w.db w'.db → w'.invoices = w.invoices → pre w'

theorem Unordered.stable (h : Unordered pre) (i : Unit) : protocol.Stable i fun _ => pre :=
  fun _ _ _ _ hpre hr _ => h _ _ hpre hr.1 hr.2

theorem standing_unordered (unwritten : Option DraftId) (ds : List InvoiceDraft) :
    Unordered (Standing unwritten ds) := fun _ _ h => h.reordered

theorem Unordered.and (h : Unordered pre) (fact : Lasting) :
    Unordered fun w => pre w ∧ fact.holds w := by
  rintro w w' ⟨hpre, hfact⟩ hdb hheld
  refine ⟨h w w' hpre hdb hheld, fact.lasts w w' ⟨fun d hd => ⟨d, hdb.mem.mpr hd, .refl d⟩, ?_⟩ hfact⟩
  exact fun x hx => hheld ▸ hx

theorem calm_unordered (fact : Lasting) : Unordered fun w => Calm w ∧ fact.holds w :=
  (standing_unordered none []).and fact

/-- One call, with what it establishes. -/
theorem triple (hpre : Unordered pre) {call : Call} {result : call.Answer → World → Prop}
    (hcall : ∀ w r w', pre w → Inv w → Performs provider (fun _ => True) w call r w' →
      Inv w' ∧ result r w') (i : Unit) :
    protocol.Triple i (fun _ => pre) call fun r _ => result r where
  stable := hpre.stable i
  demand _ _ _ _ := trivial
  keeps _ w r w' h hi he := ⟨(hcall w r w' h hi he).1, fun _ hj => absurd rfl hj⟩
  result _ w r w' h hi he := (hcall w r w' h hi he).2

/-- A transaction, with what it establishes. -/
theorem triple_store (hpre : Unordered pre) (op : StoreOp)
    {result : Except StoreError op.Result → World → Prop}
    (hproper : ∀ w, pre w → Proper w (.store op))
    (hresult : ∀ w r db', pre w → Inv w → op.apply w.db = (r, db') →
      result r { w with db := db' }) (i : Unit) :
    protocol.Triple i (fun _ => pre) (.store op) fun r _ => result r := by
  refine triple hpre (fun w r w' h hi he => ?_) i
  obtain ⟨rfl, rfl⟩ := he
  exact ⟨hi.store (hproper w h), hresult w _ _ h hi rfl⟩

/-- A transaction that leaves no invoice without its result. -/
theorem triple_calm (op : StoreOp) (hproper : ∀ w, Calm w → Proper w (.store op)) (i : Unit) :
    protocol.Triple i (fun _ => Calm) (.store op) fun _ _ => Calm := by
  refine triple_store (standing_unordered none []) op hproper (fun w r db' h hi he => ?_) i
  obtain rfl : (op.apply w.db).2 = db' := by rw [he]
  exact hi.calm_store (hproper w h) h

/-- The same, with a fact that lasts. -/
theorem triple_known (fact : Lasting) (op : StoreOp)
    (hproper : ∀ w, fact.holds w → Proper w (.store op)) (i : Unit) :
    protocol.Triple i (fun _ w => Calm w ∧ fact.holds w) (.store op)
      fun _ _ w => Calm w ∧ fact.holds w := by
  refine triple_store (calm_unordered fact) op (fun w h => hproper w h.2)
    (fun w r db' h hi he => ?_) i
  obtain rfl : (op.apply w.db).2 = db' := by rw [he]
  refine ⟨hi.calm_store (hproper w h.2) h.1, fact.lasts w _ ⟨?_, fun _ hx => hx⟩ h.2⟩
  exact (apply_rowsKept hi.owned.consistent op).drafts

/-- A lookup that finds nothing means that there is nothing. -/
theorem triple_lookup (hpre : Unordered pre) (tag : String) (i : Unit) :
    protocol.Triple i (fun _ => pre) (.invoiceQuery 1 [tag]) fun answer _ w =>
      pre w ∧ (answer = [] → carrying tag w.invoices = []) ∧
        ∀ x, answer.head? = some (.ok x) → Carries w.invoices x.id tag := by
  refine triple hpre (fun w answer w' h hi he => ?_) i
  obtain ⟨⟨hlisted, hall⟩, rfl⟩ := he
  refine ⟨hi, h, fun hnone => carrying_nil.mpr fun x hx hin => ?_, fun x hx => hlisted.found hx⟩
  exact hall hnone Nat.one_pos x hx (by simpa using hin)

end

/-- Transactions that write no invoice and save no draft. -/
theorem proper_of_plain {w : World} {op : StoreOp} (htrue : Truthful false w.invoices w.db op)
    (hevents : ∀ eventOp, op ≠ .events eventOp) (hsaves : ∀ batchId ds,
      op ≠ .invoices (.save batchId ds)) : Proper w (.store op) :=
  ⟨htrue, hevents, fun _ ⟨batchId, ds, hop, _⟩ => absurd hop (hsaves batchId ds)⟩

/-! ### The services -/

def issueFacts : IssueFacts Unit World where
  remaining ds _ := Standing none ds
  absent d ds _ w := Standing none (d :: ds) w ∧ carrying d.tag w.invoices = []
  found d ds id _ w := Standing (some d.id) (d :: ds) w ∧ Carries w.invoices id d.tag
  undecided d ds _ := Standing (some d.id) (d :: ds)

theorem absent_unordered (d : InvoiceDraft) (ds : List InvoiceDraft) :
    Unordered fun w => Standing none (d :: ds) w ∧ carrying d.tag w.invoices = [] :=
  fun _ _ h hdb hheld => ⟨h.1.reordered hdb hheld, hheld ▸ h.2⟩

/-- Creating the next draft, which has no invoice. -/
theorem create_triple (d : InvoiceDraft) (ds : List InvoiceDraft) (i : Unit) :
    protocol.Triple i (issueFacts.absent d ds) (.invoiceCreate (invoiceRequest d))
      fun answer _ w => Standing (some d.id) (d :: ds) w ∧
        ∀ x, answer.head? = some (.ok x) → Carries w.invoices x.id d.tag := by
  refine triple (absent_unordered d ds) (fun w answer w' h hi he => ?_) i
  obtain ⟨hs, habsent⟩ := h
  obtain ⟨held, hcreate, rfl⟩ := he
  obtain ⟨row, hrow, -, htag, -⟩ := hs.known d List.mem_cons_self
  have hproper : Proper w (.invoiceCreate (invoiceRequest d)) :=
    ⟨row, hrow, by rw [htag]; rfl, by rw [htag, habsent]⟩
  refine ⟨hi.create hproper hcreate, hs.created hi.owned.consistent rfl hcreate, fun x hx => ?_⟩
  exact InvoiceCreated.answered hcreate hx (by simp [invoiceRequest])

/-- Writing the invoice of the next draft. -/
theorem created_triple (d : InvoiceDraft) (ds : List InvoiceDraft) (id : InvoiceId) (time : ℤ)
    (i : Unit) : protocol.Triple i (issueFacts.found d ds id)
      (.store (.invoices (.created ⟨d.id, id, time⟩)))
      (Ends (fun _ => issueFacts.remaining ds) fun _ => Calm) := by
  have hpre : Unordered fun w => Standing (some d.id) (d :: ds) w ∧ Carries w.invoices id d.tag :=
    (standing_unordered _ _).and (.carries id d.tag)
  refine (triple_store hpre _ (fun w h => ?_) (fun w r db' h hi he => ?_) i).mono
    fun r _ w (hr : ∃ _ : r = .ok (), Standing none ds w) => ?_
  · refine proper_of_plain (fun t ht id' hid => ?_) (by simp) (by simp)
    obtain rfl := Option.some.inj ht
    obtain rfl := Option.some.inj hid
    obtain ⟨row, hrow, hrowId, htag, -⟩ := h.1.known d List.mem_cons_self
    exact ⟨row, hrow, hrowId, htag ▸ h.2⟩
  · obtain ⟨db'', hok, hdrafts⟩ := hi.created_ok time h.1 h.2
    obtain ⟨rfl, rfl⟩ := Prod.mk.inj (hok.symm.trans he)
    exact ⟨rfl, h.1.written hdrafts rfl fun r => Nat.succ_pos _⟩
  · obtain ⟨rfl, hs⟩ := hr
    exact hs

/-- Writing that the next draft has no invoice, as far as one knows. -/
theorem unissued_ok {cfg : TrialSettings} {d : InvoiceDraft} {ds : List InvoiceDraft} {time : ℤ}
    {op : InvoiceStoreOp} (hop : Unissued cfg d time op) {w : World} (hi : Inv w)
    (hs : Standing (some d.id) (d :: ds) w) :
    ∃ v db' assign, (StoreOp.invoices op).apply w.db = (.ok v, db') ∧
      db' invoiceDrafts = assignWhere (fun r : InvoiceDraftRow => r.id == d.id) assign
        (w.db invoiceDrafts) ∧ ∀ r, 0 < (assign r).attempts := by
  obtain ⟨row, hrow, hid, -⟩ := hs.known d List.mem_cons_self
  have htransition : ∀ t : DraftTransition, t.draftId = d.id → t.providerInvoiceId = none →
      ∃ db', atomically metadata (transition t) w.db = (.ok (), db') ∧
        db' invoiceDrafts = assignWhere (fun r : InvoiceDraftRow => r.id == d.id) t.apply
          (w.db invoiceDrafts) := by
    intro t ht hnone
    rw [← ht]
    refine transition_ok hi.owned.consistent (fun r _ _ => ?_) fun o _ _ => ?_
    · rw [hnone]
      rfl
    · rw [hnone]
      rfl
  cases hop with
  | retry code =>
      obtain ⟨v, db', hok, hdrafts⟩ := retry_ok hi.owned.consistent ⟨d.id, code, time⟩
        (Services.backoff cfg d.attempts) cfg.invoiceMaxAttempts hrow hid
      exact ⟨v, db', _, hok, hdrafts, fun r => Nat.succ_pos _⟩
  | failed code =>
      obtain ⟨db', hok, hdrafts⟩ := htransition (.failed ⟨d.id, code, time⟩) rfl rfl
      exact ⟨(), db', _, hok, hdrafts, fun r => Nat.succ_pos _⟩
  | unknownResult code =>
      obtain ⟨db', hok, hdrafts⟩ := htransition (.unknownResult ⟨d.id, code, time⟩) rfl rfl
      exact ⟨(), db', _, hok, hdrafts, fun r => Nat.succ_pos _⟩

theorem unissued_triple (cfg : TrialSettings) (d : InvoiceDraft) (ds : List InvoiceDraft)
    {time : ℤ} {op : InvoiceStoreOp} (hop : Unissued cfg d time op) (i : Unit) :
    protocol.Triple i (issueFacts.undecided d ds) (.store (.invoices op))
      (Ends (fun _ => issueFacts.remaining ds) fun _ => Calm) := by
  refine (triple_store (standing_unordered _ _) _ (fun w h => ?_) (fun w r db' h hi he => ?_) i).mono
    fun r _ w (hr : (∃ v, r = .ok v) ∧ Standing none ds w) => ?_
  · refine proper_of_plain ?_ (by simp) ?_ <;> cases hop <;>
      simp [Truthful, transitionOf, DraftTransition.failed, DraftTransition.unknownResult]
  · obtain ⟨v, db'', assign, hok, hdrafts, hattempts⟩ := unissued_ok hop hi h
    obtain ⟨rfl, rfl⟩ := Prod.mk.inj (hok.symm.trans he)
    exact ⟨⟨v, rfl⟩, h.written hdrafts rfl hattempts⟩
  · obtain ⟨⟨v, rfl⟩, hs⟩ := hr
    exact hs

theorem issueRules (cfg : TrialSettings) (time : ℤ) (i : Unit) :
    IssueRules protocol i cfg time (fun _ => Calm) issueFacts where
  remaining_stable ds := (standing_unordered none ds).stable i
  absent_stable d ds := (absent_unordered d ds).stable i
  fails_stable := (standing_unordered none []).stable i
  absent_fails _ _ _ _ h := h.1.calm_all
  fresh _ _ _ _ h hattempts := ⟨h, h.fresh hattempts⟩
  query d ds _ := by
    refine (triple_lookup (standing_unordered none (d :: ds)) d.tag i).mono
      fun answer l w ⟨hs, hnone, hfound⟩ => ?_
    match answer, hnone, hfound with
    | [], hnone, _ => exact ⟨hs, hnone rfl⟩
    | .error _ :: _, _, _ => exact hs.next
    | .ok invoice :: _, _, hfound => exact ⟨hs.next, hfound invoice rfl⟩
  create d ds := by
    refine (create_triple d ds i).mono fun answer l w ⟨hs, hfound⟩ => ?_
    match answer, hfound with
    | [], _ => exact hs
    | .error _ :: _, _ => exact hs
    | .ok invoice :: _, hfound => exact ⟨hs, hfound invoice rfl⟩
  created d ds id := created_triple d ds id time i
  unissued d ds _ hop := unissued_triple cfg d ds hop i

theorem now_triple (i : Unit) : protocol.Triple i (fun _ => Calm) .now fun _ _ => Calm := by
  refine triple (standing_unordered none []) (fun w r w' h hi he => ?_) i
  obtain ⟨-, rfl⟩ := he
  exact ⟨hi, h⟩

/-- A query for drafts leaves everything as it was. -/
theorem listed_triple {op : InvoiceStoreOp} {listed : op.Result → World → Prop}
    (hreads : ∀ db, ((StoreOp.invoices op).apply db).2 = db)
    (hproper : ∀ w, Proper w (.store (.invoices op)))
    (hlisted : ∀ w v, Inv w → Calm w → ((StoreOp.invoices op).apply w.db).1 = .ok v → listed v w)
    (i : Unit) : protocol.Triple i (fun _ => Calm) (.store (.invoices op))
      (Ends (fun v _ => listed v) fun _ => Calm) := by
  refine (triple_store (standing_unordered none []) (.invoices op) (fun w _ => hproper w)
    (fun w r db' h hi he => ?_) i).mono
    fun r _ w (hr : Calm w ∧ ∀ v, r = .ok v → listed v w) => ?_
  · obtain rfl : w.db = db' := by rw [← hreads w.db, he]
    exact ⟨h, fun v hv => hlisted w v hi h (by rw [he, hv])⟩
  · cases r with
    | ok v => exact hr.2 v rfl
    | error e => exact hr.1

theorem saved_proper (gen : Generators) (batch : InvoiceBatch) (time : ℤ) (w : World) :
    Proper w (.store (.invoices (.save batch.id (buildInvoiceDrafts gen batch time)))) := by
  refine ⟨fun d hd => ?_, by simp, ?_⟩
  · obtain ⟨ordinal, -, rfl⟩ := List.mem_map.mp hd
    rfl
  · rintro d ⟨batchId, ds, hop, hd⟩
    obtain ⟨rfl, rfl⟩ : batch.id = batchId ∧ buildInvoiceDrafts gen batch time = ds := by
      simpa using hop
    obtain ⟨ordinal, -, rfl⟩ := List.mem_map.mp hd
    exact ⟨_, rfl⟩

theorem tickRules (gen : Generators) (cfg : TrialSettings) (i : Unit) :
    TickRules protocol i gen cfg (fun _ => Calm) (fun _ => Calm) (fun _ _ => Calm)
      (fun _ _ _ => Calm) (fun _ _ _ => Calm) (fun _ _ => issueFacts) where
  fails_stable := (standing_unordered none []).stable i
  start_fails _ _ h := h
  now := now_triple i
  claim time := by
    refine (triple_calm (.trials (.claimDueBatch _)) (fun w _ => ?_) i).mono fun r l w h => ?_
    · exact proper_of_plain trivial (by simp) (by simp)
    · match r, h with
      | .error _, h => exact h
      | .ok none, h => exact h
      | .ok (some _), h => exact h
  save batch time :=
    (triple_calm _ (fun w _ => saved_proper gen batch time w) i).mono fun r _ _ h => ends_of (fun _ => h) h r
  pending batch time := by
    refine listed_triple (fun _ => rfl) (fun w => ?_) (fun w drafts hi h hlisted => ?_) i
    · exact proper_of_plain (by simp [Truthful, transitionOf]) (by simp) (by simp)
    · refine ⟨h.calm, fun d hd => ?_, pending_nodup hi.owned.consistent hlisted⟩
      obtain ⟨row, hrow, rfl, -⟩ := pending_mem hlisted hd
      exact ⟨row, hrow, rfl, rfl, rfl⟩
  issue batch time := issueRules cfg time i
  settle batch time := triple_calm (.invoices (.settle batch.id time)) (fun w _ =>
    proper_of_plain (by simp [Truthful, transitionOf]) (by simp) (by simp)) i

/-- A reconcile pass creates no invoices. -/
theorem passRules (cfg : TrialSettings) (i : Unit) :
    PassRules protocol i cfg (fun _ => Calm) (fun _ => Calm) (fun _ _ => Calm)
      (fun _ ds _ w => Calm w ∧ (Lasting.known ds).holds w)
      (fun _ d ds id _ w => Calm w ∧ ((Lasting.known (d :: ds)).and (.seen d.tag id)).holds w) where
  fails_stable := (standing_unordered none []).stable i
  remaining_fails _ _ _ _ h := h.1
  now := now_triple i
  unknown time := by
    refine listed_triple (fun _ => rfl) (fun w => ?_) (fun w drafts hi h hlisted => ⟨h, ?_⟩) i
    · exact proper_of_plain (by simp [Truthful, transitionOf]) (by simp) (by simp)
    · exact Lasting.known_rows fun d hd => unknown_mem hlisted hd
  remaining_stable time ds := (calm_unordered (.known ds)).stable i
  query time d ds := by
    refine (triple_lookup (calm_unordered (.known (d :: ds))) d.tag i).mono
      fun answer l w hr => ?_
    obtain ⟨hs, -, hfound⟩ := hr
    cases answer with
    | nil => exact ⟨hs.1, hs.2, trivial⟩
    | cons first rest =>
        cases first with
        | error e => exact ⟨hs.1, Lasting.known_tail hs.2⟩
        | ok invoice => exact ⟨hs.1, hs.2, hfound invoice rfl⟩
  reconcile time d ds id := by
    refine (triple_known ((Lasting.known (d :: ds)).and (.seen d.tag id)) _ (fun w h => proper_of_plain ?_ (by simp) (by simp)) i).mono
      fun r _ w hr => ends_of (fun _ => ⟨hr.1, Lasting.known_tail hr.2.1⟩) hr.1 r
    cases id with
    | none => simp [Truthful, transitionOf]
    | some id => exact fun t ht id' hid => truthful_created h ht hid
  settle time batchId :=
    (triple_known (.known []) (.invoices (.settle batchId time)) (fun w _ =>
      proper_of_plain (by simp [Truthful, transitionOf]) (by simp) (by simp)) i).mono
      fun r _ _ hr => ends_of (fun _ => hr) hr.1 r

theorem kept : protocol.Kept (fun _ _ => Calm) fun _ => Always fun _ => Calm where
  toSound := sound
  rest_stable i := (standing_unordered none []).stable i
  dies_rest := by
    rintro l w i w' - ⟨hcalm, rfl⟩
    exact hcalm
  ends_rest i r l w h := by
    cases r with
    | ok v => exact h
    | error e => exact h
  begins := by
    rintro l w i p - hcalm hadmitted
    have hstable := (standing_unordered none []).stable i
    cases hadmitted with
    | tick gen cfg =>
        exact discard_ensures sound ((tickRules gen cfg i).tick_ensures sound hcalm) hstable
    | pass cfg setOrder =>
        exact discard_ensures sound
          ((passRules cfg i).reconcileInvoices_ensures sound setOrder hcalm) hstable

/-! ### Every sequence -/

/-- The provider holds one invoice at most for the tag of a draft. -/
def OnePerDraft (held : List HeldInvoice) : Prop :=
  ∀ tag, IsDraftTag tag → (carrying tag held).length ≤ 1

theorem Inv.onePerDraft {w : World} (h : Inv w) : OnePerDraft w.invoices := by
  intro tag htag
  by_cases hdraft : ∃ d ∈ w.db invoiceDrafts, d.tag = tag
  · obtain ⟨d, hd, rfl⟩ := hdraft
    exact h.once d hd
  · rw [h.not_carried htag fun d hd hsame => hdraft ⟨d, hd, hsame⟩]
    exact Nat.zero_le 1

/-- When no invocation is killed while a draft without an attempt has an invoice, no two
invoices with the tag of one draft are ever held. -/
theorem invoiced_once {w : World} (hw : Inv w) (hcalm : Calm w)
    {c : Config Unit Call Call.Answer Failure Unit World}
    (hc : Runs (system Calm) (.initial w) c) : OnePerDraft c.state.invoices :=
  (kept.inv hw hc fun _ => hcalm).onePerDraft

/-! ### A tick that is killed after a creation -/

/-- Only answers that the client takes for timeouts are lost. -/
def timeouts : ScriptRules Unit where
  lost e := (raiseProvider e "create_invoice" true).kind.isTimeout

theorem honestInvoices : HonestInvoices timeouts provider := by
  refine .of_created (fun held _ id => ∀ x ∈ held, x.id ≠ id) TimesOut (fun _ _ _ _ h => h)
    (fun held _ id h => ?_) (fun e he e' he' => ?_) (fun w limit tags => ⟨?_, ?_⟩)
    fun _ _ _ _ => ⟨?_, by simp⟩
  · simpa [timeouts, freshId] using h
  · obtain rfl : e = e' := by simpa using he'
    exact he
  · exact listedInvoices_listed _ _ _
  · intro hnone hlimit x hx htags
    have hin : x ∈ w.invoices.filter fun x => tags.all fun tag => x.request.tags.contains tag :=
      List.mem_filter.mpr ⟨hx, by simpa using htags⟩
    rw [listedInvoices, List.map_eq_nil_iff, List.take_eq_nil_iff] at hnone
    rcases hnone with rfl | hnone
    · exact absurd hlimit (lt_irrefl 0)
    · rw [hnone] at hin
      exact absurd hin (by simp)
  · simp [InvoiceListed]

theorem honestTransfers : HonestTransfers timeouts provider :=
  .of_any (fun _ _ _ _ => trivial) fun _ _ _ _ => trivial

/-- No draft of the table without an attempt has an invoice. -/
def calmNow (w : World) : Bool :=
  (w.db invoiceDrafts).all fun d : InvoiceDraftRow =>
    d.attempts != 0 || (carrying d.tag w.invoices).isEmpty

theorem calm_of_calmNow {w : World} (h : calmNow w = true) : Calm w := by
  refine ⟨fun d hd hattempts _ => ?_, by simp, by simp⟩
  have hone := List.all_eq_true.mp h d hd
  simpa [hattempts] using hone

/-- The calls of a tick up to its first creation. -/
def issuing (time : ℤ) (id : InvoiceId) : List (ScriptedMove Unit) :=
  [.begin () (tick plainGenerators {}).discard, .call () (.clock time), .call () .commit,
    .call () .commit, .call () .commit, .call () (.created id)]

/-- A tick is killed after its first creation, and the next one runs after the lease. -/
def killed (saved : List (ScriptedMove Unit)) (needs : World → Bool) : List (ScriptedMove Unit) :=
  issuing 0 "i" ++ saved ++ [.die () needs] ++ issuing (seconds 300) "k"

theorem killed_allowed {killable : World → Prop} {needs : World → Bool}
    (hneeds : ∀ w, needs w = true → killable w) {choices : List Script} :
    ∀ m ∈ killed (choices.map (.call ())) needs, m.Allowed (system killable) := by
  have htick : Admitted (tick plainGenerators {}).discard := .tick _ _
  have hissuing : ∀ time id, ∀ m ∈ issuing time id, m.Allowed (system killable) := by
    simp [issuing, Move.Allowed, system, htick]
  intro m hm
  simp only [killed, List.mem_append, List.mem_singleton] at hm
  rcases hm with ((hm | hm) | rfl) | hm
  · exact hissuing _ _ m hm
  · obtain ⟨choice, -, rfl⟩ := List.mem_map.mp hm
    exact trivial
  · exact fun _ w hw => ⟨hneeds w hw, rfl⟩
  · exact hissuing _ _ m hm

theorem killed_runs {killable : World → Prop} {needs : World → Bool}
    (hneeds : ∀ w, needs w = true → killable w) {choices : List Script}
    {c : Config Unit Call Call.Answer Failure Unit World}
    (h : playScript timeouts scheduledWorld (killed (choices.map (.call ())) needs) = some c) :
    Runs (system killable) (.initial scheduledWorld) c :=
  playScript_runs honestInvoices honestTransfers (fun _ _ _ _ _ _ _ h => h.mono fun _ _ => trivial)
    (killed_allowed hneeds) h

theorem scheduled_inv : Inv scheduledWorld := by
  have hdrafts : scheduledWorld.db invoiceDrafts = [] := rfl
  have hheld : scheduledWorld.invoices = [] := rfl
  refine ⟨.of_empty (by decide) rfl rfl _, ?_, ?_, ?_, ?_, ?_, ?_⟩
  · simp [UniqueIds, hheld]
  all_goals simp [hdrafts, hheld]

theorem scheduled_calm : Calm scheduledWorld := calm_of_calmNow (by decide)

/-- The tick was killed after its first result was written. -/
theorem invoiced_once_takeover : ∃ c : Config Unit Call Call.Answer Failure Unit World,
    c.state.invoices.map HeldInvoice.id = ["i", "k"] ∧ OnePerDraft c.state.invoices := by
  have hends : (playScript timeouts scheduledWorld
      (killed ([.commit].map (.call ())) calmNow)).map
        (fun c => c.state.invoices.map HeldInvoice.id) = some ["i", "k"] := by decide
  obtain ⟨c, hplay, hids⟩ := Option.map_eq_some_iff.mp hends
  exact ⟨c, hids, invoiced_once scheduled_inv scheduled_calm
    (killed_runs (fun _ => calm_of_calmNow) hplay)⟩

/-- It may be killed before that: then the next tick creates the invoice again. -/
theorem invoiced_twice : ∃ c : Config Unit Call Call.Answer Failure Unit World,
    Inv scheduledWorld ∧ Calm scheduledWorld ∧
      Runs (system fun _ => True) (.initial scheduledWorld) c ∧
      ¬ OnePerDraft c.state.invoices := by
  have hends : (playScript timeouts scheduledWorld
      (killed (([] : List Script).map (.call ())) fun _ => true)).map
        (fun c => (carrying "trial-draft:b:draft:0" c.state.invoices).length) = some 2 := by decide
  obtain ⟨c, hplay, htwo⟩ := Option.map_eq_some_iff.mp hends
  refine ⟨c, scheduled_inv, scheduled_calm, killed_runs (fun _ _ => trivial) hplay, fun hone => ?_⟩
  have hle := hone "trial-draft:b:draft:0" ⟨"b:draft:0", rfl⟩
  omega

end StarkbankTrial.InvoiceOnce
