import StarkbankTrial.InvoiceChanges
import StarkbankTrial.ScriptedRuns
import StarkbankTrial.TrialRules

/-!
# What the services know about invoices

A service acts on drafts that it read and on invoices that the provider returned. As long
as drafts and invoices are kept, what it knows of them stays so, and what it tells the
database is the truth. This is shown once, for every protocol whose processes see a
database and a provider.
-/
namespace StarkbankTrial.InvoiceFacts
open Domain InteractivePrograms InterleavedRuns RelationalTables DatabaseSchema
open DatabaseSchema.Table
open EventRecording InvoiceRecording StoreOperations InvoiceChanges ExternalCalls
open ProviderClient Services WorkerRules TrialRules

/-! ### What is told -/

/-- The invoice of the event is held, and the tags of the event are among its own. -/
def TrueEvent (held : List HeldInvoice) (event : CreditedInvoiceEvent) : Prop :=
  ∃ x ∈ held, x.id = event.invoiceId ∧ ∀ tag ∈ event.tags, tag ∈ x.request.tags

instance (held : List HeldInvoice) (event : CreditedInvoiceEvent) :
    Decidable (TrueEvent held event) :=
  inferInstanceAs (Decidable (∃ x ∈ held, x.id = event.invoiceId ∧
    ∀ tag ∈ event.tags, tag ∈ x.request.tags))

def TrueDelivery (held : List HeldInvoice) : Delivery → Prop
  | .verified (.credited event) _ => TrueEvent held event
  | _ => True

/-- Invoice ids are the ids of one invoice each. -/
def UniqueIds (held : List HeldInvoice) : Prop := ∀ x ∈ held, ∀ y ∈ held, x.id = y.id → x = y

theorem UniqueIds.append {held : List HeldInvoice} (h : UniqueIds held) {x : HeldInvoice}
    (hfresh : ∀ y ∈ held, y.id ≠ x.id) : UniqueIds (held ++ [x]) := by
  intro a ha b hb hid
  rcases List.mem_append.mp ha with ha | ha <;> rcases List.mem_append.mp hb with hb | hb
  · exact h a ha b hb hid
  · rw [List.mem_singleton.mp hb] at hid
    exact absurd hid (hfresh a ha)
  · rw [List.mem_singleton.mp ha] at hid
    exact absurd hid.symm (hfresh b hb)
  · rw [List.mem_singleton.mp ha, List.mem_singleton.mp hb]

/-- What a transaction is told about drafts and invoices is so: saved drafts are pending,
events and bindings name invoices with the tags, and so do the results of drafts. Only
smoke batches bind. -/
def Truthful (smoke : Bool) (held : List HeldInvoice) (db : Database Row) : StoreOp → Prop
  | .events (.record _ r) => ∀ event, r.event = .credited event → TrueEvent held event
  | .invoices (.save _ drafts) => ∀ d ∈ drafts, d.status = .pending
  | .invoices (.bindProviderInvoice tag id _) => smoke = true ∧ Carries held id tag
  | .invoices op => ∀ t, transitionOf op = some t → ∀ id, t.providerInvoiceId = some id →
      ∃ d ∈ db invoiceDrafts, d.id = t.draftId ∧ Carries held id d.tag
  | _ => True

theorem Truthful.transition {smoke : Bool} {held : List HeldInvoice} {db : Database Row}
    {op : InvoiceStoreOp} (h : Truthful smoke held db (.invoices op)) {t : DraftTransition} (ht : transitionOf op = some t)
    {id : InvoiceId} (hid : t.providerInvoiceId = some id) :
    ∃ d ∈ db invoiceDrafts, d.id = t.draftId ∧ Carries held id d.tag := by
  cases op with
  | save batchId drafts => simp [transitionOf] at ht
  | bindProviderInvoice tag id atTime => simp [transitionOf] at ht
  | _ => exact h t ht id hid

def TruthfulCall (smoke : Bool) (w : World) : Call → Prop
  | .store op => Truthful smoke w.invoices w.db op
  | _ => True

/-! ### Facts that last -/

/-- Neither drafts nor invoices are lost. -/
structure InvoicesKept (w w' : World) : Prop where
  drafts : ∀ d ∈ w.db invoiceDrafts, ∃ d' ∈ w'.db invoiceDrafts, SameDraft d d'
  invoices : ∀ x ∈ w.invoices, x ∈ w'.invoices

theorem InvoicesKept.refl (w : World) : InvoicesKept w w :=
  ⟨fun d hd => ⟨d, hd, .refl d⟩, fun _ hx => hx⟩

theorem InvoicesKept.trans {w w' w'' : World} (h : InvoicesKept w w')
    (h' : InvoicesKept w' w'') : InvoicesKept w w'' where
  drafts d hd := by
    obtain ⟨d', hd', hs⟩ := h.drafts d hd
    obtain ⟨d'', hd'', hs'⟩ := h'.drafts d' hd'
    exact ⟨d'', hd'', hs.trans hs'⟩
  invoices x hx := h'.invoices x (h.invoices x hx)

/-- A fact about what a process sees, which lasts while drafts and invoices are kept. -/
structure Lasting where
  holds : World → Prop
  lasts : ∀ w w', InvoicesKept w w' → holds w → holds w'

namespace Lasting
variable {ι S : Type}

/-- The fact, for a process that sees a part of the state. -/
def seenBy (fact : Lasting) (view : S → World) : Fact ι S := fun _ s => fact.holds (view s)

def and (a b : Lasting) : Lasting where
  holds w := a.holds w ∧ b.holds w
  lasts w w' hk h := ⟨a.lasts w w' hk h.1, b.lasts w w' hk h.2⟩

def nothing : Lasting := ⟨fun _ => True, fun _ _ _ _ => trivial⟩

def carries (id : InvoiceId) (tag : String) : Lasting where
  holds w := Carries w.invoices id tag
  lasts _ _ hk h := h.mono hk.invoices

/-- What a lookup for the tag found. -/
def seen (tag : String) : Option InvoiceId → Lasting
  | none => nothing
  | some id => carries id tag

/-- The drafts are rows, with their tags. -/
def known (ds : List InvoiceDraft) : Lasting where
  holds w := ∀ d ∈ ds, ∃ row ∈ w.db invoiceDrafts, row.id = d.id ∧ row.tag = d.tag
  lasts _ _ hk h d hd := by
    obtain ⟨row, hrow, hid, htag⟩ := h d hd
    obtain ⟨row', hrow', hsame⟩ := hk.drafts row hrow
    exact ⟨row', hrow', hsame.id.trans hid, hsame.tag.trans htag⟩

def delivered (delivery : Delivery) : Lasting where
  holds w := TrueDelivery w.invoices delivery
  lasts _ _ hk h := by
    match delivery, h with
    | .verified (.credited event) _, ⟨x, hx, hrest⟩ => exact ⟨x, hk.invoices x hx, hrest⟩
    | .verified (.ignored _) _, _ => trivial
    | .verified (.lifecycle _) _, _ => trivial
    | .unexpectedWorkspace _ _, _ => trivial

theorem known_tail {d : InvoiceDraft} {ds : List InvoiceDraft} {w : World}
    (h : (known (d :: ds)).holds w) : (known ds).holds w :=
  fun d' hd' => h d' (List.mem_cons_of_mem _ hd')

theorem known_rows {drafts : List InvoiceDraft} {w : World} {status : DraftStatus}
    (h : ∀ d ∈ drafts, ∃ row ∈ w.db invoiceDrafts, toDraft row = d ∧ row.status = status) :
    (known drafts).holds w := by
  intro d hd
  obtain ⟨row, hrow, rfl, -⟩ := h d hd
  exact ⟨row, hrow, rfl, rfl⟩

end Lasting

/-! ### The calls -/

section
variable {ι S : Type} {P : Protocol ι Call Call.Answer Failure Unit S} {i : ι}
variable {view : S → World}

/-- What has to be shown of a protocol: the process works on what it sees, calls that tell
the truth keep the invariant, and the others keep drafts and invoices. -/
structure Viewed (P : Protocol ι Call Call.Answer Failure Unit S) (i : ι) (view : S → World)
    (p : Provider) (smoke : Bool) : Prop where
  created : ∀ w request answer held, p.invoiceCreate w request answer held →
    ∃ fresh lost, InvoiceCreated fresh lost w.invoices request answer held
  listed : ∀ w limit tags answer, p.invoiceQuery w limit tags answer →
    InvoiceListed w.invoices tags answer
  relied : ∀ l s l' s', P.rely i l s l' s' → InvoicesKept (view s) (view s')
  demand : ∀ l s call, P.inv l s → TruthfulCall smoke (view s) call → P.demand i call l s
  consistent : ∀ l s, P.inv l s → metadata.Consistent (view s).db
  performs : ∀ l s call r t, P.exec l s i call r t →
    Performs p (fun _ => True) (view s) call r (view t)
  keeps : ∀ l s call r t, P.inv l s → TruthfulCall smoke (view s) call → P.exec l s i call r t →
    P.inv (⟨i, call, r⟩ :: l) t ∧ ∀ j, j ≠ i → P.rely j l s (⟨i, call, r⟩ :: l) t

/-- No call loses a draft or an invoice. -/
theorem performs_invoicesKept {p : Provider} {clock : ℤ → Prop} {w w' : World} {call : Call}
    {r : call.Answer} (h : Performs p clock w call r w') (hc : metadata.Consistent w.db)
    (hcreated : ∀ w request answer held, p.invoiceCreate w request answer held →
      ∃ fresh lost, InvoiceCreated fresh lost w.invoices request answer held) :
    InvoicesKept w w' := by
  cases call with
  | now =>
      obtain ⟨-, rfl⟩ := h
      exact .refl _
  | store op =>
      obtain ⟨-, rfl⟩ := h
      exact ⟨(apply_rowsKept hc op).drafts, fun _ hx => hx⟩
  | invoiceCreate request =>
      obtain ⟨held, hcreate, rfl⟩ := h
      obtain ⟨fresh, lost, hcreate⟩ := hcreated _ _ _ _ hcreate
      exact ⟨fun d hd => ⟨d, hd, .refl d⟩, hcreate.subset⟩
  | invoiceQuery limit tags =>
      obtain ⟨-, rfl⟩ := h
      exact .refl _
  | transferCreate request =>
      obtain ⟨held, -, rfl⟩ := h
      exact ⟨fun d hd => ⟨d, hd, .refl d⟩, fun _ hx => hx⟩
  | transferQuery limit tags =>
      obtain ⟨-, rfl⟩ := h
      exact .refl _

namespace Viewed
variable {p : Provider} {smoke : Bool} (hv : Viewed P i view p smoke)
include hv

theorem stable (fact : Lasting) : P.Stable i (fact.seenBy view) :=
  fun _ _ _ _ h hr _ => fact.lasts _ _ (hv.relied _ _ _ _ hr) h

/-- One call that tells the truth, with what it returns. -/
theorem triple_of (pre : Lasting) (call : Call) (result : call.Answer → World → Prop)
    (htrue : ∀ w, pre.holds w → TruthfulCall smoke w call)
    (hresult : ∀ w r w', pre.holds w → pre.holds w' →
      Performs p (fun _ => True) w call r w' → result r w') :
    P.Triple i (pre.seenBy view) call fun r _ s => result r (view s) where
  stable := hv.stable pre
  demand l s hpre hi := hv.demand l s call hi (htrue _ hpre)
  keeps l s r t hpre hi he := hv.keeps l s call r t hi (htrue _ hpre) he
  result l s r t hpre hi he := by
    have hperforms := hv.performs l s call r t he
    have hkept := performs_invoicesKept hperforms (hv.consistent l s hi) hv.created
    exact hresult _ _ _ hpre (pre.lasts _ _ hkept hpre) hperforms

/-- A transaction, with what it returns. -/
theorem triple_return (pre : Lasting) (op : StoreOp) (post : op.Result → Lasting)
    (htrue : ∀ w, pre.holds w → Truthful smoke w.invoices w.db op)
    (hpost : ∀ (w w' : World) v, pre.holds w' → (op.apply w.db).1 = .ok v →
      w' = { w with db := (op.apply w.db).2 } → (post v).holds w') :
    P.Triple i (pre.seenBy view) (.store op)
      (Returns fun v => (post v).seenBy view) := by
  refine (hv.triple_of pre (.store op) (fun r w => ∀ v, r = .ok v → (post v).holds w) htrue
    fun w r w' _ hpre he v hr => ?_).mono fun r l s hr => ?_
  · exact hpost w w' v hpre (he.1.symm.trans hr) he.2
  · cases r with
    | ok v => exact hr v rfl
    | error e => trivial

/-- A transaction whose facts are those from before. -/
theorem triple_store (pre : Lasting) (op : StoreOp)
    (htrue : ∀ w, pre.holds w → Truthful smoke w.invoices w.db op) :
    P.Triple i (pre.seenBy view) (.store op) fun _ => pre.seenBy view :=
  hv.triple_of pre (.store op) (fun _ => pre.holds) htrue fun _ _ _ _ hpre _ => hpre

theorem triple_now (pre : Lasting) :
    P.Triple i (pre.seenBy view) .now fun _ => pre.seenBy view :=
  hv.triple_of pre .now (fun _ => pre.holds) (fun _ _ => trivial) fun _ _ _ _ hpre _ => hpre

/-- A lookup finds an invoice with the tag. -/
theorem triple_query (pre : Lasting) (limit : ℕ) (tag : String) :
    P.Triple i (pre.seenBy view) (.invoiceQuery limit [tag]) fun answer l s =>
      pre.seenBy view l s ∧ ∀ x, answer.head? = some (.ok x) →
        (pre.and (.carries x.id tag)).seenBy view l s := by
  refine hv.triple_of pre (.invoiceQuery limit [tag]) (fun answer w => pre.holds w ∧
    ∀ x, answer.head? = some (.ok x) → (pre.and (.carries x.id tag)).holds w) (fun _ _ => trivial)
    fun w r w' _ hpre he => ⟨hpre, fun x hx => ⟨hpre, ?_⟩⟩
  obtain ⟨hlisted, rfl⟩ := he
  exact (hv.listed _ _ _ _ hlisted).found hx

/-- A creation returns an invoice with the tag of the request. -/
theorem triple_create (pre : Lasting) (request : InvoiceRequest) (tag : String)
    (htag : tag ∈ request.tags) :
    P.Triple i (pre.seenBy view) (.invoiceCreate request) fun answer l s =>
      pre.seenBy view l s ∧ ∀ x, answer.head? = some (.ok x) →
        (pre.and (.carries x.id tag)).seenBy view l s := by
  refine hv.triple_of pre (.invoiceCreate request) (fun answer w => pre.holds w ∧
    ∀ x, answer.head? = some (.ok x) → (pre.and (.carries x.id tag)).holds w) (fun _ _ => trivial)
    fun w r w' _ hpre he => ⟨hpre, fun x hx => ⟨hpre, ?_⟩⟩
  obtain ⟨held, hcreate, rfl⟩ := he
  obtain ⟨fresh, lost, hcreate⟩ := hv.created _ _ _ _ hcreate
  exact hcreate.answered hx htag

end Viewed

/-! ### The services -/

/-- The invoice of a draft carries the tag of its row. -/
theorem truthful_created {d : InvoiceDraft} {ds : List InvoiceDraft} {id : InvoiceId}
    {w : World} {time : ℤ}
    (h : ((Lasting.known (d :: ds)).and (.carries id d.tag)).holds w) {t : DraftTransition}
    (ht : some (DraftTransition.created ⟨d.id, id, time⟩) = some t) {id' : InvoiceId}
    (hid : t.providerInvoiceId = some id') :
    ∃ row ∈ w.db invoiceDrafts, row.id = t.draftId ∧ Carries w.invoices id' row.tag := by
  obtain rfl := Option.some.inj ht
  obtain rfl := Option.some.inj hid
  obtain ⟨row, hrow, hrowId, htag⟩ := h.1 d List.mem_cons_self
  exact ⟨row, hrow, hrowId, htag ▸ h.2⟩

def issueFacts (view : S → World) : IssueFacts ι S where
  remaining ds := (Lasting.known ds).seenBy view
  absent d ds := (Lasting.known (d :: ds)).seenBy view
  found d ds id := ((Lasting.known (d :: ds)).and (.carries id d.tag)).seenBy view
  undecided d ds := (Lasting.known (d :: ds)).seenBy view

namespace Viewed
variable {p : Provider} {smoke : Bool} (hv : Viewed P i view p smoke)
include hv

theorem issueRules (cfg : TrialSettings) (time : ℤ) :
    IssueRules P i cfg time Anywhere (issueFacts view) where
  remaining_stable ds := hv.stable (.known ds)
  absent_stable d ds := hv.stable (.known (d :: ds))
  fails_stable := anywhere_stable
  absent_fails _ _ _ _ _ := trivial
  fresh d ds l s h _ := h
  query d ds _ := by
    refine (hv.triple_query (.known (d :: ds)) 1 d.tag).mono fun answer l s hr => ?_
    match answer, hr with
    | [], hr => exact hr.1
    | .error _ :: _, hr => exact hr.1
    | .ok invoice :: _, hr => exact hr.2 invoice rfl
  create d ds := by
    have htag : d.tag ∈ (invoiceRequest d).tags := by simp [invoiceRequest]
    refine (hv.triple_create (.known (d :: ds)) _ _ htag).mono fun answer l s hr => ?_
    match answer, hr with
    | [], hr => exact hr.1
    | .error _ :: _, hr => exact hr.1
    | .ok invoice :: _, hr => exact hr.2 invoice rfl
  created d ds id :=
    hv.triple_return ((Lasting.known (d :: ds)).and (.carries id d.tag)) _ (fun _ => .known ds)
      (fun w h t ht id hid => truthful_created h ht hid)
      fun w w' _ h _ _ => Lasting.known_tail h.1
  unissued d ds op hop := by
    refine hv.triple_return (.known (d :: ds)) _ (fun _ => .known ds) (fun w _ => ?_)
      fun w w' _ h _ _ => Lasting.known_tail h
    cases hop with
    | retry code => simp [Truthful, transitionOf]
    | failed code => simp [Truthful, transitionOf, DraftTransition.failed]
    | unknownResult code => simp [Truthful, transitionOf, DraftTransition.unknownResult]

theorem tickRules (gen : Generators) (cfg : TrialSettings) :
    TickRules P i gen cfg (Lasting.nothing.seenBy view) Anywhere
      (fun _ => Lasting.nothing.seenBy view) (fun _ _ => Lasting.nothing.seenBy view)
      (fun _ _ => Lasting.nothing.seenBy view) (fun _ _ => issueFacts view) where
  fails_stable := anywhere_stable
  start_fails _ _ _ := trivial
  now := hv.triple_now .nothing
  claim time := by
    refine (hv.triple_store .nothing (.trials (.claimDueBatch _)) fun _ _ => trivial).mono
      fun r l s _ => ?_
    match r with
    | .error _ => trivial
    | .ok none => trivial
    | .ok (some _) => trivial
  save batch time := by
    refine hv.triple_return .nothing _ (fun _ => .nothing) (fun _ _ => ?_) fun _ _ _ h _ _ => h
    intro d hd
    obtain ⟨ordinal, -, rfl⟩ := List.mem_map.mp hd
    rfl
  pending batch time :=
    hv.triple_return .nothing (.invoices (.pending batch.id time)) (fun ds => .known ds)
      (fun _ _ => by simp [Truthful, transitionOf])
      fun w w' drafts _ hlisted hw' => hw' ▸ Lasting.known_rows fun d hd => pending_mem hlisted hd
  issue batch time := hv.issueRules cfg time
  settle batch time := (hv.triple_store (.known []) (.invoices (.settle batch.id time))
    fun _ _ => by simp [Truthful, transitionOf]).mono fun _ _ _ _ => trivial

theorem passRules (cfg : TrialSettings) :
    PassRules P i cfg (Lasting.nothing.seenBy view) Anywhere
      (fun _ => Lasting.nothing.seenBy view) (fun _ ds => (Lasting.known ds).seenBy view)
      (fun _ d ds found => ((Lasting.known (d :: ds)).and (.seen d.tag found)).seenBy view) where
  fails_stable := anywhere_stable
  remaining_fails _ _ _ _ _ := trivial
  now := hv.triple_now .nothing
  unknown time :=
    hv.triple_return .nothing (.invoices (.unknown time 100)) (fun ds => .known ds)
      (fun _ _ => by simp [Truthful, transitionOf])
      fun w w' drafts _ hlisted hw' => hw' ▸ Lasting.known_rows fun d hd => unknown_mem hlisted hd
  remaining_stable time ds := hv.stable (.known ds)
  query time d ds := by
    refine (hv.triple_query (.known (d :: ds)) 1 d.tag).mono fun answer l s hr => ?_
    match answer, hr with
    | [], hr => exact ⟨hr.1, trivial⟩
    | .error _ :: _, hr => exact Lasting.known_tail hr.1
    | .ok invoice :: _, hr => exact hr.2 invoice rfl
  reconcile time d ds found := by
    refine hv.triple_return ((Lasting.known (d :: ds)).and (.seen d.tag found)) _
      (fun _ => .known ds) (fun w h => ?_) fun w w' _ h _ _ => Lasting.known_tail h.1
    cases found with
    | none => simp [Truthful, transitionOf]
    | some id => exact fun t ht id' hid => truthful_created h ht hid
  settle time batchId := hv.triple_return (.known []) (.invoices (.settle batchId time))
    (fun _ => .known []) (fun _ _ => by simp [Truthful, transitionOf]) fun _ _ _ h _ _ => h

omit hv in
theorem smokeRules (hv : Viewed P i view p true) : SmokeRules P i (fun _ => True) (Lasting.nothing.seenBy view)
    (fun tag id => (Lasting.carries id tag).seenBy view) where
  base_stable := hv.stable .nothing
  found_stable tag id := hv.stable (.carries id tag)
  found_base _ _ _ _ _ := trivial
  now := hv.triple_now .nothing
  nowFound tag id := hv.triple_now (.carries id tag)
  register draft time _ := hv.triple_store .nothing (.invoices (.registerSmoke draft time))
    fun _ _ => by simp [Truthful, transitionOf]
  registerFound draft time id _ := hv.triple_store (.carries id draft.tag)
    (.invoices (.registerSmoke draft time)) fun _ _ => by simp [Truthful, transitionOf]
  query draft _ := by
    refine (hv.triple_query .nothing 1 draft.tag).mono fun answer l s hr => ⟨hr.1, fun x hx => ?_⟩
    exact (hr.2 x hx).2
  create draft _ := by
    have htag : draft.tag ∈ (invoiceRequest draft).tags := by simp [invoiceRequest]
    refine (hv.triple_create .nothing _ _ htag).mono fun answer l s hr => ⟨hr.1, fun x hx => ?_⟩
    exact (hr.2 x hx).2
  bind tag id time := (hv.triple_store (.carries id tag)
    (.invoices (.bindProviderInvoice tag id time)) fun _ h => ⟨rfl, h⟩).mono fun _ _ _ _ => trivial

theorem deliveryRules (jobId : TransferJobId) (delivery : Delivery) :
    DeliveryRules P i jobId delivery ((Lasting.delivered delivery).seenBy view)
      (fun _ => (Lasting.delivered delivery).seenBy view) where
  now := hv.triple_now (.delivered delivery)
  record event payloadHash time hdelivery := by
    subst hdelivery
    refine (hv.triple_store (.delivered _) _ fun w h => ?_).mono fun _ _ _ _ => trivial
    rintro credited rfl
    exact h
  ignored event payloadHash time _ := (hv.triple_store (.delivered delivery)
    (.events (.recordIgnoredWorkspace _)) fun _ _ => trivial).mono fun _ _ _ _ => trivial

end Viewed
end

end StarkbankTrial.InvoiceFacts
