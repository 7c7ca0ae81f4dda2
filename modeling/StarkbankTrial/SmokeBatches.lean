import StarkbankTrial.InvoiceOnce

/-!
# Smoke batches

Smoke batches run one at a time, each possibly aborted or killed between two of its calls,
while credits are delivered at any time. The provider answers a lookup with the invoice that
has the tag. What a batch returns then depends on the reference and the ordinals alone, for
every state in which earlier runs left the tables and the provider.
-/
namespace StarkbankTrial.SmokeBatches
open Domain InteractivePrograms InterleavedRuns RelationalTables Transaction DatabaseSchema
open DatabaseSchema.Table
open EventRecording InvoiceRecording StoreOperations InvoiceChanges ExternalCalls
open ProviderClient Services WorkerRules TrialRules ScriptedRuns InvoiceFacts OwnedInvoices
open InvoiceOnce (carrying carrying_nil carrying_append)

def IsSmokeTag (tag : String) : Prop := ∃ id, tag = "trial-smoke:" ++ id

/-- The answer to a lookup names invoices with the tags, if there is one. -/
structure Answers (held : List HeldInvoice) (limit : ℕ) (tags : List String)
    (answer : SdkAnswer SdkInvoice) : Prop where
  listed : InvoiceListed held tags answer
  complete : 0 < limit → answer = [] → ∀ x ∈ held, ∃ tag ∈ tags, tag ∉ x.request.tags

/-- A creation that raises may have had its effect. -/
def answeringProvider : Provider where
  invoiceCreate w request answer held :=
    InvoiceCreated (fun id => ∀ x ∈ w.invoices, x.id ≠ id) (fun _ => True) w.invoices request
      answer held
  invoiceQuery w limit tags answer := Answers w.invoices limit tags answer
  transferCreate _ _ _ _ := True
  transferQuery _ _ _ _ := True

/-- The tag is bound to the invoice. -/
def BoundTo (db : Database Row) (tag : String) (id : InvoiceId) : Prop :=
  ∃ o ∈ db ownedInvoices, o.tag = tag ∧ o.providerInvoiceId = some id

def Registered (db : Database Row) (tag : String) : Prop := ∃ o ∈ db ownedInvoices, o.tag = tag

/-- A transaction that raised `InvoiceOwnershipConflictError`. -/
def Conflicted {ι : Type} : Entry ι Call Call.Answer → Prop
  | ⟨_, .store _, .error (.invoiceOwnershipConflict _ _)⟩ => True
  | _ => False

/-! ### Single transactions -/

section
variable {db : Database Row}

/-- A registered tag that has no other invoice is bound. -/
theorem bind_apply (hc : metadata.Consistent db) {o : OwnedInvoiceRow}
    (ho : o ∈ db ownedInvoices) {id : InvoiceId} (time : ℤ)
    (hfree : o.providerInvoiceId = none ∨ o.providerInvoiceId = some id)
    (hother : ∀ o' ∈ db ownedInvoices, o'.providerInvoiceId = some id → o' = o) :
    (StoreOp.invoices (.bindProviderInvoice o.tag id time)).apply db = (.ok (),
      db.set ownedInvoices (assignWhere (fun r : OwnedInvoiceRow => r.tag == o.tag)
        (fun r => { r with providerInvoiceId := some id, updatedAt := time })
        (db ownedInvoices))) := by
  have hone : (db ownedInvoices).filter (fun r : OwnedInvoiceRow => r.tag == o.tag) = [o] := by
    refine (hc ownedInvoices).filter_eq_singleton (fun a b ha hb => ?_) ho (by simp)
    exact metadata.clash_of_key _ a b ((beq_iff_eq.mp ha).trans (beq_iff_eq.mp hb).symm)
  have hkey : ∀ r ∈ db ownedInvoices, r.tag = o.tag → r = o :=
    fun r hr htag => (hc ownedInvoices).eq_of_key hr ho htag
  have hvalid : metadata.Valid ownedInvoices
      (assignWhere (fun r : OwnedInvoiceRow => r.tag == o.tag)
        (fun r => { r with providerInvoiceId := some id, updatedAt := time })
        (db ownedInvoices)) := by
    refine (hc ownedInvoices).assignWhere (fun r hr _ => (hc ownedInvoices).1 r hr)
      (fun a ha b hb hca hab hcb => ?_) fun a ha b hb hca hcb hab => ?_
    · have hshared : sameNonNull (some id) b.providerInvoiceId = false := by
        rw [Bool.eq_false_iff, ne_eq, sameNonNull_iff]
        rintro ⟨x, hx, hbound⟩
        rw [hother b hb (hbound.trans hx.symm)] at hcb
        simp at hcb
      simp only [metadata, uniqueConflict, Bool.or_eq_false_iff] at hab ⊢
      exact ⟨⟨hab.1.1, hshared⟩, hab.2⟩
    · have hsame : a.tag = b.tag := (beq_iff_eq.mp hca).trans (beq_iff_eq.mp hcb).symm
      simp [metadata, uniqueConflict, hsame] at hab
  refine atomically_of_run ?_
  change (bindProviderInvoice o.tag id time).run (respond metadata) db = _
  have hfirst : respond metadata (.select ownedInvoices
      fun r : OwnedInvoiceRow => r.tag == o.tag) db = ([o], db) := by rw [respond_select, hone]
  unfold bindProviderInvoice
  simp only [select_bind, Program.run_call, hfirst]
  rcases hfree with hnone | hbound
  · simp only [hnone, update_bind, Program.run_call, respond, hvalid, if_true]
    rfl
  · have hsame : assignWhere (fun r : OwnedInvoiceRow => r.tag == o.tag)
        (fun r => { r with updatedAt := time }) (db ownedInvoices) =
        assignWhere (fun r : OwnedInvoiceRow => r.tag == o.tag)
          (fun r => { r with providerInvoiceId := some id, updatedAt := time })
          (db ownedInvoices) := by
      refine List.map_congr_left fun r hr => ?_
      by_cases htag : r.tag = o.tag
      · simp [hkey r hr htag, ← hbound]
      · simp [htag]
    simp only [hbound, if_true]
    rw [run_updateRows (hsame ▸ hvalid), hsame]
    rfl

/-- After a registration that succeeded there is a row for the tag. -/
theorem register_registered {draft : InvoiceDraft} {time : ℤ} {v : Unit}
    (h : ((StoreOp.invoices (.registerSmoke draft time)).apply db).1 = .ok v) :
    Registered ((StoreOp.invoices (.registerSmoke draft time)).apply db).2 draft.tag := by
  have hestablished : Program.Establishes (respond metadata) (registerSmoke draft time)
      (fun _ db' => Registered db' draft.tag) db := by
    unfold registerSmoke
    simp only [insertIfAbsent_bind, Program.establishes_call, respond]
    split_ifs with hpresent haccepts
    · obtain ⟨o, ho, htag⟩ := List.any_eq_true.mp hpresent
      exact (Program.establishes_done _).mpr ⟨o, ho, beq_iff_eq.mp htag⟩
    · refine (Program.establishes_done _).mpr ⟨smokeOwner draft time, ?_, rfl⟩
      change _ ∈ (db.set ownedInvoices (db ownedInvoices ++ [smokeOwner draft time])) ownedInvoices
      simp [Database.set_self]
    · exact (Program.establishes_raise _).mpr trivial
  rcases Program.atomically_cases (respond metadata) (registerSmoke draft time) db with
    ⟨v', db', hrun, hdone⟩ | ⟨e, hfailed⟩
  · have hsame : (StoreOp.invoices (.registerSmoke draft time)).apply db = (.ok v', db') := hdone
    rw [hsame]
    exact hestablished v' db' hrun
  · have hsame : (StoreOp.invoices (.registerSmoke draft time)).apply db = (.error e, db) := hfailed
    rw [hsame] at h
    cases h

theorem register_raises (draft : InvoiceDraft) (time : ℤ) :
    Unbroken (registerSmoke draft time) := by
  unfold Unbroken registerSmoke
  simp only [insertIfAbsent_bind, Program.raises_call, Bool.forall_bool]
  exact ⟨rfl, trivial⟩

end

/-! ### The invariant -/

abbrev CallLog := Log (Option ℕ) Call Call.Answer

/-- What is so in every state: the owned rows have smoke tags, an invoice with a smoke tag has
no other tag and an id of its own, and there is one at most. -/
structure Inv (l : CallLog) (w : World) : Prop where
  owned : Owned w.invoices w.db
  smoke : ∀ o ∈ w.db ownedInvoices, IsSmokeTag o.tag
  alone : ∀ x ∈ w.invoices, ∀ tag ∈ x.request.tags, IsSmokeTag tag →
    x.request.tags = [tag] ∧ ∀ y ∈ w.invoices, y.id = x.id → y = x
  once : ∀ tag, IsSmokeTag tag → (carrying tag w.invoices).length ≤ 1
  unraised : ∀ e ∈ l, ¬ Conflicted e

/-- Bound tags stay bound, and invoices stay held. -/
structure Lasts (w w' : World) : Prop where
  owners : ∀ o ∈ w.db ownedInvoices, ∃ o' ∈ w'.db ownedInvoices, o'.tag = o.tag ∧
    ∀ id, o.providerInvoiceId = some id → o'.providerInvoiceId = some id
  invoices : ∀ x ∈ w.invoices, x ∈ w'.invoices

theorem Lasts.refl (w : World) : Lasts w w :=
  ⟨fun o ho => ⟨o, ho, rfl, fun _ hid => hid⟩, fun _ hx => hx⟩

theorem Lasts.trans {w w' w'' : World} (h : Lasts w w') (h' : Lasts w' w'') : Lasts w w'' where
  owners o ho := by
    obtain ⟨o', ho', htag, hbound⟩ := h.owners o ho
    obtain ⟨o'', ho'', htag', hbound'⟩ := h'.owners o' ho'
    exact ⟨o'', ho'', htag'.trans htag, fun id hid => hbound' id (hbound id hid)⟩
  invoices x hx := h'.invoices x (h.invoices x hx)

theorem Lasts.bound {w w' : World} (h : Lasts w w') {tag : String} {id : InvoiceId}
    (hb : BoundTo w.db tag id) : BoundTo w'.db tag id := by
  obtain ⟨o, ho, rfl, hid⟩ := hb
  obtain ⟨o', ho', htag, hbound⟩ := h.owners o ho
  exact ⟨o', ho', htag, hbound id hid⟩

theorem Lasts.registered {w w' : World} (h : Lasts w w') {tag : String}
    (hr : Registered w.db tag) : Registered w'.db tag := by
  obtain ⟨o, ho, rfl⟩ := hr
  obtain ⟨o', ho', htag, -⟩ := h.owners o ho
  exact ⟨o', ho', htag⟩

section
variable {l : CallLog} {w w' : World} {i : Option ℕ}

theorem Inv.reordered (h : Inv l w) (hsame : w'.invoices = w.invoices)
    (hdb : Reordered w.db w'.db) : Inv l w' where
  owned := hsame ▸ h.owned.reordered hdb
  smoke o ho := h.smoke o (hdb.mem.mp ho)
  alone := hsame ▸ h.alone
  once := hsame ▸ h.once
  unraised := h.unraised

/-- There is one invoice with a smoke tag. -/
theorem Inv.eq_of_tag (h : Inv l w) {tag : String} (htag : IsSmokeTag tag) {x y : HeldInvoice}
    (hx : x ∈ w.invoices) (hy : y ∈ w.invoices) (hxtag : tag ∈ x.request.tags)
    (hytag : tag ∈ y.request.tags) : x = y := by
  have hxmem : x ∈ carrying tag w.invoices := List.mem_filter.mpr ⟨hx, by simpa using hxtag⟩
  have hymem : y ∈ carrying tag w.invoices := List.mem_filter.mpr ⟨hy, by simpa using hytag⟩
  obtain ⟨z, hz⟩ := List.length_eq_one_iff.mp
    (Nat.le_antisymm (h.once tag htag) (List.length_pos_of_mem hxmem))
  rw [hz] at hxmem hymem
  exact (List.mem_singleton.mp hxmem).trans (List.mem_singleton.mp hymem).symm

theorem Inv.carries_unique (h : Inv l w) {tag : String} (htag : IsSmokeTag tag)
    {id id' : InvoiceId} (hc : Carries w.invoices id tag) (hc' : Carries w.invoices id' tag) :
    id = id' := by
  obtain ⟨x, hx, rfl, hxtag⟩ := hc
  obtain ⟨y, hy, rfl, hytag⟩ := hc'
  rw [h.eq_of_tag htag hx hy hxtag hytag]

/-- An invoice with a smoke tag is bound to the row of this tag only. -/
theorem Inv.owner_unique (h : Inv l w) {tag : String} (htag : IsSmokeTag tag) {id : InvoiceId}
    (hc : Carries w.invoices id tag) {o : OwnedInvoiceRow} (ho : o ∈ w.db ownedInvoices)
    (hid : o.providerInvoiceId = some id) : o.tag = tag := by
  obtain ⟨x, hx, rfl, hxtag⟩ := hc
  obtain ⟨y, hy, hyid, hytag⟩ := h.owned.bound o ho x.id hid
  obtain ⟨htags, hunique⟩ := h.alone x hx tag hxtag htag
  rw [hunique y hy hyid, htags] at hytag
  exact List.mem_singleton.mp hytag

/-! ### The calls -/

/-- The calls of smoke batches and deliveries; only the smoke batch creates invoices. -/
inductive Called (i : Option ℕ) (w : World) : Call → Prop
  | now : Called i w .now
  | register {draft : InvoiceDraft} {time : ℤ} : IsSmokeTag draft.tag →
      Called i w (.store (.invoices (.registerSmoke draft time)))
  | bind {tag : String} {id : InvoiceId} {time : ℤ} : IsSmokeTag tag → Registered w.db tag →
      Carries w.invoices id tag → Called i w (.store (.invoices (.bindProviderInvoice tag id time)))
  | record {jobId : TransferJobId} {r : EventRecord} :
      (∀ event, r.event = .credited event → TrueEvent w.invoices event) →
      Called i w (.store (.events (.record jobId r)))
  | ignored {r : EventRecord} : Called i w (.store (.events (.recordIgnoredWorkspace r)))
  | query {tag : String} : Called i w (.invoiceQuery 1 [tag])
  | create {draft : InvoiceDraft} : i = none → IsSmokeTag draft.tag →
      carrying draft.tag w.invoices = [] → Called i w (.invoiceCreate (invoiceRequest draft))

/-- What one call does. -/
structure Steps (i : Option ℕ) (l : CallLog) (w : World) (call : Call) (r : call.Answer)
    (w' : World) : Prop where
  inv : Inv (⟨i, call, r⟩ :: l) w'
  lasts : Lasts w w'
  others : i ≠ none → w'.invoices = w.invoices

theorem conflicted_cons {call : Call} {r : call.Answer} (h : Inv l w)
    (hr : ¬ Conflicted (⟨i, call, r⟩ : Entry (Option ℕ) Call Call.Answer)) :
    ∀ e ∈ (⟨i, call, r⟩ :: l : CallLog), ¬ Conflicted e := by
  intro e he
  rcases List.mem_cons.mp he with rfl | he
  · exact hr
  · exact h.unraised e he

/-- A transaction that tells the truth of smoke tags. -/
theorem Inv.stored (h : Inv l w) {op : StoreOp} {r : Except StoreError op.Result}
    (htrue : Truthful true w.invoices w.db op)
    (hsmoke : ∀ o ∈ (op.apply w.db).2 ownedInvoices, IsSmokeTag o.tag)
    (howners : ∀ o ∈ w.db ownedInvoices, ∃ o' ∈ (op.apply w.db).2 ownedInvoices, o'.tag = o.tag ∧
      ∀ id, o.providerInvoiceId = some id → o'.providerInvoiceId = some id)
    (hr : ∀ tag id, r ≠ .error (.invoiceOwnershipConflict tag id)) :
    Steps i l w (.store op) r { w with db := (op.apply w.db).2 } := by
  refine ⟨⟨h.owned.apply htrue, hsmoke, h.alone, h.once, conflicted_cons h fun hconflict => ?_⟩,
    ⟨howners, fun _ hx => hx⟩, fun _ => rfl⟩
  unfold Conflicted at hconflict
  split at hconflict
  · next heq => cases heq; exact hr _ _ rfl
  · exact hconflict

/-- A transaction that raises no other error than a broken constraint. -/
theorem not_conflict (op : StoreOp) (hop : Unbroken op.txn) (db : Database Row) (tag : String)
    (id : InvoiceId) : (op.apply db).1 ≠ .error (.invoiceOwnershipConflict tag id) := by
  intro herror
  have hraised : StoreError.invoiceOwnershipConflict tag id = .integrityError :=
    hop.atomically db _ herror
  cases hraised

theorem Inv.register (h : Inv l w) {draft : InvoiceDraft} {time : ℤ} (htag : IsSmokeTag draft.tag) :
    Steps i l w (.store (.invoices (.registerSmoke draft time)))
      ((StoreOp.invoices (.registerSmoke draft time)).apply w.db).1
      { w with db := ((StoreOp.invoices (.registerSmoke draft time)).apply w.db).2 } := by
  have hrows : ((StoreOp.invoices (.registerSmoke draft time)).apply w.db).2 ownedInvoices =
      w.db ownedInvoices ∨ ((StoreOp.invoices (.registerSmoke draft time)).apply w.db).2
        ownedInvoices = w.db ownedInvoices ++ [smokeOwner draft time] := by
    have hchanged := invoices_changes (.registerSmoke draft time) w.db
    unfold InvoicesChangedIn at hchanged
    generalize ((StoreOp.invoices (.registerSmoke draft time)).apply w.db).2 invoiceDrafts =
      drafts' at hchanged
    generalize ((StoreOp.invoices (.registerSmoke draft time)).apply w.db).2 ownedInvoices =
      owned' at hchanged ⊢
    cases hchanged with
    | same => exact .inl rfl
    | registered heq =>
        obtain ⟨rfl, rfl⟩ := InvoiceStoreOp.registerSmoke.inj heq
        exact .inr rfl
    | saved heq => cases heq
    | bound heq => cases heq
    | transitioned ht => simp [transitionOf] at ht
    | retried heq => exact .inl rfl
    | missed heq => exact .inl rfl
  refine h.stored (by simp [Truthful, transitionOf]) (fun o ho => ?_) (fun o ho => ?_)
    (not_conflict (.invoices (.registerSmoke draft time)) (register_raises draft time) w.db)
  · rcases hrows with hsame | hadded
    · exact h.smoke o (hsame ▸ ho)
    · rw [hadded] at ho
      rcases List.mem_append.mp ho with ho | ho
      · exact h.smoke o ho
      · obtain rfl := List.mem_singleton.mp ho
        exact htag
  · rcases hrows with hsame | hadded
    · exact ⟨o, hsame ▸ ho, rfl, fun _ hid => hid⟩
    · exact ⟨o, hadded ▸ List.mem_append.mpr (.inl ho), rfl, fun _ hid => hid⟩

/-- A binding succeeds. -/
theorem Inv.bind (h : Inv l w) {tag : String} {id : InvoiceId} {time : ℤ}
    (htag : IsSmokeTag tag) (hregistered : Registered w.db tag)
    (hcarries : Carries w.invoices id tag) :
    Steps i l w (.store (.invoices (.bindProviderInvoice tag id time)))
        ((StoreOp.invoices (.bindProviderInvoice tag id time)).apply w.db).1
        { w with db := ((StoreOp.invoices (.bindProviderInvoice tag id time)).apply w.db).2 } ∧
      BoundTo ((StoreOp.invoices (.bindProviderInvoice tag id time)).apply w.db).2 tag id := by
  obtain ⟨o, ho, rfl⟩ := hregistered
  have hkey : ∀ r ∈ w.db ownedInvoices, r.tag = o.tag → r = o :=
    fun r hr hsame => (h.owned.consistent ownedInvoices).eq_of_key hr ho hsame
  have hfree : o.providerInvoiceId = none ∨ o.providerInvoiceId = some id := by
    cases hbound : o.providerInvoiceId with
    | none => exact .inl rfl
    | some id' =>
        exact .inr (congrArg some (h.carries_unique htag (h.owned.bound o ho id' hbound) hcarries))
  have hother : ∀ o' ∈ w.db ownedInvoices, o'.providerInvoiceId = some id → o' = o :=
    fun o' ho' hid => hkey o' ho' (h.owner_unique htag hcarries ho' hid)
  have happly := bind_apply h.owned.consistent ho time hfree hother
  have hrows := congrArg (fun p => p.2 ownedInvoices) happly
  simp only [Database.set_self] at hrows
  refine ⟨h.stored ⟨rfl, hcarries⟩ (fun o' ho' => ?_) (fun o' ho' => ?_) (fun tag' id' => ?_), ?_⟩
  · rw [hrows] at ho'
    rcases mem_assignWhere.mp ho' with ⟨o₀, ho₀, -, rfl⟩ | ⟨ho', -⟩
    · exact h.smoke o₀ ho₀
    · exact h.smoke o' ho'
  · by_cases hsame : o'.tag = o.tag
    · refine ⟨{ o' with providerInvoiceId := some id, updatedAt := time }, ?_, rfl, ?_⟩
      · exact hrows ▸ mem_assignWhere.mpr (.inl ⟨o', ho', by simpa using hsame, rfl⟩)
      · intro id' hid'
        obtain rfl := hkey o' ho' hsame
        rcases hfree with hnone | hbound
        · simp [hnone] at hid'
        · exact hbound.symm.trans hid'
    · exact ⟨o', hrows ▸ mem_assignWhere.mpr (.inr ⟨ho', by simpa using hsame⟩), rfl,
        fun _ hid => hid⟩
  · rw [happly]
    simp
  · refine ⟨{ o with providerInvoiceId := some id, updatedAt := time }, ?_, rfl, rfl⟩
    exact hrows ▸ mem_assignWhere.mpr (.inl ⟨o, ho, by simp, rfl⟩)

theorem Inv.record (h : Inv l w) {jobId : TransferJobId} {r : EventRecord}
    (htrue : ∀ event, r.event = .credited event → TrueEvent w.invoices event) :
    Steps i l w (.store (.events (.record jobId r)))
      ((StoreOp.events (.record jobId r)).apply w.db).1
      { w with db := ((StoreOp.events (.record jobId r)).apply w.db).2 } := by
  have hraised := not_conflict (.events (.record jobId r)) (eventStore_raises (.record jobId r)) w.db
  cases record_changes jobId r h.owned.consistent with
  | untouched _ howned _ =>
      exact h.stored htrue (fun o ho => h.smoke o (howned ▸ ho))
        (fun o ho => ⟨o, howned ▸ ho, rfl, fun _ hid => hid⟩) hraised
  | @owned event o _ _ _ _ howned _ =>
      refine h.stored htrue (fun o' ho' => ?_) (fun o' ho' => ?_) hraised
      · rw [howned] at ho'
        rcases mem_assignWhere.mp ho' with ⟨o₀, ho₀, -, rfl⟩ | ⟨ho', -⟩
        · exact h.smoke o₀ ho₀
        · exact h.smoke o' ho'
      · rw [howned]
        refine ⟨_, List.mem_map_of_mem ho', ?_, fun id hid => ?_⟩
        · split_ifs <;> rfl
        · -- a row that is bound is not bound again
          simp [hid]

theorem Inv.ignored (h : Inv l w) {r : EventRecord} :
    Steps i l w (.store (.events (.recordIgnoredWorkspace r)))
      ((StoreOp.events (.recordIgnoredWorkspace r)).apply w.db).1
      { w with db := ((StoreOp.events (.recordIgnoredWorkspace r)).apply w.db).2 } := by
  have howned := StoreOp.apply_frame (.events (.recordIgnoredWorkspace r)) (u := ownedInvoices)
    (by simp [StoreOp.tables, EventStoreOp.tables]) w.db
  exact h.stored trivial (fun o ho => h.smoke o (howned ▸ ho))
    (fun o ho => ⟨o, howned ▸ ho, rfl, fun _ hid => hid⟩)
    (not_conflict (.events (.recordIgnoredWorkspace r))
      (eventStore_raises (.recordIgnoredWorkspace r)) w.db)

/-- A creation for a tag that no invoice has. -/
theorem Inv.create (h : Inv l w) {draft : InvoiceDraft} {answer : SdkAnswer SdkInvoice}
    {held : List HeldInvoice} (habsent : carrying draft.tag w.invoices = [])
    (hcreated : InvoiceCreated (fun id => ∀ x ∈ w.invoices, x.id ≠ id) (fun _ => True) w.invoices
      (invoiceRequest draft) answer held) :
    Steps none l w (.invoiceCreate (invoiceRequest draft)) answer { w with invoices := held } := by
  have hunraised : ∀ e ∈ (⟨none, .invoiceCreate (invoiceRequest draft), answer⟩ :: l : CallLog),
      ¬ Conflicted e := conflicted_cons h id
  refine ⟨⟨h.owned.mono hcreated.subset, h.smoke, ?_, ?_, hunraised⟩,
    ⟨(Lasts.refl w).owners, hcreated.subset⟩, fun hi => absurd rfl hi⟩
  · rcases hcreated.added with hsame | ⟨id, hfresh, hadded⟩
    · exact hsame ▸ h.alone
    · intro x hx tag hxtag hsmoke
      rw [hadded] at hx
      rcases List.mem_append.mp hx with hx | hx
      · obtain ⟨htags, hunique⟩ := h.alone x hx tag hxtag hsmoke
        refine ⟨htags, fun y hy hid => ?_⟩
        rw [hadded] at hy
        rcases List.mem_append.mp hy with hy | hy
        · exact hunique y hy hid
        · obtain rfl := List.mem_singleton.mp hy
          exact absurd hid.symm (hfresh x hx)
      · obtain rfl := List.mem_singleton.mp hx
        refine ⟨by rw [List.mem_singleton.mp hxtag]; rfl, fun y hy hid => ?_⟩
        rw [hadded] at hy
        rcases List.mem_append.mp hy with hy | hy
        · exact absurd hid (hfresh y hy)
        · exact List.mem_singleton.mp hy
  · rcases hcreated.added with hsame | ⟨id, -, hadded⟩
    · exact hsame ▸ h.once
    · intro tag hsmoke
      change (carrying tag held).length ≤ 1
      rw [hadded]
      by_cases hself : tag = draft.tag
      · subst hself
        unfold carrying at habsent ⊢
        rw [List.filter_append, habsent]
        exact List.length_filter_le _ _
      · rw [carrying_append (by simpa [invoiceRequest] using hself)]
        exact h.once tag hsmoke

theorem Called.steps (h : Inv l w) {call : Call} {r : call.Answer} (hcall : Called i w call)
    (hp : Performs answeringProvider (fun _ => True) w call r w') : Steps i l w call r w' := by
  have hquiet : ¬ Conflicted (⟨i, call, r⟩ : Entry (Option ℕ) Call Call.Answer) → w' = w →
      Steps i l w call r w' := by
    rintro hr rfl
    exact ⟨⟨h.owned, h.smoke, h.alone, h.once, conflicted_cons h hr⟩, .refl _, fun _ => rfl⟩
  cases hcall with
  | now => exact hquiet id hp.2
  | query => exact hquiet id hp.2
  | register htag =>
      obtain ⟨rfl, rfl⟩ := hp
      exact h.register htag
  | bind htag hregistered hcarries =>
      obtain ⟨rfl, rfl⟩ := hp
      exact (h.bind htag hregistered hcarries).1
  | record htrue =>
      obtain ⟨rfl, rfl⟩ := hp
      exact h.record htrue
  | ignored =>
      obtain ⟨rfl, rfl⟩ := hp
      exact h.ignored
  | create hi _ habsent =>
      obtain ⟨held, hcreated, rfl⟩ := hp
      subst hi
      exact h.create habsent hcreated

end

/-! ### The system -/

/-- What a smoke batch returned. -/
structure SmokeResult where
  reference : String
  count : ℕ
  invoices : List ProviderInvoice
deriving Repr, DecidableEq

def smokeBatch (gen : Generators) (cfg : TrialSettings) (space reference : String) (count : ℕ)
    (amount : ℤ) : Service (Option SmokeResult) := do
  let (invoices, _) ← runSmokeBatch gen cfg space reference count amount
  pure (some ⟨reference, count, invoices⟩)

def deliver (jobId : TransferJobId) (delivery : Delivery) : Service (Option SmokeResult) := do
  let _ ← receive jobId delivery
  pure none

/-- One process runs the smoke batches, the others deliver what is so of held invoices. -/
inductive Admitted (gen : Generators) (space : String) (w : World) :
    Option ℕ → Service (Option SmokeResult) → Prop
  | batch (cfg : TrialSettings) (reference : String) (count : ℕ) (amount : ℤ) :
      Admitted gen space w none (smokeBatch gen cfg space reference count amount)
  | delivery (n : ℕ) (jobId : TransferJobId) (delivery : Delivery) :
      TrueDelivery w.invoices delivery → Admitted gen space w (some n) (deliver jobId delivery)

def system (gen : Generators) (space : String) :
    System (Option ℕ) Call Call.Answer Failure (Option SmokeResult) World where
  admits _ w i p := Admitted gen space w i p
  exec _ w _ call r w' := Performs answeringProvider (fun _ => True) w call r w'
  drift _ w w' := w'.invoices = w.invoices ∧ Reordered w.db w'.db
  dies _ w _ w' := w' = w

def protocol (gen : Generators) (space : String) :
    Protocol (Option ℕ) Call Call.Answer Failure (Option SmokeResult) World where
  toSystem := system gen space
  inv := Inv
  rely i _ w _ w' := Lasts w w' ∧ (i = none → w'.invoices = w.invoices)
  demand i call _ w := Called i w call

section
variable {gen : Generators} {space : String}

theorem Lasts.reordered {w w' : World} (hsame : w'.invoices = w.invoices)
    (hdb : Reordered w.db w'.db) : Lasts w w' :=
  ⟨fun o ho => ⟨o, hdb.mem.mpr ho, rfl, fun _ hid => hid⟩, fun _ hx => hsame ▸ hx⟩

theorem sound : (protocol gen space).Sound where
  rely_refl _ _ w := ⟨.refl w, fun _ => rfl⟩
  rely_trans _ _ _ _ _ _ _ h h' := ⟨h.1.trans h'.1, fun hi => (h'.2 hi).trans (h.2 hi)⟩
  drift_keeps _ _ _ h hdrift :=
    ⟨h.reordered hdrift.1 hdrift.2, fun _ => ⟨.reordered hdrift.1 hdrift.2, fun _ => hdrift.1⟩⟩
  dies_keeps := by
    rintro l w i w' h rfl
    exact ⟨h, fun _ _ => ⟨.refl _, fun _ => rfl⟩⟩

/-- One call of a process. -/
theorem triple {i : Option ℕ} {pre : Fact (Option ℕ) World} {call : Call}
    {result : call.Answer → Fact (Option ℕ) World} (hstable : (protocol gen space).Stable i pre)
    (hcalled : ∀ l w, pre l w → Called i w call)
    (hresult : ∀ l w r w', Inv l w → pre l w → Lasts w w' →
      Performs answeringProvider (fun _ => True) w call r w' → result r (⟨i, call, r⟩ :: l) w') :
    (protocol gen space).Triple i pre call result where
  stable := hstable
  demand l w hpre _ := hcalled l w hpre
  keeps l w r w' hpre hw hp := by
    have hsteps := (hcalled l w hpre).steps hw hp
    refine ⟨hsteps.inv, fun j hj => ⟨hsteps.lasts, fun hnone => hsteps.others fun hi => ?_⟩⟩
    exact hj (hnone.trans hi.symm)
  result l w r w' hpre hw hp :=
    hresult l w r w' hw hpre ((hcalled l w hpre).steps hw hp).lasts hp

/-! ### What a batch knows -/

/-- The tags of the invoices so far are bound to them. -/
def Recorded (invoices : List ProviderInvoice) (w : World) : Prop :=
  ∀ x ∈ invoices, BoundTo w.db x.tag x.id ∧ Carries w.invoices x.id x.tag

def smokeFacts : SmokeFacts (Option ℕ) World where
  recorded invoices _ w := Recorded invoices w
  registered invoices tag _ w := Recorded invoices w ∧ IsSmokeTag tag ∧ Registered w.db tag
  absent invoices tag _ w := (Recorded invoices w ∧ IsSmokeTag tag ∧ Registered w.db tag) ∧
    carrying tag w.invoices = []
  found invoices tag id _ w := (Recorded invoices w ∧ IsSmokeTag tag ∧ Registered w.db tag) ∧
    Carries w.invoices id tag

theorem Recorded.lasts {w w' : World} {invoices : List ProviderInvoice} (h : Recorded invoices w)
    (hw : Lasts w w') : Recorded invoices w' :=
  fun x hx => ⟨hw.bound (h x hx).1, (h x hx).2.mono hw.invoices⟩

theorem registered_lasts {w w' : World} {invoices : List ProviderInvoice} {tag : String}
    (h : Recorded invoices w ∧ IsSmokeTag tag ∧ Registered w.db tag) (hw : Lasts w w') :
    Recorded invoices w' ∧ IsSmokeTag tag ∧ Registered w'.db tag :=
  ⟨h.1.lasts hw, h.2.1, hw.registered h.2.2⟩

theorem smokeSteps :
    SmokeSteps (protocol gen space) none (fun draft => IsSmokeTag draft.tag) smokeFacts where
  recorded_stable _ _ _ _ _ h hr _ := h.lasts hr.1
  found_stable _ _ _ _ _ _ _ h hr _ := ⟨registered_lasts h.1 hr.1, h.2.mono hr.1.invoices⟩
  now invoices := triple (fun _ _ _ _ h hr _ => h.lasts hr.1) (fun _ _ _ => .now)
    fun _ _ _ _ _ h hw _ => h.lasts hw
  nowFound invoices tag id := triple
    (fun _ _ _ _ h hr _ => ⟨registered_lasts h.1 hr.1, h.2.mono hr.1.invoices⟩)
    (fun _ _ _ => .now) fun _ _ _ _ _ h hw _ => ⟨registered_lasts h.1 hw, h.2.mono hw.invoices⟩
  register invoices draft time htag := by
    refine triple (fun _ _ _ _ h hr _ => h.lasts hr.1) (fun _ _ _ => .register htag)
      fun l w r w' _ h hw hp => ?_
    obtain ⟨rfl, rfl⟩ := hp
    cases hr : ((StoreOp.invoices (.registerSmoke draft time)).apply w.db).1 with
    | error e => trivial
    | ok v => exact ⟨h.lasts hw, htag, register_registered hr⟩
  registerFound invoices draft id time htag := by
    refine triple (fun _ _ _ _ h hr _ => ⟨registered_lasts h.1 hr.1, h.2.mono hr.1.invoices⟩)
      (fun _ _ _ => .register htag) fun l w r w' _ h hw _ => ?_
    cases r with
    | error e => trivial
    | ok v => exact ⟨registered_lasts h.1 hw, h.2.mono hw.invoices⟩
  query invoices draft htag := by
    refine triple (fun _ _ _ _ h hr _ => registered_lasts h hr.1) (fun _ _ _ => .query)
      fun l w answer w' _ h hw hp => ?_
    obtain ⟨hanswers, rfl⟩ := hp
    match answer, hanswers with
    | [], hanswers =>
        refine ⟨h, carrying_nil.mpr fun x hx => ?_⟩
        obtain ⟨tag, hmem, hnot⟩ := hanswers.complete Nat.one_pos rfl x hx
        exact List.mem_singleton.mp hmem ▸ hnot
    | .error _ :: _, _ => trivial
    | .ok invoice :: _, hanswers => exact ⟨h, hanswers.listed.found rfl⟩
  create invoices draft htag := by
    refine triple (fun l w l' w' h hr _ => ?_) (fun _ w h => .create rfl htag h.2)
      fun l w answer w' _ h hw hp => ?_
    · refine ⟨registered_lasts h.1 hr.1, ?_⟩
      rw [hr.2 rfl]
      exact h.2
    · obtain ⟨held, hcreated, rfl⟩ := hp
      have hregistered := registered_lasts h.1 hw
      match answer, hcreated with
      | [], _ => exact hregistered
      | .error _ :: _, _ => exact hregistered
      | .ok invoice :: _, hcreated =>
          exact ⟨hregistered, hcreated.answered rfl (by simp [invoiceRequest])⟩
  bind invoices tag id time := by
    refine triple (fun _ _ _ _ h hr _ => ⟨registered_lasts h.1 hr.1, h.2.mono hr.1.invoices⟩)
      (fun _ _ h => .bind h.1.2.1 h.1.2.2 h.2) fun l w r w' hi h hw hp => ?_
    obtain ⟨rfl, rfl⟩ := hp
    have hbound : BoundTo ((StoreOp.invoices (.bindProviderInvoice tag id time)).apply w.db).2
        tag id := (hi.bind (i := none) h.1.2.1 h.1.2.2 h.2).2
    cases ((StoreOp.invoices (.bindProviderInvoice tag id time)).apply w.db).1 with
    | error e => trivial
    | ok v =>
        intro x hx
        rcases List.mem_append.mp hx with hx | hx
        · exact h.1.1.lasts hw x hx
        · obtain rfl := List.mem_singleton.mp hx
          exact ⟨hbound, h.2⟩

/-! ### Every run -/

theorem trueDelivery_mono {w w' : World} {delivery : Delivery}
    (h : TrueDelivery w.invoices delivery) (hw : Lasts w w') :
    TrueDelivery w'.invoices delivery := by
  cases delivery with
  | unexpectedWorkspace event payloadHash => trivial
  | verified event payloadHash =>
      cases event with
      | ignored event => trivial
      | lifecycle event => trivial
      | credited event =>
          obtain ⟨x, hx, hrest⟩ := h
          exact ⟨x, hw.invoices x hx, hrest⟩

theorem deliveryRules (n : ℕ) (jobId : TransferJobId) (delivery : Delivery) :
    DeliveryRules (protocol gen space) (some n) jobId delivery
      (fun _ w => TrueDelivery w.invoices delivery)
      fun _ _ w => TrueDelivery w.invoices delivery where
  now := triple (fun _ _ _ _ h hr _ => trueDelivery_mono h hr.1) (fun _ _ _ => .now)
    fun _ _ _ _ _ h hw _ => trueDelivery_mono h hw
  record event payloadHash time heq := by
    subst heq
    refine triple (fun _ _ _ _ h hr _ => trueDelivery_mono h hr.1)
      (fun _ w h => .record fun credit hcredit => ?_) fun _ _ _ _ _ _ _ _ => trivial
    obtain rfl : event = .credited credit := hcredit
    exact h
  ignored event payloadHash time _ :=
    triple (fun _ _ _ _ h hr _ => trueDelivery_mono h hr.1) (fun _ _ _ => .ignored)
      fun _ _ _ _ _ _ _ _ => trivial

/-- The invoices are those of the ordinals, in their order, and their tags are bound to
them. -/
structure Returned (gen : Generators) (space : String) (r : SmokeResult) (w : World) : Prop where
  tags : r.invoices.map ProviderInvoice.tag =
    (List.range r.count).map (smokeTag gen space r.reference)
  recorded : Recorded r.invoices w

abbrev Ended (gen : Generators) (space : String) : Except Failure (Option SmokeResult) →
    Log (Option ℕ) Call Call.Answer → World → Prop :=
  Returns fun result _ w => ∀ r, result = some r → Returned gen space r w

theorem kept : (protocol gen space).Kept Unconditionally fun _ => Ended gen space where
  toSound := sound
  begins := by
    rintro l w i p - - hadmitted
    cases hadmitted with
    | batch cfg reference count amount =>
        have hbegin : smokeFacts.recorded [] l w := fun x hx => absurd hx (by simp)
        refine .seq sound (smokeSteps.runSmokeBatch_ensures sound (fun _ _ => ⟨_, rfl⟩) count
          hbegin) fun result l w hresult => .returned (fun l w l' w' h hr _ => ?_) ?_
        · intro r heq
          obtain ⟨htags, hrecorded⟩ := h r heq
          exact ⟨htags, hrecorded.lasts hr.1⟩
        · intro r heq
          obtain rfl := Option.some.inj heq
          exact ⟨hresult.1, hresult.2⟩
    | delivery n jobId delivery htrue =>
        refine .seq sound ((deliveryRules n jobId delivery).receive_ensures htrue)
          fun _ l w _ => .returned (fun _ _ _ _ _ _ _ r heq => ?_) fun r heq => ?_
        · cases heq
        · cases heq

/-- What a batch has returned is so in every later state. -/
theorem returned_lasts {w : World} (hw : Inv [] w)
    {c d : Config (Option ℕ) Call Call.Answer Failure (Option SmokeResult) World}
    (hc : Runs (system gen space) (.initial w) c) (hd : Runs (system gen space) c d)
    {r : SmokeResult} (hr : c.procs none = some (.done (some r))) :
    Returned gen space r d.state := by
  have hreturned : Returned gen space r c.state := by
    obtain ⟨hinv, hall⟩ := kept.ensured hw hc fun _ => trivial
    have hstands := hall none
    rw [hr] at hstands
    exact hstands _ _ (sound.rely_refl _ _ _) hinv r rfl
  have hlasts : Lasts c.state d.state :=
    kept.rel hw Lasts .refl (fun _ _ _ h h' => h.trans h')
      (fun _ _ _ _ _ _ hi hcalled hp => (hcalled.steps hi hp).lasts)
      (fun _ _ _ _ hdrift => .reordered hdrift.1 hdrift.2)
      (fun _ w _ _ _ hdies => hdies ▸ .refl w) hc hd
  exact ⟨hreturned.tags, hreturned.recorded.lasts hlasts⟩

/-- Two batches with one reference return the same invoices, as far as both go. -/
theorem returned_agree {l : CallLog} {w : World} (hw : Inv l w) {r r' : SmokeResult}
    (hr : Returned gen space r w) (hr' : Returned gen space r' w)
    (href : r.reference = r'.reference) {k : ℕ} (hk : k < r.count) (hk' : k < r'.count) :
    r.invoices[k]? = r'.invoices[k]? := by
  have hentry : ∀ r : SmokeResult, Returned gen space r w → k < r.count →
      ∃ x ∈ r.invoices, r.invoices[k]? = some x ∧ x.tag = smokeTag gen space r.reference k := by
    intro r hr hk
    have htag : (r.invoices.map ProviderInvoice.tag)[k]? =
        some (smokeTag gen space r.reference k) := by
      rw [hr.tags]
      simp [hk]
    rw [List.getElem?_map, Option.map_eq_some_iff] at htag
    obtain ⟨x, hx, htag⟩ := htag
    exact ⟨x, List.mem_of_getElem? hx, hx, htag⟩
  obtain ⟨⟨id, tag⟩, hx, hget, rfl⟩ := hentry r hr hk
  obtain ⟨⟨id', tag'⟩, hx', hget', htag'⟩ := hentry r' hr' hk'
  rw [← href] at htag'
  obtain rfl : tag' = _ := htag'
  rw [hget, hget']
  have hid := hw.carries_unique ⟨_, rfl⟩ (hr.recorded _ hx).2 (hr'.recorded _ hx').2
  exact congrArg (fun id => some (ProviderInvoice.mk id _)) hid

/-- Smoke batches are idempotent by reference: one invoice for a tag, the same invoices for
every batch that returns, each bound to its tag, and never a conflict. -/
theorem batches_idempotent {w : World} (hw : w.db = emptyDatabase)
    (hnone : ∀ x ∈ w.invoices, ∀ tag ∈ x.request.tags, ¬ IsSmokeTag tag)
    {c d : Config (Option ℕ) Call Call.Answer Failure (Option SmokeResult) World}
    (hc : Runs (system gen space) (.initial w) c) (hd : Runs (system gen space) c d) :
    (∀ tag, IsSmokeTag tag → (carrying tag c.state.invoices).length ≤ 1) ∧
    (∀ r, c.procs none = some (.done (some r)) →
      r.invoices.map ProviderInvoice.tag =
        (List.range r.count).map (smokeTag gen space r.reference) ∧
      ∀ x ∈ r.invoices, Carries c.state.invoices x.id x.tag ∧ BoundTo d.state.db x.tag x.id) ∧
    (∀ r r', c.procs none = some (.done (some r)) → d.procs none = some (.done (some r')) →
      r.reference = r'.reference → ∀ k < r.count, k < r'.count →
        r.invoices[k]? = r'.invoices[k]?) ∧
    ∀ e ∈ c.log, ¬ Conflicted e := by
  have hempty : Inv [] w := by
    refine ⟨.of_empty (hw ▸ emptyDatabase_consistent) (by simp [hw, emptyDatabase])
      (by simp [hw, emptyDatabase]) _, by simp [hw, emptyDatabase],
      fun x hx tag htag hsmoke => absurd hsmoke (hnone x hx tag htag), fun tag hsmoke => ?_,
      by simp⟩
    have habsent := carrying_nil.mpr fun x hx htag => hnone x hx tag htag hsmoke
    rw [habsent]
    exact Nat.zero_le _
  have hinv : Inv c.log c.state := kept.inv hempty hc
  have hinv' : Inv d.log d.state := kept.inv hempty (hc.trans hd)
  refine ⟨hinv.once, fun r hr => ?_, fun r r' hr hr' href k hk hk' => ?_, hinv.unraised⟩
  · have hreturned := returned_lasts hempty hc .refl hr
    have hlater := returned_lasts hempty hc hd hr
    exact ⟨hreturned.tags, fun x hx => ⟨(hreturned.recorded x hx).2, (hlater.recorded x hx).1⟩⟩
  · exact returned_agree hinv' (returned_lasts hempty hc hd hr)
      (returned_lasts hempty (hc.trans hd) .refl hr') href hk hk'

end

/-! ### A batch that is extended -/

/-- A provider that holds nothing. -/
def smokeWorld : World := ⟨emptyDatabase, [], [], 0⟩

def firstTag : String := smokeTag plainGenerators "sandbox" "ref" 0

def firstCredit : CreditedInvoiceEvent where
  eventId := "e"
  invoiceId := "i"
  amount := 5000
  fee := 50
  workspaceId := "w"
  tags := [firstTag]

/-- The answer to the first creation is lost, and a second lookup finds the invoice. -/
def firstBatch : List (Move (Option ℕ) Call Call.Answer Failure (Option SmokeResult) World Script) :=
  [.begin none (smokeBatch plainGenerators {} "sandbox" "ref" 1 5000),
    .call none (.clock 0), .call none .commit, .call none .lookup,
    .call none (.lost "i" .unknownError), .call none .lookup, .call none (.clock 0),
    .call none .commit, .call none .commit]

/-- The invoice is credited while a batch with two invoices goes on. -/
def secondBatch : List (Move (Option ℕ) Call Call.Answer Failure (Option SmokeResult) World Script) :=
  [.begin none (smokeBatch plainGenerators {} "sandbox" "ref" 2 5000),
    .begin (some 0) (deliver "j" (.verified (.credited firstCredit) "h"))
      (fun _ w => decide (TrueEvent w.invoices firstCredit)),
    .call none (.clock 1), .call none .commit, .call (some 0) (.clock 1), .call none .lookup,
    .call (some 0) .commit, .call none .commit, .call none .commit, .call none (.clock 2),
    .call none .commit, .call none .lookup, .call none (.created "k"), .call none (.clock 3),
    .call none .commit, .call none .commit]

theorem batches_allowed (space : String) (hspace : space = "sandbox") :
    ∀ m ∈ firstBatch ++ secondBatch, m.Allowed (system plainGenerators space) := by
  subst hspace
  have hbatch := fun w count => @Admitted.batch plainGenerators "sandbox" w {} "ref" count 5000
  simp [firstBatch, secondBatch, Move.Allowed, system, hbatch]
  exact fun w htrue => .delivery 0 "j" _ htrue

theorem honest_answering : HonestInvoices (ι := Option ℕ) {} answeringProvider := by
  refine .of_created (fun held _ id => ∀ x ∈ held, x.id ≠ id) (fun _ => True)
    (fun _ _ _ _ h => h) (fun held request id h => by simpa [freshId] using h)
    (fun _ _ => trivial) (fun w limit tags => ⟨listedInvoices_listed _ _ _, fun hlimit h x hx => ?_⟩)
    fun w limit tags error => ⟨fun item hitem => by simp at hitem, by simp⟩
  by_contra hall
  push Not at hall
  have hmem : x ∈ w.invoices.filter fun x => tags.all fun tag => x.request.tags.contains tag :=
    List.mem_filter.mpr ⟨hx, by simpa using hall⟩
  have hlength := congrArg List.length h
  simp only [listedInvoices, List.length_map, List.length_take, List.length_nil] at hlength
  have hpos := List.length_pos_of_mem hmem
  omega

theorem honest_unasked : HonestTransfers (ι := Option ℕ) {} answeringProvider :=
  .of_any (fun _ _ _ _ => trivial) fun _ _ _ _ => trivial

/-- What the smoke process has returned. -/
def resultOf (c : Config (Option ℕ) Call Call.Answer Failure (Option SmokeResult) World) :
    Option SmokeResult :=
  match c.procs none with
  | some (.done r) => r
  | _ => none

theorem procs_of_result {c : Config (Option ℕ) Call Call.Answer Failure (Option SmokeResult) World}
    {r : SmokeResult} (h : resultOf c = some r) : c.procs none = some (.done (some r)) := by
  unfold resultOf at h
  split at h
  · next hprocs => exact h ▸ hprocs
  · cases h

theorem batches_idempotent_extended :
    ∃ (c d : Config (Option ℕ) Call Call.Answer Failure (Option SmokeResult) World) (r r' : SmokeResult),
      r.count = 1 ∧ r'.count = 2 ∧ r.invoices[0]? = r'.invoices[0]? ∧
      (∀ tag, IsSmokeTag tag → (carrying tag d.state.invoices).length ≤ 1) ∧
      (∀ x ∈ r.invoices, Carries c.state.invoices x.id x.tag ∧ BoundTo d.state.db x.tag x.id) ∧
      ∀ e ∈ d.log, ¬ Conflicted e := by
  have hplay : ((playAll (scripted {}) (.initial smokeWorld) firstBatch).bind fun c =>
      (playAll (scripted {}) c secondBatch).map fun d => (resultOf c, resultOf d)) =
        some (some ⟨"ref", 1, [⟨"i", firstTag⟩]⟩, some ⟨"ref", 2, [⟨"i", firstTag⟩,
          ⟨"k", smokeTag plainGenerators "sandbox" "ref" 1⟩]⟩) := by decide
  obtain ⟨c, hc, hrest⟩ := Option.bind_eq_some_iff.mp hplay
  obtain ⟨d, hd, hresults⟩ := Option.map_eq_some_iff.mp hrest
  obtain ⟨hr, hr'⟩ := Prod.mk.inj hresults
  have hanswer : ∀ l w i call script r, scripted {} l w i call script = some r →
      (system plainGenerators "sandbox").exec l w i call r.1 r.2 :=
    fun _ _ _ _ _ _ h => (scripted_performs honest_answering honest_unasked h).mono
      fun _ _ => trivial
  have hruns := playAll_runs hanswer
    (fun m hm => batches_allowed "sandbox" rfl m (List.mem_append.mpr (.inl hm))) hc
  have hruns' := playAll_runs hanswer
    (fun m hm => batches_allowed "sandbox" rfl m (List.mem_append.mpr (.inr hm))) hd
  have hempty : smokeWorld.db = emptyDatabase := rfl
  have hnone : ∀ x ∈ smokeWorld.invoices, ∀ tag ∈ x.request.tags, ¬ IsSmokeTag tag := by
    simp [smokeWorld]
  obtain ⟨-, hreturned, hagree, -⟩ := batches_idempotent hempty hnone hruns hruns'
  obtain ⟨honce, -, -, hunraised⟩ := batches_idempotent hempty hnone (hruns.trans hruns') .refl
  exact ⟨c, d, _, _, rfl, rfl, hagree _ _ (procs_of_result hr) (procs_of_result hr') rfl 0
    Nat.one_pos Nat.two_pos, honce, (hreturned _ (procs_of_result hr)).2, hunraised⟩

end StarkbankTrial.SmokeBatches
