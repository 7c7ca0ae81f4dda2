import StarkbankTrial.TrialInvariants

/-!
# The reported state of trials

Starts, ticks, reconcile passes, smoke runs and deliveries run one after another, each
possibly cut off between two transactions, with a provider that may answer anything. What
the tables say of drafts, batches and trials then agrees in every reachable state.
-/
namespace StarkbankTrial.CoherentTrials
open Domain InteractivePrograms InterleavedRuns RelationalTables DatabaseSchema
open DatabaseSchema.Table
open EventRecording InvoiceRecording BatchClaims StoreOperations InvoiceChanges BatchChanges ExternalCalls
open ProviderClient Services WorkerRules TrialRules ScriptedRuns CreatedDrafts InvoiceOnce
open UndisturbedServices TrialInvariants

/-- What a call may write. -/
def Permitted (gen : Generators) (db : Database Row) : Call → Prop
  | .store (.invoices op) => PermittedWrite gen db op
  | .store (.trials (.create _ _ command)) => command.schedule.length = 8
  | _ => True

theorem store_fitting {gen : Generators} {db : Database Row} (h : Fitting gen db) {op : StoreOp}
    (hop : Permitted gen db (.store op)) :
    Fitting gen (op.apply db).2 ∧ StaysCompleted db (op.apply db).2 := by
  cases op with
  | invoices op =>
      by_cases hsettle : ∃ batchId now, op = .settle batchId now
      · obtain ⟨batchId, now, rfl⟩ := hsettle
        exact settle_fitting h batchId now
      · push Not at hsettle
        refine ⟨invoices_fitting h hsettle hop, .of_eq (StoreOp.apply_frame (.invoices op) ?_ db)⟩
        cases op with
        | settle batchId now => exact absurd rfl (hsettle batchId now)
        | _ => simp [StoreOp.tables, InvoiceStoreOp.tables]
  | trials op =>
      cases op with
      | create uuid5 runId command => exact create_fitting h uuid5 runId hop
      | claimDueBatch claim => exact claim_fitting h claim
  | transfers op =>
      have hframe : ∀ u, u ≠ transferJobs → ((StoreOp.transfers op).apply db).2 u = db u :=
        fun u hu => StoreOp.apply_frame (.transfers op)
          (by cases op <;> simp [StoreOp.tables, TransferStoreOp.tables, hu]) db
      have hdrafts := hframe invoiceDrafts (by decide)
      have howned := hframe ownedInvoices (by decide)
      have hbatches := hframe invoiceBatches (by decide)
      refine ⟨h.advanced (StoreOp.apply_consistent h.consistent (.transfers op))
        (h.paired.agreed.of_eq hdrafts howned) (.of_eq hdrafts)
        (fun o ho id hdraft => ⟨o, howned ▸ ho, hdraft, rfl⟩) hbatches
        (hframe trialRuns (by decide)), .of_eq hbatches⟩
  | events op =>
      exact ⟨events_fitting h op, .of_eq (StoreOp.apply_frame (.events op)
        (by cases op <;> simp [StoreOp.tables, EventStoreOp.tables]) db)⟩

theorem performs_fitting {gen : Generators} {w w' : World} (h : Fitting gen w.db) {call : Call}
    {r : call.Answer} (hcall : Permitted gen w.db call)
    (hp : Performs anyProvider (fun _ => True) w call r w') :
    Fitting gen w'.db ∧ StaysCompleted w.db w'.db := by
  have hsame : w'.db = w.db → Fitting gen w'.db ∧ StaysCompleted w.db w'.db :=
    fun hdb => ⟨hdb ▸ h, .of_eq (hdb ▸ rfl)⟩
  cases call with
  | now => exact hsame (hp.2 ▸ rfl)
  | store op =>
      obtain ⟨-, rfl⟩ := hp
      exact store_fitting h hcall
  | invoiceCreate request =>
      obtain ⟨held, -, rfl⟩ := hp
      exact hsame rfl
  | invoiceQuery limit tags => exact hsame (hp.2 ▸ rfl)
  | transferCreate request =>
      obtain ⟨held, -, rfl⟩ := hp
      exact hsame rfl
  | transferQuery limit tags => exact hsame (hp.2 ▸ rfl)

/-! ### The system -/

inductive Admitted (gen : Generators) : Service Unit → Prop
  | start (cfg : TrialSettings) (runId : TrialRunId) (startAt : Option DateTime)
      (counts : List ℤ) : Admitted gen (start gen cfg runId startAt counts).discard
  | tick (cfg : TrialSettings) : Admitted gen (tick gen cfg).discard
  | pass (cfg : TrialSettings) (setOrder : List BatchId → List BatchId) :
      Admitted gen (reconcileInvoices cfg setOrder).discard
  | smoke (cfg : TrialSettings) (space reference : String) (count : ℕ) (amount : ℤ) :
      Admitted gen (runSmokeBatch gen cfg space reference count amount).discard
  | delivery (jobId : TransferJobId) (delivery : Delivery) :
      Admitted gen (receive jobId delivery).discard

def system (gen : Generators) : System Unit Call Call.Answer Failure Unit World where
  admits _ _ _ p := Admitted gen p
  exec _ w _ call r w' := Performs anyProvider (fun _ => True) w call r w'
  drift _ w w' := Reordered w.db w'.db
  dies _ w _ w' := w' = w

def protocol (gen : Generators) : Protocol Unit Call Call.Answer Failure Unit World where
  toSystem := system gen
  inv _ w := Fitting gen w.db
  rely _ l w l' w' := l' = l ∧ Reordered w.db w'.db
  demand _ call _ w := Permitted gen w.db call

section
variable {gen : Generators}

theorem sound : (protocol gen).Sound where
  rely_refl _ _ _ := ⟨rfl, fun _ => .refl _⟩
  rely_trans _ _ _ _ _ _ _ h h' := ⟨h'.1.trans h.1, fun t => (h.2 t).trans (h'.2 t)⟩
  drift_keeps _ _ _ h hdb := ⟨h.reordered hdb, fun _ => ⟨rfl, hdb⟩⟩
  dies_keeps := by
    rintro l w i w' h rfl
    exact ⟨h, fun _ _ => ⟨rfl, fun _ => .refl _⟩⟩

/-! ### Ticks and reconcile passes -/

/-- A draft that was read as waiting is not created. -/
theorem listed_spared {db : Database Row} (hc : metadata.Consistent db) {status : DraftStatus}
    {d : InvoiceDraft} (h : Listed status [d] db) (hstatus : status ≠ .created) :
    ∀ row ∈ db invoiceDrafts, row.id = d.id → row.status ≠ .created := by
  intro row hrow hid
  obtain ⟨row', hrow', rfl, hstatus'⟩ := h.row
  obtain rfl := (hc invoiceDrafts).eq_of_key hrow hrow' hid
  exact fun hcreated => hstatus (hstatus'.symm.trans hcreated)

theorem unissued_permitted {db : Database Row} (hc : metadata.Consistent db) {cfg : TrialSettings}
    {d : InvoiceDraft} (h : Listed .pending [d] db) {time : ℤ} {op : InvoiceStoreOp}
    (hop : Unissued cfg d time op) : PermittedWrite gen db op := by
  have hspared := listed_spared hc h (by simp)
  cases hop with
  | retry => exact ⟨fun id hid => Option.some.inj hid ▸ hspared, by simp, by simp⟩
  | failed => exact ⟨fun id hid => Option.some.inj hid ▸ hspared, by simp, by simp⟩
  | unknownResult => exact ⟨fun id hid => Option.some.inj hid ▸ hspared, by simp, by simp⟩

theorem told_permitted {db : Database Row} (hc : metadata.Consistent db) {cfg : TrialSettings}
    {calm : CallLog → Prop} {l : CallLog} {call : Call} (h : Told calm gen cfg l db call) :
    Permitted gen db call := by
  cases h with
  | now => trivial
  | claim => trivial
  | @save batch time _ hclaimed =>
      refine ⟨by simp [Spares, missing], fun batchId ds hop => ?_, by simp⟩
      obtain ⟨rfl, rfl⟩ := InvoiceStoreOp.save.inj hop
      exact ⟨batch, time, hclaimed, rfl, rfl⟩
  | pending => exact ⟨by simp [Spares, missing], by simp, by simp⟩
  | unknown => exact ⟨by simp [Spares, missing], by simp, by simp⟩
  | lookup => trivial
  | create => trivial
  | created => exact ⟨by simp [Spares, missing], by simp, by simp⟩
  | refused hlisted hrefused => exact unissued_permitted hc hlisted hrefused.unissued
  | @reconcile d found time _ hlisted =>
      have hspared := listed_spared hc hlisted (by simp)
      refine ⟨fun id hid => ?_, by simp, by simp⟩
      cases found with
      | none => exact Option.some.inj hid ▸ hspared
      | some id' => simp [missing] at hid
  | settle => exact ⟨by simp [Spares, missing], by simp, by simp⟩

theorem undisturbed (cfg : TrialSettings) :
    Undisturbed (protocol gen) (fun _ => True) gen cfg where
  toSound := sound
  calms _ _ _ _ := trivial
  relied _ _ _ _ _ h := h
  demand _ _ _ _ h hcall := told_permitted h.consistent hcall
  consistent _ _ h := h.consistent
  performs _ _ _ _ _ _ h := h
  keeps _ _ _ _ _ _ h hcall he := (performs_fitting h (told_permitted h.consistent hcall) he).1

/-! ### The other services -/

/-- A call that may be made at any time, with what is so in any case. -/
theorem free_triple (call : Call) (fact : Prop) (hcall : ∀ db, fact → Permitted gen db call) :
    (protocol gen).Triple () (fun _ _ => fact) call fun _ _ _ => fact where
  stable _ _ _ _ h _ _ := h
  demand _ w h _ := hcall w.db h
  keeps _ w _ _ h hw he := ⟨(performs_fitting hw (hcall w.db h) he).1, fun _ hj => absurd rfl hj⟩
  result _ _ _ _ h _ _ := h

theorem now_triple (fact : Prop) :
    (protocol gen).Triple () (fun _ _ => fact) .now fun _ _ _ => fact :=
  free_triple .now fact fun _ _ => trivial

theorem smoke_tag (x : String) : ¬ IsDraftTag ("trial-smoke:" ++ x) := by
  rintro ⟨y, h⟩
  have hchars := congrArg String.toList h
  simp at hchars

theorem registerSmoke_permitted {db : Database Row} {draft : InvoiceDraft} {time : ℤ} :
    PermittedWrite gen db (.registerSmoke draft time) :=
  ⟨by simp [Spares, missing], by simp, by simp⟩

/-- The tags of smoke invoices are not those of drafts. -/
theorem smokeRules : SmokeRules (protocol gen) () (fun draft => ¬ IsDraftTag draft.tag)
    (fun _ _ => True) fun tag _ _ _ => ¬ IsDraftTag tag where
  base_stable _ _ _ _ h _ _ := h
  found_stable _ _ _ _ _ _ h _ _ := h
  found_base _ _ _ _ _ := trivial
  now := now_triple True
  nowFound tag _ := now_triple (¬ IsDraftTag tag)
  register draft time _ := free_triple (.store (.invoices (.registerSmoke draft time))) True
    fun _ _ => registerSmoke_permitted
  registerFound draft time _ _ :=
    free_triple (.store (.invoices (.registerSmoke draft time))) (¬ IsDraftTag draft.tag)
      fun _ _ => registerSmoke_permitted
  query draft hd := (free_triple (.invoiceQuery 1 [draft.tag]) True fun _ _ => trivial).mono
    fun _ _ _ h => ⟨h, fun _ _ => hd⟩
  create draft hd := (free_triple (.invoiceCreate (invoiceRequest draft)) True
    fun _ _ => trivial).mono fun _ _ _ h => ⟨h, fun _ _ => hd⟩
  bind tag id time := by
    refine (free_triple (.store (.invoices (.bindProviderInvoice tag id time))) (¬ IsDraftTag tag)
      fun db htag => ⟨by simp [Spares, missing], by simp, ?_⟩).mono fun _ _ _ _ => trivial
    rintro _ _ _ ⟨⟩
    exact htag

theorem deliveryRules (jobId : TransferJobId) (delivery : Delivery) :
    DeliveryRules (protocol gen) () jobId delivery (fun _ _ => True) fun _ _ _ => True where
  now := now_triple True
  record event payloadHash time _ := free_triple
    (.store (.events (.record jobId (receivedRecord event payloadHash time)))) True
    fun _ _ => trivial
  ignored event payloadHash time _ := free_triple
    (.store (.events (.recordIgnoredWorkspace (foreignRecord event payloadHash time)))) True
    fun _ _ => trivial

theorem startRules (runId : TrialRunId) :
    StartRules (protocol gen) () gen runId fun _ _ => True where
  now := now_triple True
  create command hlength := free_triple (.store (.trials (.create gen.uuid5 runId command))) True
    fun _ _ => hlength

theorem kept : (protocol gen).Kept Unconditionally fun _ => Anything where
  toSound := sound
  begins := by
    rintro l w ⟨⟩ p - - hadmitted
    cases hadmitted with
    | start cfg runId startAt counts =>
        exact discard_ensures sound ((startRules runId).start_ensures cfg startAt counts trivial)
    | tick cfg => exact discard_ensures sound ((undisturbed cfg).tick_ensures trivial)
    | pass cfg setOrder =>
        exact discard_ensures sound ((undisturbed cfg).pass_ensures setOrder trivial)
    | smoke cfg space reference count amount =>
        exact discard_ensures sound (smokeRules.runSmokeBatch_ensures sound
          (fun _ _ => smoke_tag _) count trivial)
    | delivery jobId delivery =>
        exact discard_ensures sound ((deliveryRules jobId delivery).receive_ensures trivial)

/-! ### Every run -/

/-- The tables fit together. -/
structure Coherent (db : Database Row) : Prop where
  owner : ∀ d ∈ db invoiceDrafts, ∃ o : OwnedInvoiceRow,
    (db ownedInvoices).filter (fun o : OwnedInvoiceRow => o.draftId == some d.id) = [o] ∧
      o.tag = d.tag ∧ o.providerInvoiceId = d.providerInvoiceId
  created : ∀ d ∈ db invoiceDrafts, d.status = .created ↔ d.providerInvoiceId ≠ none
  drafts : ∀ b ∈ db invoiceBatches, draftsOf b.id db = [] ∨
    ((draftsOf b.id db).length : ℤ) = b.targetCount ∧
      ((draftsOf b.id db).map InvoiceDraftRow.ordinal).Perm
        ((List.range b.targetCount.toNat).map fun k : ℕ => (k : ℤ))
  issued : ∀ b ∈ db invoiceBatches, b.status = .completed →
    ((draftsOf b.id db).length : ℤ) = b.targetCount ∧
      ∀ d ∈ draftsOf b.id db, d.status = .created
  eight : ∀ r ∈ db trialRuns, (batchesOf r.id db).length = 8
  completed : ∀ r ∈ db trialRuns,
    r.status = .completed ↔ ∀ b ∈ batchesOf r.id db, b.status = .completed
  degraded : ∀ r ∈ db trialRuns,
    (∃ b ∈ batchesOf r.id db, b.status = .degraded) → r.status = .degraded
  active : ∀ r ∈ db trialRuns, r.activeMarker = some 1 ↔ r.status = .active
  single : ((db trialRuns).filter fun r : TrialRunRow => r.status == .active).length ≤ 1

theorem fitting_coherent {db : Database Row} (h : Fitting gen db) : Coherent db where
  owner d hd := by
    obtain ⟨o, ho, hdraft⟩ := h.paired.agreed.owner d hd
    refine ⟨o, ?_, ?_, h.paired.agreed.same d hd o ho hdraft⟩
    · refine (h.consistent ownedInvoices).filter_eq_singleton (fun a b ha hb => ?_) ho (by simp [hdraft])
      have hshared : sameNonNull a.draftId b.draftId = true :=
        sameNonNull_iff.mpr ⟨d.id, beq_iff_eq.mp ha, beq_iff_eq.mp hb⟩
      simp [metadata, uniqueConflict, hshared]
    · obtain ⟨d', hd', hid, htag⟩ := h.paired.stored o ho d.id hdraft
      obtain rfl := (h.consistent invoiceDrafts).eq_of_key hd' hd hid
      exact htag.symm
  created := h.paired.agreed.status
  drafts b hb := by
    by_cases hsome : ∃ d ∈ db invoiceDrafts, d.batchId = b.id
    · exact .inr ⟨draftsOf_length h hb hsome, ordinals_perm h hb hsome⟩
    · push Not at hsome
      exact .inl (List.filter_eq_nil_iff.mpr fun d hd hid => hsome d hd (beq_iff_eq.mp hid))
  issued b hb hstatus := by
    obtain ⟨hsome, hcreated⟩ := h.tracked.issued b hb hstatus
    refine ⟨draftsOf_length h hb hsome, fun d hd => ?_⟩
    obtain ⟨hd, hid⟩ := List.mem_filter.mp hd
    exact hcreated d hd (beq_iff_eq.mp hid)
  eight := h.tracked.eight
  completed r hr := by
    rw [h.tracked.completed r hr]
    simp [batchesOf]
  degraded r hr := by
    rintro ⟨b, hb, hstatus⟩
    obtain ⟨hb, hid⟩ := List.mem_filter.mp hb
    exact h.tracked.degraded r hr b hb (beq_iff_eq.mp hid) hstatus
  active := h.tracked.active
  single := by
    have hmarked : (db trialRuns).filter (fun r : TrialRunRow => r.status == .active) =
        (db trialRuns).filter fun r : TrialRunRow => r.activeMarker == some 1 := by
      refine List.filter_congr fun r hr => ?_
      rw [Bool.eq_iff_iff, beq_iff_eq, beq_iff_eq]
      exact (h.tracked.active r hr).symm
    rw [hmarked]
    refine (h.consistent trialRuns).filter_key fun a b ha hb => ?_
    have hshared : sameNonNull a.activeMarker b.activeMarker = true :=
      sameNonNull_iff.mpr ⟨1, beq_iff_eq.mp ha, beq_iff_eq.mp hb⟩
    simp [metadata, uniqueConflict, hshared]

/-- In every reachable state the tables fit together, and what is completed there stays
completed. -/
theorem coherent {w : World} (hw : w.db = emptyDatabase)
    {c d : Config Unit Call Call.Answer Failure Unit World}
    (hc : Runs (system gen) (.initial w) c) (hd : Runs (system gen) c d) :
    Coherent c.state.db ∧ StaysCompleted c.state.db d.state.db := by
  have hinv : Fitting gen w.db := hw ▸ fitting_empty
  refine ⟨fitting_coherent (kept.inv hinv hc), ?_⟩
  refine kept.rel hinv (fun s t => StaysCompleted s.db t.db) (fun _ => .of_eq rfl)
    (fun _ _ _ h h' => h.trans h') ?_ ?_ ?_ hc hd
  · intro l s i call r t hs hcall hp
    exact (performs_fitting hs hcall hp).2
  · exact fun l s t _ hdb b hb hstatus => ⟨b, hdb.mem.mpr hb, rfl, hstatus⟩
  · rintro l s i t - rfl
    exact .of_eq rfl

end

/-! ### A batch that is completed -/

def emptyWorld : World := ⟨emptyDatabase, [], [], 0⟩

/-- One draft is created, and written. -/
def issuedDraft (id : InvoiceId) : List (ScriptedMove Unit) := [.call () (.created id), .call () .commit]

/-- A trial is started, and its first batch is issued. -/
def completedBatch : List (ScriptedMove Unit) :=
  [.begin () (start plainGenerators {} "r" (some ⟨0, some 0⟩) [8, 8, 8, 8, 8, 8, 8, 8]).discard,
    .call () .commit, .begin () (tick plainGenerators {}).discard, .call () (.clock 0),
    .call () .commit, .call () .commit, .call () .commit] ++
  ["a", "b", "c", "d", "e", "f", "g", "h"].flatMap issuedDraft ++ [.call () .commit]

/-- A pass that is cut off. -/
def interruptedPass : List (ScriptedMove Unit) :=
  [.begin () (reconcileInvoices {} id).discard, .call () (.clock 1), .die ()]

theorem honest_any (rules : ScriptRules Unit) :
    HonestInvoices rules anyProvider ∧ HonestTransfers rules anyProvider :=
  ⟨⟨fun _ _ _ _ => trivial, fun _ _ _ _ _ _ => trivial, fun _ _ _ => trivial,
    fun _ _ _ => trivial, fun _ _ _ _ => trivial⟩,
    .of_any (fun _ _ _ _ => trivial) fun _ _ _ _ => trivial⟩

theorem completedBatch_allowed :
    ∀ m ∈ completedBatch ++ interruptedPass, m.Allowed (system plainGenerators) := by
  have hstart := @Admitted.start plainGenerators {} "r" (some ⟨0, some 0⟩)
    [8, 8, 8, 8, 8, 8, 8, 8]
  have htick := @Admitted.tick plainGenerators {}
  have hpass := @Admitted.pass plainGenerators {} id
  simp [completedBatch, interruptedPass, issuedDraft, Move.Allowed, system, hstart, htick, hpass]

theorem coherent_completed : ∃ c d : Config Unit Call Call.Answer Failure Unit World,
    (∃ b ∈ c.state.db invoiceBatches, b.status = .completed) ∧ Coherent c.state.db ∧
      StaysCompleted c.state.db d.state.db := by
  have hplay : ((playScript {} emptyWorld completedBatch).bind fun c =>
      (playAll (answer {}) c interruptedPass).map fun _ =>
        (c.state.db invoiceBatches).any fun b : InvoiceBatchRow => b.status == .completed) =
          some true := by decide
  obtain ⟨c, hc, hrest⟩ := Option.bind_eq_some_iff.mp hplay
  obtain ⟨d, hd, hcompleted⟩ := Option.map_eq_some_iff.mp hrest
  obtain ⟨b, hb, hstatus⟩ := List.any_eq_true.mp hcompleted
  obtain ⟨hi, ht⟩ := honest_any {}
  have hsys : ∀ l w i call r w', (ScriptRules.allowed {} l w i call) = true →
      Performs anyProvider (fun t => ScriptRules.clock {} l w i t = true) w call r w' →
      (system plainGenerators).exec l w i call r w' :=
    fun l w i call r w' _ hp => hp.mono fun _ _ => trivial
  have hempty : emptyWorld.db = emptyDatabase := rfl
  have hc : Runs (system plainGenerators) (.initial emptyWorld) c := playScript_runs hi ht hsys
    (fun m hm => completedBatch_allowed m (List.mem_append.mpr (.inl hm))) hc
  have hd : Runs (system plainGenerators) c d := answer_runs hi ht hsys
    (fun m hm => completedBatch_allowed m (List.mem_append.mpr (.inr hm))) hd
  exact ⟨c, d, ⟨b, hb, beq_iff_eq.mp hstatus⟩, coherent hempty hc hd⟩

end StarkbankTrial.CoherentTrials
