import StarkbankTrial.CoherentTrials

/-!
# Drafts that wait for another attempt

A batch is given up when a draft of it failed for good, and when its claims are used up.
Neither looks at the drafts of the batch that still wait, so such a draft may wait in a batch
that no tick claims again. These two are the only ways.
-/
namespace StarkbankTrial.WaitingDrafts
open Domain InteractivePrograms InterleavedRuns RelationalTables DatabaseSchema
open DatabaseSchema.Table
open InvoiceRecording BatchClaims StoreOperations InvoiceChanges BatchChanges ExternalCalls
open Services WorkerRules TrialRules ScriptedRuns
open UndisturbedServices TrialInvariants CoherentTrials

/-- The status of the batch is one that ticks claim. -/
def Unfinished (b : InvoiceBatchRow) : Prop :=
  b.status = .scheduled ∨ b.status = .issuing ∨ b.status = .reconciling

/-- A draft of the batch failed, or the claims of the batch are used up. -/
def GivenUp (cfg : TrialSettings) (db : Database Row) (b : InvoiceBatchRow) : Prop :=
  (∃ d ∈ db invoiceDrafts, d.batchId = b.id ∧ d.status = .failed) ∨
    cfg.batchMaxAttempts ≤ b.attempts

/-- Every draft that waits with attempts left is in such a batch. -/
def WaitIn (cfg : TrialSettings) (db : Database Row) (fits : InvoiceBatchRow → Prop) : Prop :=
  ∀ d ∈ db invoiceDrafts, d.status = .pending → d.attempts < cfg.invoiceMaxAttempts →
    ∃ b ∈ db invoiceBatches, b.id = d.batchId ∧ fits b

/-- Every degraded batch was given up for a reason. -/
def Accounted (cfg : TrialSettings) (db : Database Row) : Prop :=
  ∀ b ∈ db invoiceBatches, b.status = .degraded → GivenUp cfg db b

/-- Drafts that failed stay as they are. -/
def FailedKept (db db' : Database Row) : Prop :=
  ∀ d ∈ db invoiceDrafts, d.status = .failed → d ∈ db' invoiceDrafts

section
variable {gen : Generators} {cfg : TrialSettings} {db db' : Database Row}

theorem FailedKept.of_eq (hdrafts : db' invoiceDrafts = db invoiceDrafts) : FailedKept db db' :=
  fun _ hd _ => hdrafts ▸ hd

theorem GivenUp.kept {b b' : InvoiceBatchRow} (h : GivenUp cfg db b) (hkept : FailedKept db db')
    (hid : b'.id = b.id) (hattempts : b.attempts ≤ b'.attempts) : GivenUp cfg db' b' := by
  rcases h with ⟨d, hd, hbatch, hstatus⟩ | hused
  · exact .inl ⟨d, hkept d hd hstatus, hbatch.trans hid.symm, hstatus⟩
  · exact .inr (hused.trans hattempts)

/-- A batch that is degraded was degraded before, or is given up now. -/
theorem Accounted.step (h : Accounted cfg db) (hkept : FailedKept db db')
    (hbatches : ∀ b ∈ db' invoiceBatches, b.status = .degraded →
      b ∈ db invoiceBatches ∨ GivenUp cfg db' b) : Accounted cfg db' := by
  intro b hb hstatus
  rcases hbatches b hb hstatus with hold | hgiven
  · exact (h b hold hstatus).kept hkept rfl le_rfl
  · exact hgiven

theorem Accounted.reordered (h : Accounted cfg db) (hdb : Reordered db db') :
    Accounted cfg db' :=
  h.step (fun _ hd _ => hdb.mem.mpr hd) fun _ hb _ => .inl (hdb.mem.mp hb)

/-- The drafts stay. -/
theorem Accounted.batches (h : Accounted cfg db) (hkept : FailedKept db db')
    (hbatches : db' invoiceBatches = db invoiceBatches) : Accounted cfg db' :=
  h.step hkept fun _ hb _ => .inl (hbatches ▸ hb)

theorem settle_accounted (hc : metadata.Consistent db) (h : Accounted cfg db) (batchId : BatchId)
    (now : ℤ) : Accounted cfg ((StoreOp.invoices (.settle batchId now)).apply db).2 := by
  by_cases hstored : ∃ b ∈ db invoiceBatches, b.id = batchId
  · obtain ⟨b, hb, rfl⟩ := hstored
    rw [settle_apply hc hb now]
    have hdrafts : settled b now db invoiceDrafts = db invoiceDrafts := rfl
    refine h.step (.of_eq hdrafts) fun b' hb' hstatus => ?_
    rcases mem_assignWhere.mp hb' with ⟨b₀, hb₀, hid, rfl⟩ | ⟨hold, -⟩
    · -- a settle degrades for a draft that failed
      have hfailed : 0 < countStatus (draftsOf b.id db) .failed := by
        have hsettled : settledStatus b (draftsOf b.id db) = .degraded := hstatus
        unfold settledStatus at hsettled
        split_ifs at hsettled with _ hpos
        exact hpos
      obtain ⟨d, hd⟩ := List.length_pos_iff_exists_mem.mp hfailed
      obtain ⟨hd, hfailed⟩ := List.mem_filter.mp hd
      obtain ⟨hd, hbatch⟩ := List.mem_filter.mp hd
      refine .inr (.inl ⟨d, hd, ?_, beq_iff_eq.mp hfailed⟩)
      exact (beq_iff_eq.mp hbatch).trans (beq_iff_eq.mp hid).symm
    · exact .inl hold
  · have hnone : ∀ b ∈ db invoiceBatches, b.id ≠ batchId := fun b hb hid => hstored ⟨b, hb, hid⟩
    rw [settle_absent hnone now]
    exact h

theorem claim_accounted (hc : metadata.Consistent db) (h : Accounted cfg db) {claim : BatchClaim}
    (hmax : claim.maxAttempts = cfg.batchMaxAttempts) :
    Accounted cfg ((StoreOp.trials (.claimDueBatch claim)).apply db).2 := by
  rcases claimDueBatch_apply hc claim with hnone | ⟨row, -, -, hsome⟩
  · rw [hnone]
    have hdrafts : degraded claim db invoiceDrafts = db invoiceDrafts := rfl
    refine h.step (.of_eq hdrafts) fun b' hb' hstatus => ?_
    rcases mem_assignWhere.mp hb' with ⟨b, hb, hexhausted, rfl⟩ | ⟨hold, -⟩
    · have hused := (Bool.and_eq_true_iff.mp hexhausted).2
      exact .inr (.inr (hmax ▸ of_decide_eq_true hused))
    · exact .inl hold
  · rw [hsome]
    refine h.step (.of_eq rfl) fun b' hb' hstatus => ?_
    rcases mem_assignWhere.mp hb' with ⟨b, hb, -, rfl⟩ | ⟨hold, -⟩
    · simp [leased] at hstatus
    · exact .inl hold

theorem create_accounted (h : Accounted cfg db) (uuid5 : String → String) (runId : TrialRunId)
    (command : NewTrial) :
    Accounted cfg ((StoreOp.trials (.create uuid5 runId command)).apply db).2 := by
  have hdrafts := StoreOp.apply_frame (.trials (.create uuid5 runId command)) (u := invoiceDrafts)
    (by simp [StoreOp.tables, TrialStoreOp.tables]) db
  rcases Program.atomically_cases (respond metadata) (create uuid5 runId command) db with
    ⟨run, db', hrun, hdone⟩ | ⟨e, hfailed⟩
  · have hsame : (StoreOp.trials (.create uuid5 runId command)).apply db = (.ok run, db') := hdone
    obtain ⟨-, hbatches⟩ := create_changes uuid5 runId command db run db' hrun
    rw [hsame] at hdrafts ⊢
    refine h.step (.of_eq hdrafts) fun b hb hstatus => ?_
    have hb : b ∈ db invoiceBatches ++ command.schedule.map (batchRow uuid5 runId command.startAt) :=
      hbatches ▸ hb
    rcases List.mem_append.mp hb with hold | hnew
    · exact .inl hold
    · obtain ⟨slot, -, rfl⟩ := List.mem_map.mp hnew
      simp [batchRow] at hstatus
  · have hsame : (StoreOp.trials (.create uuid5 runId command)).apply db = (.error e, db) := hfailed
    rw [hsame]
    exact h

theorem told_accounted (hc : metadata.Consistent db) (h : Accounted cfg db)
    {calm : CallLog → Prop} {l : CallLog} {op : StoreOp}
    (htold : Told calm gen cfg l db (.store op)) : Accounted cfg (op.apply db).2 := by
  have hkept : FailedKept db (op.apply db).2 := fun row hrow hfailed =>
    told_others hc htold row hrow (by simp [hfailed]) (by simp [hfailed])
  have hframe : invoiceBatches ∉ op.tables → Accounted cfg (op.apply db).2 :=
    fun htables => h.batches hkept (StoreOp.apply_frame op htables db)
  cases htold with
  | claim => exact claim_accounted hc h rfl
  | save => exact hframe (by simp [StoreOp.tables, InvoiceStoreOp.tables])
  | pending => exact hframe (by simp [StoreOp.tables, InvoiceStoreOp.tables])
  | unknown => exact hframe (by simp [StoreOp.tables, InvoiceStoreOp.tables])
  | created => exact hframe (by simp [StoreOp.tables, InvoiceStoreOp.tables])
  | refused _ hrefused =>
      refine hframe ?_
      cases hrefused.unissued with
      | retry => simp [StoreOp.tables, InvoiceStoreOp.tables]
      | failed => simp [StoreOp.tables, InvoiceStoreOp.tables]
      | unknownResult => simp [StoreOp.tables, InvoiceStoreOp.tables]
  | reconcile => exact hframe (by simp [StoreOp.tables, InvoiceStoreOp.tables])
  | settle => exact settle_accounted hc h _ _

end

/-! ### The system -/

/-- Trial starts, ticks and reconcile passes with the same settings. -/
inductive Admitted (gen : Generators) (cfg : TrialSettings) : Service Unit → Prop
  | start (runId : TrialRunId) (startAt : Option DateTime) (counts : List ℤ) :
      Admitted gen cfg (start gen cfg runId startAt counts).discard
  | tick : Admitted gen cfg (tick gen cfg).discard
  | pass (setOrder : List BatchId → List BatchId) :
      Admitted gen cfg (reconcileInvoices cfg setOrder).discard

def system (gen : Generators) (cfg : TrialSettings) :
    System Unit Call Call.Answer Failure Unit World where
  admits _ _ _ p := Admitted gen cfg p
  exec _ w _ call r w' := Performs anyProvider (fun _ => True) w call r w'
  drift _ w w' := Reordered w.db w'.db
  dies _ w _ w' := w' = w

/-- The calls of ticks and passes, and the creation of a trial. -/
def Called (gen : Generators) (cfg : TrialSettings) (l : CallLog) (db : Database Row)
    (call : Call) : Prop :=
  Told (fun _ => True) gen cfg l db call ∨
    ∃ runId command, call = .store (.trials (.create gen.uuid5 runId command)) ∧
      command.schedule.length = 8

structure Inv (gen : Generators) (cfg : TrialSettings) (db : Database Row) : Prop where
  fitting : Fitting gen db
  accounted : Accounted cfg db

def protocol (gen : Generators) (cfg : TrialSettings) :
    Protocol Unit Call Call.Answer Failure Unit World where
  toSystem := system gen cfg
  inv _ w := Inv gen cfg w.db
  rely _ l w l' w' := l' = l ∧ Reordered w.db w'.db
  demand _ call l w := Called gen cfg l w.db call

section
variable {gen : Generators} {cfg : TrialSettings}

theorem Inv.performs {l : CallLog} {w w' : World} (h : Inv gen cfg w.db) {call : Call}
    {r : call.Answer} (hcall : Called gen cfg l w.db call)
    (hp : Performs anyProvider (fun _ => True) w call r w') : Inv gen cfg w'.db := by
  have hpermitted : Permitted gen w.db call := by
    rcases hcall with htold | ⟨runId, command, rfl, hlength⟩
    · exact told_permitted h.fitting.consistent htold
    · exact hlength
  refine ⟨(performs_fitting h.fitting hpermitted hp).1, ?_⟩
  cases call with
  | now => exact hp.2 ▸ h.accounted
  | store op =>
      obtain ⟨-, rfl⟩ := hp
      rcases hcall with htold | ⟨runId, command, hop, -⟩
      · exact told_accounted h.fitting.consistent h.accounted htold
      · obtain rfl := Call.store.inj hop
        exact create_accounted h.accounted gen.uuid5 runId command
  | invoiceCreate request =>
      obtain ⟨held, -, rfl⟩ := hp
      exact h.accounted
  | invoiceQuery limit tags => exact hp.2 ▸ h.accounted
  | transferCreate request =>
      obtain ⟨held, -, rfl⟩ := hp
      exact h.accounted
  | transferQuery limit tags => exact hp.2 ▸ h.accounted

theorem sound : (protocol gen cfg).Sound where
  rely_refl _ _ _ := ⟨rfl, fun _ => .refl _⟩
  rely_trans _ _ _ _ _ _ _ h h' := ⟨h'.1.trans h.1, fun t => (h.2 t).trans (h'.2 t)⟩
  drift_keeps _ _ _ h hdb :=
    ⟨⟨h.fitting.reordered hdb, h.accounted.reordered hdb⟩, fun _ => ⟨rfl, hdb⟩⟩
  dies_keeps := by
    rintro l w i w' h rfl
    exact ⟨h, fun _ _ => ⟨rfl, fun _ => .refl _⟩⟩

theorem undisturbed : Undisturbed (protocol gen cfg) (fun _ => True) gen cfg where
  toSound := sound
  calms _ _ _ _ := trivial
  relied _ _ _ _ _ h := h
  demand _ _ _ _ _ hcall := .inl hcall
  consistent _ _ h := h.fitting.consistent
  performs _ _ _ _ _ _ h := h
  keeps _ _ _ _ _ _ h hcall he := h.performs (.inl hcall) he

theorem startRules (runId : TrialRunId) :
    StartRules (protocol gen cfg) () gen runId fun _ _ => True where
  now := undisturbed.triple_now
  create command hlength :=
    { stable := fun _ _ _ _ _ _ _ => trivial
      demand := fun _ _ _ _ => .inr ⟨runId, command, rfl, hlength⟩
      keeps := fun l _ _ _ _ hw he =>
        ⟨hw.performs (l := l) (.inr ⟨runId, command, rfl, hlength⟩) he,
          fun _ hj => absurd rfl hj⟩
      result := fun _ _ _ _ _ _ _ => trivial }

theorem kept : (protocol gen cfg).Kept Unconditionally fun _ => Anything where
  toSound := sound
  begins := by
    rintro l w ⟨⟩ p - - hadmitted
    cases hadmitted with
    | start runId startAt counts =>
        exact discard_ensures sound ((startRules runId).start_ensures cfg startAt counts trivial)
    | tick => exact discard_ensures sound (undisturbed.tick_ensures trivial)
    | pass setOrder => exact discard_ensures sound (undisturbed.pass_ensures setOrder trivial)

/-- A draft that waits with attempts left is in a batch that may be claimed, or in one that
was given up because of a draft that failed or because its claims are used up. -/
theorem wait_in {w : World} (hw : w.db = emptyDatabase)
    {c : Config Unit Call Call.Answer Failure Unit World}
    (hc : Runs (system gen cfg) (.initial w) c) :
    WaitIn cfg c.state.db fun b =>
      Unfinished b ∨ b.status = .degraded ∧ GivenUp cfg c.state.db b := by
  have hempty : Inv gen cfg w.db := hw ▸ ⟨fitting_empty, by simp [Accounted, emptyDatabase]⟩
  have hinv : Inv gen cfg c.state.db := kept.inv hempty hc
  intro d hd hpending _
  obtain ⟨b, hb, hid, -⟩ := hinv.fitting.placed.placed d hd
  refine ⟨b, hb, hid, ?_⟩
  cases hstatus : b.status with
  | scheduled => exact .inl (.inl hstatus)
  | issuing => exact .inl (.inr (.inl hstatus))
  | reconciling => exact .inl (.inr (.inr hstatus))
  | degraded => exact .inr ⟨hstatus, hinv.accounted b hb hstatus⟩
  | completed =>
      have hcreated := (hinv.fitting.tracked.issued b hb hstatus).2 d hd hid.symm
      exact absurd (hpending.symm.trans hcreated) (by simp)

end

/-! ### Drafts left behind -/

def PositiveLimits (cfg : TrialSettings) : Prop :=
  0 < cfg.invoiceMaxAttempts ∧ 0 < cfg.invoiceReconciliationMaxAttempts ∧ 0 < cfg.batchMaxAttempts

/-- One lookup in vain is enough. -/
def oneLookup : TrialSettings := { invoiceReconciliationMaxAttempts := 1 }

/-- A batch is claimed once. -/
def oneClaim : TrialSettings := { batchMaxAttempts := 1 }

/-- A trial is started, and the drafts of its first batch are read. -/
def firstTick (cfg : TrialSettings) : List (ScriptedMove Unit) :=
  [.begin () (start plainGenerators cfg "r" (some ⟨0, some 0⟩) [8, 8, 8, 8, 8, 8, 8, 8]).discard,
    .call () .commit, .begin () (tick plainGenerators cfg).discard, .call () (.clock 0),
    .call () .commit, .call () .commit, .call () .commit]

/-- The result of the first creation is unknown, the second is refused, and a pass looks the
first one up in vain. -/
def failedSibling : List (ScriptedMove Unit) :=
  firstTick oneLookup ++
  [.call () (.failed .unknownError), .call () .commit, .call () (.failed .inputErrors),
    .call () .commit] ++ ["c", "d", "e", "f", "g", "h"].flatMap issuedDraft ++
  [.call () .commit, .begin () (reconcileInvoices oneLookup id).discard, .call () (.clock 1),
    .call () .commit, .call () .lookup, .call () .commit, .call () .commit]

/-- The provider reports one invoice for two drafts, which ends the tick; the next one finds
the only claim used up. -/
def usedClaim : List (ScriptedMove Unit) :=
  firstTick oneClaim ++ ["a", "a"].flatMap issuedDraft ++
  [.begin () (tick plainGenerators oneClaim).discard, .call () (.clock (seconds 1000)),
    .call () .commit]

instance (b : InvoiceBatchRow) : Decidable (Unfinished b) :=
  inferInstanceAs (Decidable (_ ∨ _ ∨ _))

instance (cfg : TrialSettings) (db : Database Row) (fits : InvoiceBatchRow → Prop)
    [DecidablePred fits] : Decidable (WaitIn cfg db fits) :=
  inferInstanceAs (Decidable (∀ d ∈ db invoiceDrafts, _))

/-- Every scripted answer may be given. -/
def anyAnswer : ScriptRules Unit where
  invoice _ _ _ := true

theorem scripted_allowed (cfg : TrialSettings) {moves : List (ScriptedMove Unit)}
    (hmoves : ∀ m ∈ moves, m.Allowed (system plainGenerators cfg)) :
    ∀ m ∈ firstTick cfg ++ moves, m.Allowed (system plainGenerators cfg) := by
  have hstart := @Admitted.start plainGenerators cfg "r" (some ⟨0, some 0⟩)
    [8, 8, 8, 8, 8, 8, 8, 8]
  have htick := @Admitted.tick plainGenerators cfg
  have hfirst : ∀ m ∈ firstTick cfg, m.Allowed (system plainGenerators cfg) := by
    simp [firstTick, Move.Allowed, system, hstart, htick]
  intro m hm
  rcases List.mem_append.mp hm with hm | hm
  · exact hfirst m hm
  · exact hmoves m hm

theorem failedSibling_allowed :
    ∀ m ∈ failedSibling, m.Allowed (system plainGenerators oneLookup) := by
  have hpass := @Admitted.pass plainGenerators oneLookup id
  unfold failedSibling
  rw [List.append_assoc, List.append_assoc]
  refine scripted_allowed oneLookup ?_
  simp [issuedDraft, Move.Allowed, system, hpass]

theorem usedClaim_allowed : ∀ m ∈ usedClaim, m.Allowed (system plainGenerators oneClaim) := by
  have htick := @Admitted.tick plainGenerators oneClaim
  unfold usedClaim
  rw [List.append_assoc]
  refine scripted_allowed oneClaim ?_
  simp [issuedDraft, Move.Allowed, system, htick]

theorem scripted_waits {cfg : TrialSettings} {moves : List (ScriptedMove Unit)}
    (hmoves : ∀ m ∈ moves, m.Allowed (system plainGenerators cfg))
    (h : (playScript anyAnswer emptyWorld moves).map (fun c =>
      decide (WaitIn cfg c.state.db Unfinished)) = some false) :
    ∃ c, Runs (system plainGenerators cfg) (.initial emptyWorld) c ∧
      ¬ WaitIn cfg c.state.db Unfinished := by
  obtain ⟨c, hc, hstranded⟩ := Option.map_eq_some_iff.mp h
  obtain ⟨hi, ht⟩ := honest_any anyAnswer
  exact ⟨c, playScript_runs hi ht (fun _ _ _ _ _ _ _ hp => hp.mono fun _ _ => trivial) hmoves hc,
    of_decide_eq_false hstranded⟩

/-- A draft is left behind by a sibling that failed, and another by the claims of its batch. -/
theorem left_behind :
    (PositiveLimits oneLookup ∧ ∃ c, Runs (system plainGenerators oneLookup)
      (.initial emptyWorld) c ∧ ¬ WaitIn oneLookup c.state.db Unfinished) ∧
    PositiveLimits oneClaim ∧ ∃ c, Runs (system plainGenerators oneClaim)
      (.initial emptyWorld) c ∧ ¬ WaitIn oneClaim c.state.db Unfinished := by
  exact ⟨⟨⟨by decide, by decide, by decide⟩, scripted_waits failedSibling_allowed (by decide)⟩,
    ⟨by decide, by decide, by decide⟩, scripted_waits usedClaim_allowed (by decide)⟩

theorem wait_in_failedSibling : ∃ c : Config Unit Call Call.Answer Failure Unit World,
    ¬ WaitIn oneLookup c.state.db Unfinished ∧ WaitIn oneLookup c.state.db fun b =>
      Unfinished b ∨ b.status = .degraded ∧ GivenUp oneLookup c.state.db b := by
  obtain ⟨c, hc, hstranded⟩ := scripted_waits failedSibling_allowed (by decide)
  have hempty : emptyWorld.db = emptyDatabase := rfl
  exact ⟨c, hstranded, wait_in hempty hc⟩

end StarkbankTrial.WaitingDrafts
