import StarkbankTrial.AnsweringProvider

/-!
# Trials that are completed

When the provider answers again, as many passes as lookups are owed leave no unknown result,
and then as many ticks as batches are open close them all. A batch whose drafts all had an
attempt left, and which had so many claims left, is completed with its invoices, and so is a
trial of such batches.
-/
namespace StarkbankTrial.CompletedTrials
open Domain InteractivePrograms InterleavedRuns RelationalTables DatabaseSchema
open DatabaseSchema.Table
open InvoiceRecording BatchClaims StoreOperations InvoiceChanges BatchChanges ExternalCalls
open ProviderClient Services WorkerRules TrialRules ScriptedRuns
open UndisturbedServices TrialInvariants InvoiceAttempts OpenWork AnsweredDrafts AnsweringProvider

/-! ### What is left -/

/-- What was left, and how many passes and ticks there were by then. -/
structure Aim where
  lookups : ℕ
  passes : ℕ
  batches : ℕ
  ticks : ℕ

def aimAt (cfg : TrialSettings) (l : CallLog) (db : Database Row) : Aim where
  lookups := lookupsOwed cfg db
  passes := passes l
  batches := openBatches db
  ticks := ticks l

/-- Each pass since took a lookup, and each tick a batch, with no lookup left. A pass or a tick
that is counted already may be behind by one. -/
structure Within (cfg : TrialSettings) (aim : Aim) (looking issuing : ℕ) (l : CallLog)
    (db : Database Row) : Prop where
  lookups : lookupsOwed cfg db ≤ aim.lookups + looking - (passes l - aim.passes)
  batches : aim.lookups = 0 → openBatches db ≤ aim.batches + issuing - (ticks l - aim.ticks)

/-- What is known between two invocations. -/
def Rests (cfg : TrialSettings) (aim : Aim) : Fact Unit World :=
  fun l w => Calm l ∧ Within cfg aim 0 0 l w.db

section
variable {cfg : TrialSettings} {aim : Aim} {looking issuing : ℕ} {l : CallLog}
variable {db db' : Database Row} {e : Entry Unit Call Call.Answer}

theorem within_aimAt : Within cfg (aimAt cfg l db) 0 0 l db where
  lookups := by simp [aimAt]
  batches _ := by simp [aimAt]

theorem Within.reordered (h : Within cfg aim looking issuing l db) (hdb : Reordered db db') :
    Within cfg aim looking issuing l db' where
  lookups := lookupsOwed_reordered hdb ▸ h.lookups
  batches haim := openBatches_reordered hdb ▸ h.batches haim

/-- Without a lookup that was owed there is none now. -/
theorem Within.nothing (h : Within cfg aim 0 issuing l db) (haim : aim.lookups = 0) :
    lookupsOwed cfg db = 0 := by
  have hleft := h.lookups
  omega

/-- A call that is no pass and no claim. -/
theorem Within.call (h : Within cfg aim looking issuing l db) (hpass : isPass e = false)
    (hclaim : isClaim e = false) (hlookups : lookupsOwed cfg db' ≤ lookupsOwed cfg db)
    (hbatches : openBatches db' ≤ openBatches db) : Within cfg aim looking issuing (e :: l) db' where
  lookups := by
    rw [passes_cons hpass]
    exact hlookups.trans h.lookups
  batches haim := by
    rw [ticks_cons hclaim]
    exact hbatches.trans (h.batches haim)

/-- A call that changes no table. -/
theorem Within.quiet (h : Within cfg aim looking issuing l db) (hpass : isPass e = false)
    (hclaim : isClaim e = false) : Within cfg aim looking issuing (e :: l) db :=
  h.call hpass hclaim le_rfl le_rfl

/-- A claim is behind by the batch that it claims. -/
theorem Within.claimed (h : Within cfg aim 0 0 l db) (hpass : isPass e = false)
    (hclaim : ticks (e :: l) = ticks l + 1) (hlookups : lookupsOwed cfg db' = lookupsOwed cfg db)
    (hbatches : openBatches db' ≤ openBatches db) : Within cfg aim 0 1 (e :: l) db' where
  lookups := by
    rw [passes_cons hpass, hlookups]
    exact h.lookups
  batches haim := by
    have hleft := h.batches haim
    omega

/-- When no batch is open there is nothing to wait for. -/
theorem Within.closed (h : Within cfg aim 0 issuing l db) (hbatches : openBatches db = 0) :
    Within cfg aim 0 0 l db where
  lookups := h.lookups
  batches _ := by simp [hbatches]

/-- A batch was closed. -/
theorem Within.caughtUp (h : Within cfg aim 0 1 l db) (hpass : isPass e = false)
    (hclaim : isClaim e = false) (hlookups : lookupsOwed cfg db' = lookupsOwed cfg db)
    (hbatches : aim.lookups = 0 → openBatches db' < openBatches db) :
    Within cfg aim 0 0 (e :: l) db' where
  lookups := by
    rw [passes_cons hpass, hlookups]
    exact h.lookups
  batches haim := by
    have hleft := h.batches haim
    have hless := hbatches haim
    rw [ticks_cons hclaim]
    omega

end

/-! ### Single calls -/

/-- The order of the rows does not matter for the fact. -/
def Unmoved (fact : Fact Unit World) : Prop :=
  ∀ l w w', fact l w → Reordered w.db w'.db → w'.invoices = w.invoices → fact l w'

section
variable {gen : Generators} {tagOf : InvoiceId → String} {cfg : TrialSettings} {outset : Outset}
variable {aim : Aim} {l : CallLog} {w w' : World}

theorem Unmoved.stable {fact : Fact Unit World} (h : Unmoved fact) {i : Unit} :
    (protocol gen tagOf cfg outset).Stable i fact := by
  rintro l w l' w' hw ⟨rfl, hdb, hheld⟩ -
  exact h l' w w' hw hdb hheld

theorem rests_unmoved : Unmoved (Rests cfg aim) :=
  fun _ _ _ h hdb _ => ⟨h.1, h.2.reordered hdb⟩

theorem triple (hmax : 0 < cfg.invoiceMaxAttempts) {pre : Fact Unit World} {call : Call}
    {result : call.Answer → Fact Unit World} (hpre : Unmoved pre)
    (htold : ∀ l w, Inv gen tagOf cfg outset l w → pre l w → Told Calm gen cfg l w.db call)
    (hsure : ∀ l w, Inv gen tagOf cfg outset l w → pre l w → Sure w call)
    (hresult : ∀ l w r w', Inv gen tagOf cfg outset l w → pre l w →
      Performs (answering tagOf) (Late w.db) w call r w' → result r (⟨(), call, r⟩ :: l) w') :
    (protocol gen tagOf cfg outset).Triple () pre call result where
  stable := hpre.stable
  demand l w hw hi := ⟨htold l w hi hw, hsure l w hi hw⟩
  keeps l w _ _ hw hi he :=
    ⟨hi.performs hmax (htold l w hi hw) (hsure l w hi hw) he, fun _ hj => absurd rfl hj⟩
  result l w r w' hw hi he := hresult l w r w' hi hw he

/-- A transaction that succeeds. -/
theorem triple_store (hmax : 0 < cfg.invoiceMaxAttempts) {pre fails : Fact Unit World}
    {op : StoreOp} {post : op.Result → Fact Unit World} (hpre : Unmoved pre)
    (htold : ∀ l w, Inv gen tagOf cfg outset l w → pre l w → Told Calm gen cfg l w.db (.store op))
    (hsure : ∀ l w, Inv gen tagOf cfg outset l w → pre l w → Sure w (.store op))
    (hpost : ∀ l w, Inv gen tagOf cfg outset l w → pre l w → ∃ v db',
      op.apply w.db = (.ok v, db') ∧ post v (⟨(), .store op, .ok v⟩ :: l) { w with db := db' }) :
    (protocol gen tagOf cfg outset).Triple () pre (.store op) (Ends post fails) := by
  refine triple hmax hpre htold hsure fun l w r w' hi hw hp => ?_
  obtain ⟨rfl, rfl⟩ := hp
  obtain ⟨v, db', happly, hv⟩ := hpost l w hi hw
  rw [happly]
  exact hv

/-! ### The drafts of a claimed batch -/

/-- The batch is claimed, has drafts, and those of them that wait are among these. -/
structure Waiting (cfg : TrialSettings) (aim : Aim) (batch : InvoiceBatch) (ds : List InvoiceDraft)
    (l : CallLog) (db : Database Row) : Prop where
  within : Within cfg aim 0 1 l db
  claimed : Claimed batch db
  some : ∃ d ∈ db invoiceDrafts, d.batchId = batch.id
  listed : Listed .pending ds db
  all : ∀ d ∈ db invoiceDrafts, d.batchId = batch.id → d.status = .pending →
    ∃ d' ∈ ds, d'.id = d.id

/-- The draft may be created. -/
abbrev Absent (d : InvoiceDraft) (l : CallLog) : Prop := Calm l ∧ (d.attempts = 0 ∨ Missed d l)

/-- The invoice of the draft is known. -/
structure Found (tagOf : InvoiceId → String) (d : InvoiceDraft) (id : InvoiceId) (l : CallLog)
    (w : World) : Prop where
  reported : Reported d id l
  carries : Carries w.invoices id d.tag
  tag : tagOf id = d.tag

section
variable {db db' : Database Row} {batch : InvoiceBatch} {d : InvoiceDraft}
variable {ds : List InvoiceDraft} {id : InvoiceId} {e : Entry Unit Call Call.Answer}

theorem claimed_of_eq (h : Claimed batch db) (hbatches : db' invoiceBatches = db invoiceBatches) :
    Claimed batch db' := by
  obtain ⟨b, hb, hrest⟩ := h
  exact ⟨b, hbatches ▸ hb, hrest⟩

theorem Waiting.reordered (h : Waiting cfg aim batch ds l db) (hdb : Reordered db db') :
    Waiting cfg aim batch ds l db' where
  within := h.within.reordered hdb
  claimed := h.claimed.reordered hdb
  some := by
    obtain ⟨d, hd, hbatch⟩ := h.some
    exact ⟨d, hdb.mem.mpr hd, hbatch⟩
  listed := h.listed.reordered hdb
  all d hd := h.all d (hdb.mem.mp hd)

/-- A call that changes no table. -/
theorem Waiting.quiet (h : Waiting cfg aim batch ds l db) (hpass : isPass e = false)
    (hclaim : isClaim e = false) : Waiting cfg aim batch ds (e :: l) db :=
  { h with within := h.within.quiet hpass hclaim }

/-- The first of the drafts was created. -/
theorem Waiting.created (h : Waiting cfg aim batch (d :: ds) l db) {time : ℤ}
    {r : Call.Answer (.store (.invoices (.created ⟨d.id, id, time⟩)))}
    (hbatches : db' invoiceBatches = db invoiceBatches)
    (hdrafts : db' invoiceDrafts = assignWhere (fun d' : InvoiceDraftRow => d'.id == d.id)
      (DraftTransition.created ⟨d.id, id, time⟩).apply (db invoiceDrafts)) :
    Waiting cfg aim batch ds (⟨(), .store (.invoices (.created ⟨d.id, id, time⟩)), r⟩ :: l) db' where
  within := h.within.call rfl rfl (lookupsOwed_created (fun _ => rfl) hdrafts).1
    (openBatches_of_eq hbatches).le
  claimed := claimed_of_eq h.claimed hbatches
  some := by
    obtain ⟨d₀, hd₀, hbatch⟩ := h.some
    rw [hdrafts]
    by_cases hid : d₀.id = d.id
    · exact ⟨_, mem_assignWhere.mpr (.inl ⟨d₀, hd₀, by simpa using hid, rfl⟩), hbatch⟩
    · exact ⟨d₀, mem_assignWhere.mpr (.inr ⟨hd₀, by simpa using hid⟩), hbatch⟩
  listed := h.listed.written fun row hrow hne => by
    rw [hdrafts]
    exact mem_assignWhere.mpr (.inr ⟨hrow, by simpa using hne⟩)
  all d' hd' hbatch hpending := by
    rw [hdrafts] at hd'
    rcases mem_assignWhere.mp hd' with ⟨d₀, -, -, rfl⟩ | ⟨hd', hne⟩
    · cases hpending
    · obtain ⟨d₀, hd₀, hid⟩ := h.all d' hd' hbatch hpending
      rcases List.mem_cons.mp hd₀ with rfl | hd₀
      · simp [hid] at hne
      · exact ⟨d₀, hd₀, hid⟩

/-- With no lookup owed and no draft that waits the settle closes the batch. -/
theorem Waiting.settled {gen : Generators} (hfitting : Fitting gen db)
    (h : Waiting cfg aim batch [] l db) (time : ℤ) (haim : aim.lookups = 0) :
    openBatches ((StoreOp.invoices (.settle batch.id time)).apply db).2 < openBatches db := by
  obtain ⟨b, hb, hid, -, hstatus⟩ := h.claimed
  have hknown := lookupsOwed_eq_zero.mp (h.within.nothing haim)
  rw [← hid]
  refine settle_closes hfitting hb (by simp [unfinished, hstatus]) (hid ▸ h.some)
    (fun d hd hbatch => ?_) time
  have hunknown := hknown d hd
  cases hd' : d.status with
  | created => exact .inl rfl
  | failed => exact .inr rfl
  | unknown => exact absurd hd' hunknown
  | pending =>
      obtain ⟨d₀, hd₀, -⟩ := h.all d hd (hbatch.trans hid) hd'
      simp at hd₀

end

/-- Between two drafts, when one may be created, and when its invoice is known. -/
abbrev waits (cfg : TrialSettings) (aim : Aim) (batch : InvoiceBatch) (ds : List InvoiceDraft) :
    Fact Unit World := fun l w => Calm l ∧ Waiting cfg aim batch ds l w.db

abbrev absent (cfg : TrialSettings) (aim : Aim) (batch : InvoiceBatch) (d : InvoiceDraft)
    (ds : List InvoiceDraft) : Fact Unit World :=
  fun l w => Absent d l ∧ Waiting cfg aim batch (d :: ds) l w.db

abbrev found (tagOf : InvoiceId → String) (cfg : TrialSettings) (aim : Aim) (batch : InvoiceBatch)
    (d : InvoiceDraft) (ds : List InvoiceDraft) (id : InvoiceId) : Fact Unit World :=
  fun l w => Found tagOf d id l w ∧ Waiting cfg aim batch (d :: ds) l w.db

section
variable {batch : InvoiceBatch} (d : InvoiceDraft) (ds : List InvoiceDraft)

theorem waits_unmoved : Unmoved (waits cfg aim batch ds) :=
  fun _ _ _ h hdb _ => ⟨h.1, h.2.reordered hdb⟩

theorem absent_unmoved : Unmoved (absent cfg aim batch d ds) :=
  fun _ _ _ h hdb _ => ⟨h.1, h.2.reordered hdb⟩

theorem found_unmoved (id : InvoiceId) : Unmoved (found tagOf cfg aim batch d ds id) :=
  fun _ _ _ h hdb hheld => ⟨⟨h.1.reported, hheld ▸ h.1.carries, h.1.tag⟩, h.2.reordered hdb⟩

theorem query_triple (hmax : 0 < cfg.invoiceMaxAttempts) :
    (protocol gen tagOf cfg outset).Triple () (waits cfg aim batch (d :: ds))
      (.invoiceQuery 1 [d.tag]) fun answer l w => answer = [] ∧ absent cfg aim batch d ds l w ∨
        ∃ id, answer = [.ok ⟨id⟩] ∧ found tagOf cfg aim batch d ds id l w := by
  refine triple hmax (waits_unmoved (d :: ds)) (fun l w _ hw => .lookup hw.1)
    (fun _ _ _ _ => trivial) fun l w answer w' _ hw hp => ?_
  obtain ⟨hanswer, rfl⟩ := hp
  have hwaiting : ∀ r, Waiting cfg aim batch (d :: ds) (⟨(), .invoiceQuery 1 [d.tag], r⟩ :: l) w'.db :=
    fun r => hw.2.quiet rfl rfl
  rcases hanswer with rfl | ⟨x, hx, htags, hrequest, rfl⟩
  · exact .inl ⟨rfl, ⟨calm_cons (by simp), .inr .lookup⟩, hwaiting _⟩
  · refine .inr ⟨x.id, rfl, ⟨.found, ⟨x, hx, rfl, by simp [hrequest]⟩, ?_⟩, hwaiting _⟩
    exact (List.singleton_inj.mp htags).symm

theorem create_triple (hmax : 0 < cfg.invoiceMaxAttempts) :
    (protocol gen tagOf cfg outset).Triple () (absent cfg aim batch d ds)
      (.invoiceCreate (invoiceRequest d)) fun answer l w =>
        ∃ id, answer = [.ok ⟨id⟩] ∧ found tagOf cfg aim batch d ds id l w := by
  refine triple hmax (absent_unmoved d ds)
    (fun l w _ hw => .create hw.1.1 hw.2.listed.head hw.1.2) (fun _ _ _ _ => trivial)
    fun l w answer w' _ hw hp => ?_
  obtain ⟨held, ⟨id, htags, rfl, rfl⟩, rfl⟩ := hp
  refine ⟨id, rfl, ⟨.created, ⟨⟨id, invoiceRequest d⟩, by simp, rfl, ?_⟩, ?_⟩, hw.2.quiet rfl rfl⟩
  · exact List.mem_singleton.mpr rfl
  · exact (List.singleton_inj.mp htags).symm

theorem created_triple (hmax : 0 < cfg.invoiceMaxAttempts) (id : InvoiceId) (time : ℤ)
    {fails : Fact Unit World} : (protocol gen tagOf cfg outset).Triple ()
      (found tagOf cfg aim batch d ds id) (.store (.invoices (.created ⟨d.id, id, time⟩)))
      (Ends (fun _ => waits cfg aim batch ds) fails) := by
  refine triple_store hmax (found_unmoved d ds id)
    (fun l w _ hw => .created hw.2.listed.head hw.1.reported) (fun l w hi hw d' hd' hid => ?_)
    fun l w hi hw => ?_
  · obtain ⟨row, hrow, rfl, -⟩ := hw.2.listed.row
    obtain rfl := (hi.bounded.fitting.consistent invoiceDrafts).eq_of_key hd' hrow hid
    exact hw.1.carries
  · obtain ⟨row, hrow, rfl, -⟩ := hw.2.listed.row
    obtain ⟨db', happly, hdrafts⟩ := created_ok hi.bounded.fitting hi.bounded.drafted
      hi.bounded.bound hrow hw.1.tag time
    have hbatches := StoreOp.apply_frame (.invoices (.created ⟨row.id, id, time⟩))
      (u := invoiceBatches) (by simp [StoreOp.tables, InvoiceStoreOp.tables]) w.db
    rw [happly] at hbatches
    exact ⟨(), db', happly, calm_cons (by simp), hw.2.created hbatches hdrafts⟩

variable {fails : Fact Unit World} {time : ℤ}

theorem recordCreated_ensures (hmax : 0 < cfg.invoiceMaxAttempts) {id : InvoiceId}
    (hfails : (protocol gen tagOf cfg outset).Stable () fails)
    (hfound : found tagOf cfg aim batch d ds id l w) :
    Ensures (protocol gen tagOf cfg outset) () (recordCreated d ⟨id, d.tag⟩ time)
      (Ends (fun _ => waits cfg aim batch ds) fails) l w := by
  unfold recordCreated
  rw [← bind_pure (callStore _)]
  exact store_bind (created_triple d ds hmax id time) hfound
    (fun _ _ _ hw => .returned (waits_unmoved ds).stable hw) hfails

theorem createDraft_ensures (hmax : 0 < cfg.invoiceMaxAttempts)
    (hlive : cfg.liveOperationsEnabled = true)
    (hfails : (protocol gen tagOf cfg outset).Stable () fails)
    (habsent : absent cfg aim batch d ds l w) :
    Ensures (protocol gen tagOf cfg outset) () (createDraft cfg d time)
      (Ends (fun _ => waits cfg aim batch ds) fails) l w := by
  unfold createDraft createInvoice
  rw [hlive]
  refine .call habsent (create_triple d ds hmax) fun answer l w hr => ?_
  obtain ⟨id, rfl, hfound⟩ := hr
  exact recordCreated_ensures d ds hmax hfails hfound

/-- Each draft that waits gets its invoice. -/
theorem issueDraft_ensures (hmax : 0 < cfg.invoiceMaxAttempts)
    (hlive : cfg.liveOperationsEnabled = true)
    (hfails : (protocol gen tagOf cfg outset).Stable () fails)
    (hwaits : waits cfg aim batch (d :: ds) l w) :
    Ensures (protocol gen tagOf cfg outset) () (issueDraft cfg d time)
      (Ends (fun _ => waits cfg aim batch ds) fails) l w := by
  unfold issueDraft
  split_ifs with hattempts
  · refine .call hwaits (query_triple d ds hmax) fun answer l w hr => ?_
    rcases hr with ⟨rfl, habsent⟩ | ⟨id, rfl, hfound⟩
    · exact createDraft_ensures d ds hmax hlive hfails habsent
    · change Ensures _ _ ((recordCreated d ⟨id, d.tag⟩ time >>= fun _ => pure true) >>= _) _ _ _
      rw [bind_assoc]
      exact .seq sound (recordCreated_ensures d ds hmax hfails hfound)
        (fun _ l w hw => .returned (waits_unmoved ds).stable hw) hfails
  · exact createDraft_ensures d ds hmax hlive hfails ⟨⟨hwaits.1, .inl (by omega)⟩, hwaits.2⟩

end

/-! ### One tick -/

/-- The batch is claimed, and its drafts are due. -/
structure Holding (cfg : TrialSettings) (aim : Aim) (batch : InvoiceBatch) (time : ℤ)
    (l : CallLog) (db : Database Row) : Prop where
  calm : Calm l
  within : Within cfg aim 0 1 l db
  claimed : Claimed batch db
  due : ∀ d ∈ db invoiceDrafts, d.nextAttemptAt ≤ time

abbrev holds (cfg : TrialSettings) (aim : Aim) (batch : InvoiceBatch) (time : ℤ) :
    Fact Unit World := fun l w => Holding cfg aim batch time l w.db

/-- The drafts of the batch are saved. -/
abbrev saves (cfg : TrialSettings) (aim : Aim) (batch : InvoiceBatch) (time : ℤ) :
    Fact Unit World := fun l w => Holding cfg aim batch time l w.db ∧
      ∃ d ∈ w.db invoiceDrafts, d.batchId = batch.id

/-- The time was read, and what waits has waited long enough. -/
abbrev reads (cfg : TrialSettings) (aim : Aim) (time : ℤ) : Fact Unit World :=
  fun l w => Rests cfg aim l w ∧ Late w.db time

theorem reads_unmoved {time : ℤ} : Unmoved (reads cfg aim time) :=
  fun l w w' h hdb hheld => ⟨rests_unmoved l w w' h.1 hdb hheld, h.2.reordered hdb⟩

theorem Holding.reordered {batch : InvoiceBatch} {time : ℤ} {db db' : Database Row}
    (h : Holding cfg aim batch time l db) (hdb : Reordered db db') :
    Holding cfg aim batch time l db' where
  calm := h.calm
  within := h.within.reordered hdb
  claimed := h.claimed.reordered hdb
  due d hd := h.due d (hdb.mem.mp hd)

theorem holds_unmoved {batch : InvoiceBatch} {time : ℤ} : Unmoved (holds cfg aim batch time) :=
  fun _ _ _ h hdb _ => h.reordered hdb

theorem saves_unmoved {batch : InvoiceBatch} {time : ℤ} : Unmoved (saves cfg aim batch time) := by
  rintro l w w' ⟨h, d, hd, hbatch⟩ hdb -
  exact ⟨h.reordered hdb, d, hdb.mem.mpr hd, hbatch⟩

theorem now_triple (hmax : 0 < cfg.invoiceMaxAttempts) :
    (protocol gen tagOf cfg outset).Triple () (Rests cfg aim) .now
      fun time => reads cfg aim time := by
  refine triple hmax rests_unmoved (fun _ _ _ hw => .now hw.1) (fun _ _ _ _ => trivial)
    fun l w time w' _ hw hp => ?_
  obtain ⟨hlate, rfl⟩ := hp
  exact ⟨⟨calm_cons (by simp), hw.2.quiet rfl rfl⟩, hlate⟩

/-- A claim finds a batch, or none is open. -/
theorem claim_triple (hmax : 0 < cfg.invoiceMaxAttempts) (time : ℤ) :
    (protocol gen tagOf cfg outset).Triple () (reads cfg aim time) (.store (.trials
      (.claimDueBatch ⟨time, time + seconds cfg.batchLeaseSeconds, cfg.batchMaxAttempts⟩)))
      (Ends (fun claimed l w =>
        match claimed with
        | none => Rests cfg aim l w
        | some (batch : InvoiceBatch) => holds cfg aim batch time l w) (Rests cfg aim)) := by
  refine triple_store hmax reads_unmoved (fun _ _ _ hw => .claim hw.1.1)
    (fun _ _ _ _ => trivial) fun l w hi hw => ?_
  have hc := hi.bounded.fitting.consistent
  generalize hclaim : (⟨time, time + seconds cfg.batchLeaseSeconds, cfg.batchMaxAttempts⟩ :
    BatchClaim) = claim
  have hlate : Late w.db claim.now := hclaim ▸ hw.2
  have hopen := claim_open hc claim
  have hnone := claim_none_open hc hlate
  have hclaimed : ∀ batch : InvoiceBatch,
      ((StoreOp.trials (.claimDueBatch claim)).apply w.db).1 = .ok (some batch) →
        Claimed batch ((StoreOp.trials (.claimDueBatch claim)).apply w.db).2 :=
    fun _ => claimed_of_apply hc
  have hdrafts := StoreOp.apply_frame (.trials (.claimDueBatch claim)) (u := invoiceDrafts)
    (by simp [StoreOp.tables, TrialStoreOp.tables]) w.db
  rcases claimDueBatch_apply hc claim with happly | ⟨row, -, -, happly⟩
  all_goals
    rw [happly] at hopen hnone hclaimed hdrafts
    refine ⟨_, _, happly, ?_⟩
  · have hwithin := hw.1.2.claimed (e := ⟨(), .store (.trials (.claimDueBatch claim)), .ok none⟩)
      rfl ticks_claim (lookupsOwed_of_eq hdrafts) hopen
    exact ⟨calm_cons (by simp), hwithin.closed (hnone rfl)⟩
  · exact ⟨calm_cons (by simp), hw.1.2.claimed rfl ticks_claim (lookupsOwed_of_eq hdrafts) hopen,
      hclaimed _ rfl, fun d hd => hw.2.drafts d (hdrafts ▸ hd)⟩

theorem newDrafts_waiting {batch : InvoiceBatch} {time : ℤ} {rows : List InvoiceDraftRow} :
    ∀ d ∈ newDrafts batch.id (buildInvoiceDrafts gen batch time) rows,
      d.status = .pending ∧ d.nextAttemptAt = time := by
  intro d hd
  obtain ⟨draft, hdraft, rfl⟩ := List.mem_map.mp hd
  obtain ⟨k, -, rfl⟩ := List.mem_map.mp (List.mem_filter.mp hdraft).1
  exact ⟨rfl, rfl⟩

theorem save_triple (hmax : 0 < cfg.invoiceMaxAttempts) (huuid : Function.Injective gen.uuid5)
    (hamount : ∀ id k, 0 < (gen.payer id k).amount) (batch : InvoiceBatch) (time : ℤ)
    {fails : Fact Unit World} :
    (protocol gen tagOf cfg outset).Triple () (holds cfg aim batch time)
      (.store (.invoices (.save batch.id (buildInvoiceDrafts gen batch time))))
      (Ends (fun _ => saves cfg aim batch time) fails) := by
  refine triple_store hmax holds_unmoved (fun _ _ _ hw => .save hw.calm hw.claimed)
    (fun _ _ _ _ => trivial) fun l w hi hw => ?_
  have hfitting := hi.bounded.fitting
  obtain ⟨db', happly, hdrafts⟩ := save_ok hfitting hi.tagged hi.bounded.drafted huuid hamount
    hw.claimed time
  have hbatches := StoreOp.apply_frame
    (.invoices (.save batch.id (buildInvoiceDrafts gen batch time))) (u := invoiceBatches)
    (by simp [StoreOp.tables, InvoiceStoreOp.tables]) w.db
  rw [happly] at hbatches
  have hsome := saved_some hfitting.consistent hw.claimed hdrafts
  refine ⟨(), db', happly, ⟨calm_cons (by simp), ?_, ?_, fun d hd => ?_⟩, hsome⟩
  · exact hw.within.call rfl rfl
      (lookupsOwed_saved hdrafts fun d hd => (newDrafts_waiting d hd).1).le
      (openBatches_of_eq hbatches).le
  · exact claimed_of_eq hw.claimed hbatches
  · have hd : d ∈ db' invoiceDrafts := hd
    rw [hdrafts] at hd
    rcases List.mem_append.mp hd with hd | hd
    · exact hw.due d hd
    · exact (newDrafts_waiting d hd).2.le

/-- All drafts of the batch that wait are read. -/
theorem pending_triple (hmax : 0 < cfg.invoiceMaxAttempts) (batch : InvoiceBatch) (time : ℤ)
    {fails : Fact Unit World} :
    (protocol gen tagOf cfg outset).Triple () (saves cfg aim batch time)
      (.store (.invoices (.pending batch.id time)))
      (Ends (fun drafts => waits cfg aim batch drafts) fails) := by
  refine triple_store hmax saves_unmoved (fun _ _ _ hw => .pending hw.1.calm)
    (fun _ _ _ _ => trivial) fun l w hi hw => ?_
  refine ⟨_, _, rfl, calm_cons (by simp), hw.1.within.quiet rfl rfl, hw.1.claimed, hw.2,
    ⟨pending_nodup hi.bounded.fitting.consistent rfl, fun d hd => pending_mem rfl hd⟩,
    fun d hd hbatch hstatus => ⟨toDraft d, List.mem_map_of_mem ?_, rfl⟩⟩
  refine (List.mem_insertionSort _).mpr (List.mem_filter.mpr ⟨hd, ?_⟩)
  simp [hbatch, hstatus, hw.1.due d hd]

theorem settle_triple (hmax : 0 < cfg.invoiceMaxAttempts) (batch : InvoiceBatch) (time : ℤ) :
    (protocol gen tagOf cfg outset).Triple () (waits cfg aim batch [])
      (.store (.invoices (.settle batch.id time))) fun _ => Rests cfg aim := by
  refine triple hmax (waits_unmoved []) (fun _ _ _ hw => .settle hw.1) (fun _ _ _ _ => trivial)
    fun l w r w' hi hw hp => ?_
  obtain ⟨-, rfl⟩ := hp
  have hdrafts := StoreOp.apply_frame (.invoices (.settle batch.id time)) (u := invoiceDrafts)
    (by simp [StoreOp.tables, InvoiceStoreOp.tables]) w.db
  exact ⟨calm_cons (by simp), hw.2.within.caughtUp rfl rfl (lookupsOwed_of_eq hdrafts)
    (hw.2.settled hi.bounded.fitting time)⟩

/-- A tick closes a batch, when no lookup is owed. -/
theorem tick_ensures (hmax : 0 < cfg.invoiceMaxAttempts) (huuid : Function.Injective gen.uuid5)
    (hamount : ∀ id k, 0 < (gen.payer id k).amount) (hrests : Rests cfg aim l w) :
    Ensures (protocol gen tagOf cfg outset) () (tick gen cfg) (Always (Rests cfg aim)) l w := by
  by_cases hlive : cfg.liveOperationsEnabled = true
  · have hsteps : TickSteps (protocol gen tagOf cfg outset) () gen cfg (Rests cfg aim)
        (Rests cfg aim) (reads cfg aim) (holds cfg aim) (saves cfg aim)
        fun batch _ => waits cfg aim batch :=
      { fails_stable := rests_unmoved.stable
        start_fails := fun _ _ hw => hw
        now := now_triple hmax
        claim := claim_triple hmax
        save := fun batch time => save_triple hmax huuid hamount batch time
        pending := fun batch time => pending_triple hmax batch time
        remaining_stable := fun _ _ ds => (waits_unmoved ds).stable
        issue := fun _ _ d ds _ _ hw =>
          issueDraft_ensures d ds hmax hlive rests_unmoved.stable hw
        settle := settle_triple hmax }
    exact hsteps.tick_ensures sound hrests
  · unfold tick
    rw [if_neg hlive]
    exact .returned rests_unmoved.stable hrests

/-! ### One reconcile pass -/

/-- The pass is counted. -/
theorem Within.passed {db : Database Row} {e : Entry Unit Call Call.Answer}
    (h : Within cfg aim 0 0 l db) (hpass : passes (e :: l) = passes l + 1)
    (hclaim : isClaim e = false) : Within cfg aim 1 0 (e :: l) db where
  lookups := by
    have hleft := h.lookups
    omega
  batches haim := by
    rw [ticks_cons hclaim]
    exact h.batches haim

/-- A lookup is not owed any more. -/
theorem Within.looked {db db' : Database Row} {e : Entry Unit Call Call.Answer}
    (h : Within cfg aim 1 0 l db) (hpass : isPass e = false) (hclaim : isClaim e = false)
    (hlookups : lookupsOwed cfg db' < lookupsOwed cfg db)
    (hbatches : openBatches db' = openBatches db) : Within cfg aim 0 0 (e :: l) db' where
  lookups := by
    have hleft := h.lookups
    rw [passes_cons hpass]
    omega
  batches haim := by
    rw [ticks_cons hclaim, hbatches]
    exact h.batches haim

theorem Within.ahead {db : Database Row} (h : Within cfg aim 0 0 l db) : Within cfg aim 1 0 l db where
  lookups := by
    have hleft := h.lookups
    omega
  batches := h.batches

/-- The drafts that were read, of which one lookup makes up for the pass. -/
abbrev looks (cfg : TrialSettings) (aim : Aim) (ds : List InvoiceDraft) : Fact Unit World :=
  fun l w => Calm l ∧ Listed .unknown ds w.db ∧
    Within cfg aim 1 0 l w.db ∧ (ds = [] → Within cfg aim 0 0 l w.db)

/-- What the lookup of the first draft has found. -/
abbrev looked (tagOf : InvoiceId → String) (cfg : TrialSettings) (aim : Aim) (d : InvoiceDraft)
    (ds : List InvoiceDraft) (id : Option InvoiceId) : Fact Unit World := fun l w =>
  (Calm l ∧ LookedUp d id l ∧ ∀ x ∈ id, Carries w.invoices x d.tag ∧ tagOf x = d.tag) ∧
    Listed .unknown (d :: ds) w.db ∧ Within cfg aim 1 0 l w.db

section
variable (d : InvoiceDraft) (ds : List InvoiceDraft)

theorem looks_unmoved : Unmoved (looks cfg aim ds) := fun _ _ _ h hdb _ =>
  ⟨h.1, h.2.1.reordered hdb, h.2.2.1.reordered hdb, fun hds => (h.2.2.2 hds).reordered hdb⟩

theorem looked_unmoved (id : Option InvoiceId) : Unmoved (looked tagOf cfg aim d ds id) :=
  fun _ _ _ h hdb hheld => ⟨hheld ▸ h.1, h.2.1.reordered hdb, h.2.2.reordered hdb⟩

theorem lookup_triple (hmax : 0 < cfg.invoiceMaxAttempts) :
    (protocol gen tagOf cfg outset).Triple () (looks cfg aim (d :: ds))
      (.invoiceQuery 1 [d.tag]) fun answer l w =>
        answer = [] ∧ looked tagOf cfg aim d ds none l w ∨
        ∃ id, answer = [.ok ⟨id⟩] ∧ looked tagOf cfg aim d ds (some id) l w := by
  refine triple hmax (looks_unmoved (d :: ds)) (fun l w _ hw => .lookup hw.1)
    (fun _ _ _ _ => trivial) fun l w answer w' _ hw hp => ?_
  obtain ⟨hanswer, rfl⟩ := hp
  obtain ⟨-, hlisted, hwithin, -⟩ := hw
  rcases hanswer with rfl | ⟨x, hx, htags, hrequest, rfl⟩
  · exact .inl ⟨rfl, ⟨calm_cons (by simp), .nothing, by simp⟩, hlisted, hwithin.quiet rfl rfl⟩
  · refine .inr ⟨x.id, rfl, ⟨calm_cons (by simp), .found, ?_⟩, hlisted, hwithin.quiet rfl rfl⟩
    intro id hid
    obtain rfl := Option.some.inj hid
    exact ⟨⟨x, hx, rfl, by simp [hrequest]⟩, (List.singleton_inj.mp htags).symm⟩

/-- A draft with an unknown result is created, or its lookup in vain is written. -/
theorem reconcile_triple (hmax : 0 < cfg.invoiceMaxAttempts) (id : Option InvoiceId) (time : ℤ)
    {fails : Fact Unit World} :
    (protocol gen tagOf cfg outset).Triple () (looked tagOf cfg aim d ds id) (.store (.invoices
      (.reconcile ⟨d, id.map fun id => ⟨id, d.tag⟩, time⟩ ⟨cfg.invoiceMaxAttempts,
        cfg.invoiceReconciliationMaxAttempts, Services.backoff cfg d.attempts⟩)))
      (Ends (fun _ => looks cfg aim ds) fails) := by
  refine triple_store hmax (looked_unmoved d ds id)
    (fun l w _ hw => .reconcile hw.1.1 hw.2.1.head hw.1.2.1)
    (fun l w hi hw invoice hinvoice d' hd' hid => ?_) fun l w hi hw => ?_
  · obtain ⟨row, hrow, rfl, -⟩ := hw.2.1.row
    obtain rfl := (hi.bounded.fitting.consistent invoiceDrafts).eq_of_key hd' hrow hid
    obtain ⟨x, hx, rfl⟩ := Option.map_eq_some_iff.mp hinvoice
    exact (hw.1.2.2 x hx).1
  · have hfitting := hi.bounded.fitting
    obtain ⟨row, hrow, rfl, hstatus⟩ := hw.2.1.row
    generalize hlimits : (⟨cfg.invoiceMaxAttempts, cfg.invoiceReconciliationMaxAttempts,
      Services.backoff cfg (toDraft row).attempts⟩ : ReconcileLimits) = limits
    have hlimit : limits.maxReconciliationAttempts = cfg.invoiceReconciliationMaxAttempts := by
      rw [← hlimits]
    -- either way one lookup less is owed
    have hless : ∃ db', (StoreOp.invoices (.reconcile
        ⟨toDraft row, id.map fun id => ⟨id, (toDraft row).tag⟩, time⟩ limits)).apply w.db =
          (.ok (), db') ∧ lookupsOwed cfg db' < lookupsOwed cfg w.db := by
      cases id with
      | none =>
          have happly := miss_apply hfitting.consistent limits time hrow
            (rfl : (toDraft row).id = row.id)
          exact ⟨_, happly, lookupsOwed_missed hfitting.consistent hrow hstatus
            hlimit (by rw [Database.set_self]; rfl)⟩
      | some x =>
          obtain ⟨db', happly, hdrafts⟩ := created_ok hfitting hi.bounded.drafted hi.bounded.bound
            hrow (hw.1.2.2 x rfl).2 time
          exact ⟨db', happly, (lookupsOwed_created (fun _ => rfl) hdrafts).2 row hrow rfl hstatus⟩
    have hbatches := StoreOp.apply_frame (.invoices (.reconcile
      ⟨toDraft row, id.map fun id => ⟨id, (toDraft row).tag⟩, time⟩ limits)) (u := invoiceBatches)
      (by simp [StoreOp.tables, InvoiceStoreOp.tables]) w.db
    have hothers : ∀ row' ∈ w.db invoiceDrafts, row'.id ≠ (toDraft row).id →
        row' ∈ ((StoreOp.invoices (.reconcile ⟨toDraft row, id.map fun id =>
          ⟨id, (toDraft row).tag⟩, time⟩ limits)).apply w.db).2 invoiceDrafts :=
      reconcile_others _ _ time limits
    obtain ⟨db', happly, hless⟩ := hless
    rw [happly] at hbatches hothers
    have hwithin : ∀ r, Within cfg aim 0 0 (⟨(), .store (.invoices (.reconcile
        ⟨toDraft row, id.map fun id => ⟨id, (toDraft row).tag⟩, time⟩ limits)), r⟩ :: l) db' :=
      fun r => hw.2.2.looked rfl rfl hless (openBatches_of_eq hbatches)
    exact ⟨(), db', happly, calm_cons (by simp), hw.2.1.written hothers, (hwithin _).ahead,
      fun _ => hwithin _⟩

theorem reconcileDrafts_ensures (hmax : 0 < cfg.invoiceMaxAttempts) (time : ℤ) (n : ℕ)
    (batches : List BatchId) (hlooks : looks cfg aim ds l w) :
    Ensures (protocol gen tagOf cfg outset) () (reconcileDrafts cfg time ds n batches)
      (Ends (fun _ => Rests cfg aim) (Rests cfg aim)) l w := by
  induction ds generalizing n batches l w with
  | nil => exact .returned rests_unmoved.stable ⟨hlooks.1, hlooks.2.2.2 rfl⟩
  | cons d ds ih =>
      unfold reconcileDrafts
      refine .call hlooks (lookup_triple d ds hmax) fun answer l w hr => ?_
      rcases hr with ⟨rfl, hlooked⟩ | ⟨id, rfl, hlooked⟩
      · exact store_bind (reconcile_triple d ds hmax none time) hlooked
          (fun _ l w hw => ih _ _ hw) rests_unmoved.stable
      · exact store_bind (reconcile_triple d ds hmax (some id) time) hlooked
          (fun _ l w hw => ih _ _ hw) rests_unmoved.stable

end

/-- With a result unknown there is a draft to look up. -/
theorem unknown_triple (hmax : 0 < cfg.invoiceMaxAttempts) (time : ℤ) {fails : Fact Unit World} :
    (protocol gen tagOf cfg outset).Triple () (reads cfg aim time)
      (.store (.invoices (.unknown time 100)))
      (Ends (fun drafts l w => looks cfg aim drafts l w ∧ (aim.lookups = 0 → drafts = [])) fails) := by
  refine triple_store hmax reads_unmoved (fun _ _ _ hw => .unknown hw.1.1)
    (fun _ _ _ _ => trivial) fun l w hi hw => ?_
  obtain ⟨⟨-, hwithin⟩, hlate⟩ := hw
  obtain ⟨drafts, happly⟩ : ∃ drafts, (StoreOp.invoices (.unknown time 100)).apply w.db =
    (.ok drafts, w.db) := ⟨_, rfl⟩
  have hok := congrArg Prod.fst happly
  have hlisted : Listed .unknown drafts w.db :=
    ⟨unknown_nodup hi.bounded.fitting.consistent hok, fun d hd => unknown_mem hok hd⟩
  have hpassed : ∀ r, Within cfg aim 1 0 (⟨(), .store (.invoices (.unknown time 100)), r⟩ :: l) w.db :=
    fun r => hwithin.passed passes_unknown rfl
  have hempty : drafts = [] → lookupsOwed cfg w.db = 0 := by
    intro hdrafts
    rw [lookupsOwed_eq_zero]
    intro d hd hstatus
    have hmem : d ∈ orderBy InvoiceDraftRow.updatedAt ((w.db invoiceDrafts).filter
        fun d : InvoiceDraftRow => d.status == .unknown && d.nextAttemptAt ≤ time) := by
      refine (List.mem_insertionSort _).mpr (List.mem_filter.mpr ⟨hd, ?_⟩)
      simp [hstatus, hlate.drafts d hd]
    have hnone : ((orderBy InvoiceDraftRow.updatedAt ((w.db invoiceDrafts).filter
        fun d : InvoiceDraftRow => d.status == .unknown && d.nextAttemptAt ≤ time)).take 100).map
          toDraft = drafts := Except.ok.inj hok
    rw [hdrafts, List.map_eq_nil_iff, List.take_eq_nil_iff] at hnone
    simp [hnone.resolve_left (by decide)] at hmem
  refine ⟨drafts, w.db, happly, ⟨calm_cons (by simp), hlisted, hpassed _, fun hdrafts => ?_⟩, ?_⟩
  · exact ⟨by simp [hempty hdrafts], (hpassed _).batches⟩
  · intro haim
    have hnothing := lookupsOwed_eq_zero.mp (hwithin.nothing haim)
    refine List.eq_nil_iff_forall_not_mem.mpr fun d hd => ?_
    obtain ⟨row, hrow, -, hstatus⟩ := hlisted.rows d hd
    exact hnothing row hrow hstatus

/-- A settle of a pass that looked something up. -/
theorem passSettle_triple (hmax : 0 < cfg.invoiceMaxAttempts) (haim : aim.lookups ≠ 0)
    (batchId : BatchId) (time : ℤ) :
    (protocol gen tagOf cfg outset).Triple () (Rests cfg aim)
      (.store (.invoices (.settle batchId time)))
      (Ends (fun _ => Rests cfg aim) (Rests cfg aim)) := by
  refine triple hmax rests_unmoved (fun _ _ _ hw => .settle hw.1) (fun _ _ _ _ => trivial)
    fun l w r w' _ hw hp => ?_
  obtain ⟨-, rfl⟩ := hp
  have hdrafts := StoreOp.apply_frame (.invoices (.settle batchId time)) (u := invoiceDrafts)
    (by simp [StoreOp.tables, InvoiceStoreOp.tables]) w.db
  have hlookups := hw.2.lookups
  have hrests : Rests cfg aim (⟨(), .store (.invoices (.settle batchId time)), r⟩ :: l)
      { w with db := ((StoreOp.invoices (.settle batchId time)).apply w.db).2 } := by
    refine ⟨calm_cons (by simp), ?_, fun hnone => absurd hnone haim⟩
    rw [passes_cons rfl, lookupsOwed_of_eq hdrafts]
    exact hlookups
  exact ends_of (fun _ => hrests) hrests r

/-- A pass leaves one lookup less. -/
theorem pass_ensures (hmax : 0 < cfg.invoiceMaxAttempts) {setOrder : List BatchId → List BatchId}
    (hperm : ∀ ids, (setOrder ids).Perm ids) (hrests : Rests cfg aim l w) :
    Ensures (protocol gen tagOf cfg outset) () (reconcileInvoices cfg setOrder)
      (Always (Rests cfg aim)) l w := by
  have hstable : (protocol gen tagOf cfg outset).Stable () (Rests cfg aim) := rests_unmoved.stable
  refine .call hrests (now_triple hmax) fun time l w hreads => ?_
  refine store_bind (unknown_triple hmax time) hreads (fun drafts l w hr => ?_) hstable
  obtain ⟨hlooks, hnone⟩ := hr
  by_cases haim : aim.lookups = 0
  · obtain rfl := hnone haim
    change Ensures _ _ (Program.forEach _ (setOrder []) >>= _) _ l w
    rw [(hperm []).eq_nil]
    exact .returned hstable ⟨hlooks.1, hlooks.2.2.2 rfl⟩
  · refine .seq sound (reconcileDrafts_ensures drafts hmax time 0 [] hlooks)
      (fun result l w hw => ?_) hstable
    refine .seq sound (.forEach_const sound hstable (fun batchId l w hw => ?_) hw hstable)
      (fun _ l w hw => .returned hstable hw) hstable
    exact store_bind (passSettle_triple hmax haim batchId time) hw
      (fun _ l w hw => .returned hstable hw) hstable

theorem kept (hmax : 0 < cfg.invoiceMaxAttempts) (huuid : Function.Injective gen.uuid5)
    (hamount : ∀ id k, 0 < (gen.payer id k).amount) :
    (protocol gen tagOf cfg outset).Kept (fun _ => Rests cfg aim)
      fun _ => Always (Rests cfg aim) where
  toSound := sound
  rest_stable _ := rests_unmoved.stable
  dies_rest _ _ _ _ _ h := h.elim
  ends_rest := by
    rintro i (e | b) l w hrests
    · exact hrests
    · exact hrests
  begins := by
    rintro l w ⟨⟩ p - hrests hadmitted
    cases hadmitted with
    | tick =>
        exact discard_ensures sound (tick_ensures hmax huuid hamount hrests) rests_unmoved.stable
    | pass setOrder hperm =>
        exact discard_ensures sound (pass_ensures hmax hperm hrests) rests_unmoved.stable

/-! ### Where the provider begins to answer -/

/-- The invoice that a call told of, with the tags that it told of it. -/
def tells : Entry Unit Call Call.Answer → List (InvoiceId × String)
  | ⟨_, .invoiceCreate request, .ok x :: _⟩ => request.tags.map fun tag => (x.id, tag)
  | ⟨_, .invoiceQuery _ tags, .ok x :: _⟩ => tags.map fun tag => (x.id, tag)
  | ⟨_, .store (.events (.record _ r)), _⟩ =>
      match r.event with
      | .credited event => event.tags.map fun tag => (event.invoiceId, tag)
      | _ => []
  | _ => []

/-- The provider returned, listed or credited the invoice with the tag. -/
def Heard (l : CallLog) (id : InvoiceId) (tag : String) : Prop := ∃ e ∈ l, (id, tag) ∈ tells e

theorem Heard.cons {l : CallLog} {id : InvoiceId} {tag : String} (h : Heard l id tag)
    (e : Entry Unit Call Call.Answer) : Heard (e :: l) id tag := by
  obtain ⟨e', he', htells⟩ := h
  exact ⟨e', List.mem_cons_of_mem e he', htells⟩

theorem heard_of_reported {l : CallLog} {d : InvoiceDraft} {id : InvoiceId} (h : Reported d id l) :
    Heard l id d.tag := by
  cases h with
  | found => exact ⟨_, List.mem_cons_self, by simp [tells]⟩
  | created => exact ⟨_, List.mem_cons_self, by simp [tells, invoiceRequest]⟩

theorem heard_of_lookedUp {l : CallLog} {d : InvoiceDraft} {id : InvoiceId}
    (h : LookedUp d (some id) l) : Heard l id d.tag := by
  cases h with
  | found => exact ⟨_, List.mem_cons_self, by simp [tells]⟩

theorem record_heard {l : CallLog} {jobId : TransferJobId} {record : EventRecord}
    {r : Call.Answer (.store (.events (.record jobId record)))} {event : CreditedInvoiceEvent}
    (hevent : record.event = .credited event) {tag : String} (htag : tag ∈ event.tags) :
    Heard (⟨(), .store (.events (.record jobId record)), r⟩ :: l) event.invoiceId tag :=
  ⟨_, List.mem_cons_self, by simp [tells, hevent, htag]⟩

/-- The invoices of the drafts are ones that the provider told of. -/
def AllHeard (l : CallLog) (db : Database Row) : Prop :=
  ∀ d ∈ db invoiceDrafts, ∀ id, d.providerInvoiceId = some id → Heard l id d.tag

theorem AllHeard.of_eq {l : CallLog} {db db' : Database Row} (h : AllHeard l db)
    (hdrafts : db' invoiceDrafts = db invoiceDrafts) (e : Entry Unit Call Call.Answer) :
    AllHeard (e :: l) db' :=
  fun d hd id hid => (h d (hdrafts ▸ hd) id hid).cons e

/-- An invoice of a draft was there before, or a transition brought it. -/
theorem invoices_sources (op : InvoiceStoreOp) (db : Database Row) :
    ∀ d' ∈ ((StoreOp.invoices op).apply db).2 invoiceDrafts, ∀ id,
      d'.providerInvoiceId = some id → ∃ d : InvoiceDraftRow, d.tag = d'.tag ∧
        (d ∈ db invoiceDrafts ∧ d.providerInvoiceId = some id ∨
          d ∈ db invoiceDrafts ∧ ∃ t, transitionOf op = some t ∧ d.id = t.draftId ∧
            t.providerInvoiceId = some id) := by
  have hchanged := invoices_changes op db
  unfold InvoicesChangedIn at hchanged
  generalize ((StoreOp.invoices op).apply db).2 invoiceDrafts = drafts' at hchanged ⊢
  generalize ((StoreOp.invoices op).apply db).2 ownedInvoices = owned' at hchanged
  intro d' hd' id hid
  cases hchanged with
  | same => exact ⟨d', rfl, .inl ⟨hd', hid⟩⟩
  | registered => exact ⟨d', rfl, .inl ⟨hd', hid⟩⟩
  | bound => exact ⟨d', rfl, .inl ⟨hd', hid⟩⟩
  | saved =>
      rcases List.mem_append.mp hd' with hd' | hnew
      · exact ⟨d', rfl, .inl ⟨hd', hid⟩⟩
      · obtain ⟨draft, -, rfl⟩ := List.mem_map.mp hnew
        cases hid
  | @transitioned t ht =>
      rcases mem_assignWhere.mp hd' with ⟨d, hd, hdraft, rfl⟩ | ⟨hd, -⟩
      · exact ⟨d, rfl, .inr ⟨hd, t, ht, beq_iff_eq.mp hdraft, hid⟩⟩
      · exact ⟨d', rfl, .inl ⟨hd, hid⟩⟩
  | retried =>
      rcases mem_assignWhere.mp hd' with ⟨d, -, -, rfl⟩ | ⟨hd, -⟩
      · cases hid
      · exact ⟨d', rfl, .inl ⟨hd, hid⟩⟩
  | missed =>
      rcases mem_assignWhere.mp hd' with ⟨d, hd, -, rfl⟩ | ⟨hd, -⟩
      · exact ⟨d, rfl, .inl ⟨hd, hid⟩⟩
      · exact ⟨d', rfl, .inl ⟨hd, hid⟩⟩

/-- A transaction on drafts that brings the invoice that the last call told of, if any. -/
theorem AllHeard.invoices {l : CallLog} {db : Database Row} (hc : metadata.Consistent db)
    (h : AllHeard l db) (op : InvoiceStoreOp) (r : Call.Answer (.store (.invoices op)))
    (hbrings : ∀ t id, transitionOf op = some t → t.providerInvoiceId = some id →
      ∃ row ∈ db invoiceDrafts, row.id = t.draftId ∧ Heard l id row.tag) :
    AllHeard (⟨(), .store (.invoices op), r⟩ :: l) ((StoreOp.invoices op).apply db).2 := by
  intro d' hd' id hid
  obtain ⟨d, htag, ⟨hd, hinvoice⟩ | ⟨hd, t, ht, hdraft, hinvoice⟩⟩ :=
    invoices_sources op db d' hd' id hid
  · exact (htag ▸ h d hd id hinvoice).cons _
  · obtain ⟨row, hrow, hrowid, hheard⟩ := hbrings t id ht hinvoice
    obtain rfl := (hc invoiceDrafts).eq_of_key hd hrow (hdraft.trans hrowid.symm)
    exact (htag ▸ hheard).cons _

/-- A credit brings its own invoice, or one that the draft has. -/
theorem AllHeard.recorded {l : CallLog} (hfitting : Fitting gen w.db) (h : AllHeard l w.db)
    {jobId : TransferJobId} {record : EventRecord}
    (r : Call.Answer (.store (.events (.record jobId record)))) :
    AllHeard (⟨(), .store (.events (.record jobId record)), r⟩ :: l)
      ((StoreOp.events (.record jobId record)).apply w.db).2 := by
  cases record_changes jobId record hfitting.consistent with
  | untouched hdrafts => exact h.of_eq hdrafts _
  | @owned event o hevent ho howns hdrafts _ _ =>
      cases hdraft : o.draftId with
      | none => exact h.of_eq (by simpa [createdDrafts, hdraft] using hdrafts) _
      | some draftId =>
          intro d' hd' id hid
          simp only [hdrafts, createdDrafts, hdraft] at hd'
          rcases mem_assignWhere.mp hd' with ⟨d, hd, hcond, rfl⟩ | ⟨hd, -⟩
          · obtain rfl : event.invoiceId = id := Option.some.inj hid
            have hsame : d.id = draftId := by
              simp only [Bool.and_eq_true, beq_iff_eq] at hcond
              exact hcond.1
            cases howns with
            | byId hbound =>
                have howner := hfitting.paired.agreed.same d hd o ho (hsame ▸ hdraft)
                exact (h d hd event.invoiceId (howner ▸ hbound)).cons _
            | byTag hmem _ =>
                obtain ⟨row, hrow, hrowid, htag⟩ := hfitting.paired.stored o ho draftId hdraft
                obtain rfl := (hfitting.consistent invoiceDrafts).eq_of_key hd hrow
                  (hsame.trans hrowid.symm)
                exact record_heard hevent (htag ▸ hmem)
          · exact (h d' hd id hid).cons _

/-- Every call that may come before is about an invoice that was told of. -/
theorem called_heard {l : CallLog} (hfitting : Fitting gen w.db) (h : AllHeard l w.db)
    {call : Call} {r : call.Answer} (hcalled : Called gen tagOf cfg l w.db call)
    (hp : Performs (reporting tagOf) (fun _ => True) w call r w') :
    AllHeard (⟨(), call, r⟩ :: l) w'.db := by
  have hc := hfitting.consistent
  cases call with
  | now => exact h.of_eq (hp.2 ▸ rfl) _
  | invoiceQuery limit tags => exact h.of_eq (hp.2 ▸ rfl) _
  | transferQuery limit tags => exact h.of_eq (hp.2 ▸ rfl) _
  | invoiceCreate request =>
      obtain ⟨held, -, rfl⟩ := hp
      exact h.of_eq rfl _
  | transferCreate request =>
      obtain ⟨held, -, rfl⟩ := hp
      exact h.of_eq rfl _
  | store op =>
      obtain ⟨-, rfl⟩ := hp
      have hframe : invoiceDrafts ∉ op.tables →
          AllHeard (⟨(), .store op, r⟩ :: l) (op.apply w.db).2 :=
        fun htables => h.of_eq (StoreOp.apply_frame op htables w.db) _
      cases hcalled with
      | create => exact hframe (by simp [StoreOp.tables, TrialStoreOp.tables])
      | record => exact h.recorded hfitting r
      | ignored => exact hframe (by simp [StoreOp.tables, EventStoreOp.tables])
      | told htold =>
          cases htold with
          | claim => exact hframe (by simp [StoreOp.tables, TrialStoreOp.tables])
          | save => exact h.invoices hc _ r fun t id ht => by simp [transitionOf] at ht
          | pending => exact h.invoices hc _ r fun t id ht => by simp [transitionOf] at ht
          | unknown => exact h.invoices hc _ r fun t id ht => by simp [transitionOf] at ht
          | settle => exact h.invoices hc _ r fun t id ht => by simp [transitionOf] at ht
          | created hlisted hreported =>
              refine h.invoices hc _ r fun t id ht hid => ?_
              obtain rfl := Option.some.inj ht
              obtain rfl := Option.some.inj hid
              obtain ⟨row, hrow, rfl, -⟩ := hlisted.row
              exact ⟨row, hrow, rfl, heard_of_reported hreported⟩
          | refused hlisted hrefused =>
              refine h.invoices hc _ r fun t id ht hid => ?_
              cases hrefused.unissued with
              | retry => simp [transitionOf] at ht
              | failed =>
                  obtain rfl := Option.some.inj ht
                  cases hid
              | unknownResult =>
                  obtain rfl := Option.some.inj ht
                  cases hid
          | @reconcile d found time _ hlisted hlooked =>
              refine h.invoices hc _ r fun t id ht hid => ?_
              cases found with
              | none => simp [transitionOf] at ht
              | some invoice =>
                  obtain rfl := Option.some.inj ht
                  obtain rfl := Option.some.inj hid
                  obtain ⟨row, hrow, rfl, -⟩ := hlisted.row
                  exact ⟨row, hrow, rfl, heard_of_lookedUp hlooked⟩

/-- Every call that may come before keeps the tags. -/
theorem called_tagged {l : CallLog} (hc : metadata.Consistent w.db) (h : Tagged w.db) {call : Call}
    {r : call.Answer} (hcalled : Called gen tagOf cfg l w.db call)
    (hp : Performs (reporting tagOf) (fun _ => True) w call r w') : Tagged w'.db := by
  have hframe : ∀ {op : StoreOp}, invoiceDrafts ∉ op.tables → Tagged (op.apply w.db).2 :=
    fun {op} htables => h.of_eq (StoreOp.apply_frame op htables w.db)
  have hinvoices : ∀ {op : InvoiceStoreOp}, (∀ batchId ds, op ≠ .save batchId ds) →
      Tagged ((StoreOp.invoices op).apply w.db).2 :=
    fun hop => invoices_tagged gen h fun batchId ds heq => absurd heq (hop batchId ds)
  cases call with
  | now => exact hp.2 ▸ h
  | invoiceQuery limit tags => exact hp.2 ▸ h
  | transferQuery limit tags => exact hp.2 ▸ h
  | invoiceCreate request =>
      obtain ⟨held, -, rfl⟩ := hp
      exact h
  | transferCreate request =>
      obtain ⟨held, -, rfl⟩ := hp
      exact h
  | store op =>
      obtain ⟨-, rfl⟩ := hp
      cases hcalled with
      | create => exact hframe (by simp [StoreOp.tables, TrialStoreOp.tables])
      | record => exact recorded_tagged h (record_changes _ _ hc)
      | ignored => exact hframe (by simp [StoreOp.tables, EventStoreOp.tables])
      | told htold =>
          cases htold with
          | claim => exact hframe (by simp [StoreOp.tables, TrialStoreOp.tables])
          | @save batch time =>
              refine invoices_tagged gen h fun batchId ds hop => ⟨batch, time, ?_⟩
              exact (InvoiceStoreOp.save.inj hop).2.symm
          | pending => exact hinvoices (by simp)
          | unknown => exact hinvoices (by simp)
          | created => exact hinvoices (by simp)
          | refused _ hrefused =>
              refine hinvoices fun batchId ds hop => ?_
              subst hop
              cases hrefused.unissued
          | reconcile => exact hinvoices (by simp)
          | settle => exact hinvoices (by simp)

variable {c d e : Config Unit Call Call.Answer Failure Unit World}

/-- In every run so far, when the provider still holds each invoice that it told of. -/
theorem reached (hmax : 0 < cfg.invoiceMaxAttempts) (hw : w.db = emptyDatabase)
    (hc : Runs (BoundedCreations.system gen tagOf cfg) (.initial w) c) (hidle : c.Idle ())
    (hheld : ∀ id tag, Heard c.log id tag → Carries c.state.invoices id tag) (spare : ℕ) :
    Inv gen tagOf cfg ⟨c.log, c.state.db, spare⟩ c.log c.state ∧ Calm c.log := by
  have hempty : InvoiceAttempts.Inv gen tagOf cfg [] w.db := by
    rw [hw]
    refine ⟨fitting_empty, by simp [emptyDatabase], by simp [emptyDatabase], fun d id h => ?_,
      by simp [creates], by simp [emptyDatabase], by simp [Paced]⟩
    cases h
  have hcalm : Unit → BoundedCreations.Rests [] w := fun _ _ _ _ h => by cases h
  have hkept : (BoundedCreations.protocol gen tagOf cfg).Kept (fun _ => BoundedCreations.Rests)
      fun _ => Always BoundedCreations.Rests := BoundedCreations.kept hmax
  obtain ⟨hinv, hstands⟩ := hkept.ensured hempty hc hcalm
  have htagged : Tagged w.db → Tagged c.state.db := by
    refine hkept.rel hempty (fun w w' => Tagged w.db → Tagged w'.db) (fun _ h => h)
      (fun _ _ _ h h' hw => h' (h hw)) (fun l w _ call r w' hw hcall hp h => ?_)
      (fun l w w' _ hdb h => h.reordered hdb) (fun _ _ _ _ _ h => h.elim) .refl hc hcalm
    exact called_tagged hw.fitting.consistent h hcall hp
  have hheard : AllHeard [] w.db → AllHeard c.log c.state.db := by
    refine hkept.rel_log hempty (fun l w l' w' => AllHeard l w.db → AllHeard l' w'.db)
      (fun _ _ h => h) (fun _ _ _ _ _ _ h h' hw => h' (h hw))
      (fun l w _ call r w' hw hcall hp h => ?_)
      (fun l w w' _ hdb h d hd => h d (hdb.mem.mp hd)) (fun _ _ _ _ _ h => h.elim) .refl hc hcalm
    exact called_heard hw.fitting h hcall hp
  have hnodraft : ∀ d, d ∉ w.db invoiceDrafts := by simp [hw, emptyDatabase]
  refine ⟨⟨hinv, htagged fun d hd => absurd hd (hnodraft d), fun _ => ?_,
    fun d hd hstatus => ?_⟩, hkept.rests_of_idle (hstands ()) hinv hidle⟩
  · rw [Nat.add_sub_cancel_left]
    exact .of_eq rfl rfl
  · have hsome := (hinv.fitting.paired.agreed.status d hd).mp hstatus
    obtain ⟨id, hid⟩ := Option.ne_none_iff_exists'.mp hsome
    exact ⟨id, hid, hheld id d.tag (hheard (fun d hd => absurd hd (hnodraft d)) d hd id hid)⟩

theorem rests_aimAt (hcalm : Calm l) : Rests cfg (aimAt cfg l w.db) l w := ⟨hcalm, within_aimAt⟩

theorem rested (hmax : 0 < cfg.invoiceMaxAttempts) (huuid : Function.Injective gen.uuid5)
    (hamount : ∀ id k, 0 < (gen.payer id k).amount) (hinv : Inv gen tagOf cfg outset c.log c.state)
    (hrests : Rests cfg aim c.log c.state) (hidle : c.Idle ())
    (h : Runs (system gen tagOf cfg) c d) (hidle' : d.Idle ()) :
    Inv gen tagOf cfg outset d.log d.state ∧ Rests cfg aim d.log d.state :=
  (kept hmax huuid hamount).rested (fun _ o _ _ hrests => ends_of (fun _ => hrests) hrests o) hinv
    (fun _ => hidle) (fun _ => hrests) h hidle'

/-- Batches that keep their ids and their trial are all of the batches of the trial. -/
theorem batchesOf_only {db db' : Database Row} {runId : TrialRunId}
    (fits : InvoiceBatchRow → Prop) (h : Fitting gen db) (h' : Fitting gen db')
    (hr : ∃ r ∈ db trialRuns, r.id = runId)
    (hkept : ∀ b ∈ db invoiceBatches, b.runId = runId →
      ∃ b' ∈ db' invoiceBatches, b'.id = b.id ∧ b'.runId = runId ∧ fits b') :
    ∃ r ∈ db' trialRuns, r.id = runId ∧ ∀ b' ∈ db' invoiceBatches, b'.runId = runId → fits b' := by
  obtain ⟨r, hr, rfl⟩ := hr
  have hnodup : ∀ {db : Database Row}, Fitting gen db →
      ((batchesOf r.id db).map InvoiceBatchRow.id).Nodup := by
    intro db h
    refine List.pairwise_map.mpr (List.Pairwise.sublist List.filter_sublist ?_)
    refine (h.consistent invoiceBatches).2.imp fun {a b} hab hid => ?_
    simp [metadata, uniqueConflict, hid] at hab
  have hsub : (batchesOf r.id db).map InvoiceBatchRow.id ⊆
      (batchesOf r.id db').map InvoiceBatchRow.id := by
    intro id hid
    obtain ⟨b, hb, rfl⟩ := List.mem_map.mp hid
    obtain ⟨hb, hrun⟩ := List.mem_filter.mp hb
    obtain ⟨b', hb', hid, hrun', -⟩ := hkept b hb (beq_iff_eq.mp hrun)
    exact List.mem_map.mpr ⟨b', List.mem_filter.mpr ⟨hb', beq_iff_eq.mpr hrun'⟩, hid⟩
  have height := h.tracked.eight r hr
  obtain ⟨b, hb⟩ : ∃ b, b ∈ batchesOf r.id db := List.exists_mem_of_length_pos (by omega)
  obtain ⟨hb, hrun⟩ := List.mem_filter.mp hb
  obtain ⟨b', hb', -, hrun', -⟩ := hkept b hb (beq_iff_eq.mp hrun)
  obtain ⟨r', hr', hid'⟩ := h'.tracked.run b' hb'
  rw [hrun'] at hid'
  have height' := h'.tracked.eight r' hr'
  rw [hid'] at height'
  have hperm : ((batchesOf r.id db).map InvoiceBatchRow.id).Perm
      ((batchesOf r.id db').map InvoiceBatchRow.id) := by
    refine (List.subperm_of_subset (hnodup h) hsub).perm_of_length_le ?_
    simp [height, height']
  refine ⟨r', hr', hid', fun b' hb' hrun' => ?_⟩
  have hmem := hperm.mem_iff.mpr (List.mem_map_of_mem
    (List.mem_filter.mpr ⟨hb', beq_iff_eq.mpr hrun'⟩ : b' ∈ batchesOf r.id db'))
  obtain ⟨b, hb, hid⟩ := List.mem_map.mp hmem
  obtain ⟨hb, hrun⟩ := List.mem_filter.mp hb
  obtain ⟨b'', hb'', hid'', -, hfits⟩ := hkept b hb (beq_iff_eq.mp hrun)
  obtain rfl := (h'.consistent invoiceBatches).eq_of_key hb'' hb' (hid''.trans hid)
  exact hfits

/-- The batch is completed, and each of its drafts has an invoice that is held. -/
structure Completed (w : World) (b : InvoiceBatchRow) : Prop where
  status : b.status = .completed
  whole : ((draftsOf b.id w.db).length : ℤ) = b.targetCount
  drafts : ∀ d ∈ w.db invoiceDrafts, d.batchId = b.id →
    d.status = .created ∧ Invoiced w.invoices d

/-- No batch is open after that, and what could be completed is. -/
theorem completed (hmax : 0 < cfg.invoiceMaxAttempts) (huuid : Function.Injective gen.uuid5)
    (hamount : ∀ id k, 0 < (gen.payer id k).amount) (hw : w.db = emptyDatabase)
    (hc : Runs (BoundedCreations.system gen tagOf cfg) (.initial w) c) (hcidle : c.Idle ())
    (hheld : ∀ id tag, Heard c.log id tag → Carries c.state.invoices id tag)
    (hd : Runs (system gen tagOf cfg) c d) (hdidle : d.Idle ())
    (hpasses : passes c.log + lookupsOwed cfg c.state.db ≤ passes d.log)
    (he : Runs (system gen tagOf cfg) d e) (heidle : e.Idle ())
    (hticks : ticks d.log + openBatches d.state.db ≤ ticks e.log) :
    (∀ b ∈ e.state.db invoiceBatches, unfinished b = false) ∧
    (∀ b ∈ c.state.db invoiceBatches, OnCourse cfg c.state.db (ticks e.log - ticks c.log) b →
      ∃ b' ∈ e.state.db invoiceBatches, b'.id = b.id ∧ Completed e.state b') ∧
    ∀ r ∈ c.state.db trialRuns, (∀ b ∈ c.state.db invoiceBatches, b.runId = r.id →
        OnCourse cfg c.state.db (ticks e.log - ticks c.log) b) →
      ∃ r' ∈ e.state.db trialRuns, r'.id = r.id ∧ r'.status = .completed ∧
        r'.activeMarker ≠ some 1 := by
  obtain ⟨hinv, hcalm⟩ := reached hmax hw hc hcidle hheld (ticks e.log - ticks c.log)
  -- the passes leave no lookup that is owed
  obtain ⟨hinv', hcalm', hwithin'⟩ := rested hmax huuid hamount hinv (rests_aimAt hcalm) hcidle hd
    hdidle
  have howed : lookupsOwed cfg d.state.db = 0 := by
    have hleft := hwithin'.lookups
    simp only [aimAt] at hleft
    omega
  -- so that each of the ticks closes a batch
  obtain ⟨hinv'', -, hwithin''⟩ := rested hmax huuid hamount hinv' (rests_aimAt hcalm') hdidle he
    heidle
  have hclosed : ∀ b ∈ e.state.db invoiceBatches, unfinished b = false := by
    refine openBatches_eq_zero.mp ?_
    have hleft := hwithin''.batches howed
    simp only [aimAt] at hleft
    omega
  have hfitting := hinv''.bounded.fitting
  have hspare : ticks e.log ≤ ticks c.log + (ticks e.log - ticks c.log) := by omega
  have hcourse := hinv''.course hspare
  have hdone : ∀ b ∈ c.state.db invoiceBatches,
      OnCourse cfg c.state.db (ticks e.log - ticks c.log) b → ∃ b' ∈ e.state.db invoiceBatches,
        b'.id = b.id ∧ b'.runId = b.runId ∧ b'.status = .completed := by
    intro b hb hon
    obtain ⟨b', hb', hid, hrun, hstatus | ⟨hopen, -⟩⟩ := hcourse b hb hon
    · exact ⟨b', hb', hid, hrun, hstatus⟩
    · rw [hclosed b' hb'] at hopen
      exact Bool.noConfusion hopen
  refine ⟨hclosed, fun b hb hon => ?_, fun r hr hon => ?_⟩
  · obtain ⟨b', hb', hid, -, hstatus⟩ := hdone b hb hon
    obtain ⟨hsome, hcreated⟩ := hfitting.tracked.issued b' hb' hstatus
    refine ⟨b', hb', hid, hstatus, draftsOf_length hfitting hb' hsome, fun d' hd' hbatch => ?_⟩
    exact ⟨hcreated d' hd' hbatch, hinv''.invoiced d' hd' (hcreated d' hd' hbatch)⟩
  · obtain ⟨r', hr', hid, hall⟩ := batchesOf_only (fun b => b.status = .completed)
      hinv.bounded.fitting hfitting ⟨r, hr, rfl⟩ fun b hb hrun => by
        obtain ⟨b', hb', hid, hrun', hstatus⟩ := hdone b hb (hon b hb hrun)
        exact ⟨b', hb', hid, hrun'.trans hrun, hstatus⟩
    have hcompleted := (hfitting.tracked.completed r' hr').mpr fun b hb hrun =>
      hall b hb (hrun.trans hid)
    refine ⟨r', hr', hid, hcompleted, fun hmarker => ?_⟩
    have hactive := (hfitting.tracked.active r' hr').mp hmarker
    rw [hcompleted] at hactive
    cases hactive

/-! ### Ticks that are run to their end -/

/-- What a tick calls after its claim. -/
def Later (call : Call) : Prop := ∀ r, isClaim ⟨(), call, r⟩ = false

theorem callInvoices_issues (op : InvoiceStoreOp) : (callStore (.invoices op)).Issues Later := by
  refine ⟨fun _ => rfl, fun r => ?_⟩
  cases r <;> trivial

theorem createDraft_issues (d : InvoiceDraft) (time : ℤ) :
    (createDraft cfg d time).Issues Later := by
  have hcreate : (createInvoice cfg.liveOperationsEnabled d).Issues Later := by
    unfold createInvoice
    cases cfg.liveOperationsEnabled with
    | false => trivial
    | true =>
        refine ⟨fun _ => rfl, fun answer => ?_⟩
        rcases answer with _ | ⟨_ | _, _⟩ <;> trivial
  refine .bind hcreate fun created => ?_
  cases created with
  | ok invoice => exact callInvoices_issues _
  | error error =>
      simp only [Program.issues_ite]
      exact ⟨fun _ => callInvoices_issues _, fun _ => ⟨fun _ => .bind (callInvoices_issues _)
        fun _ => trivial, fun _ => callInvoices_issues _⟩⟩

theorem issueDraft_issues (d : InvoiceDraft) (time : ℤ) :
    (issueDraft cfg d time).Issues Later := by
  have hlookup : (settleAttemptedDraft cfg d time).Issues Later := by
    have hfind : (findInvoice d.tag).Issues Later := by
      refine ⟨fun _ => rfl, fun answer => ?_⟩
      rcases answer with _ | ⟨_ | _, _⟩ <;> trivial
    refine .bind hfind fun found => ?_
    rcases found with error | _ | existing
    · simp only [Program.issues_ite]
      exact ⟨fun _ => .bind (.bind (callInvoices_issues _) fun _ => trivial) fun _ => trivial,
        fun _ => .bind (callInvoices_issues _) fun _ => trivial⟩
    · trivial
    · exact .bind (callInvoices_issues _) fun _ => trivial
  unfold issueDraft
  simp only [Program.issues_ite]
  refine ⟨fun _ => .bind hlookup fun done => ?_, fun _ => createDraft_issues d time⟩
  cases done with
  | true => trivial
  | false => exact createDraft_issues d time

/-- A tick makes one claim. -/
theorem tick_counted (hmax : 0 < cfg.invoiceMaxAttempts) (huuid : Function.Injective gen.uuid5)
    (hamount : ∀ id k, 0 < (gen.payer id k).amount) (hlive : cfg.liveOperationsEnabled = true)
    (hrests : Rests cfg aim l w) : Ensures (protocol gen tagOf cfg outset) () (tick gen cfg)
      (Always fun l' w' => Rests cfg aim l' w' ∧ ticks l' = ticks l + 1) l w := by
  have h : Ensures (protocol gen tagOf cfg outset) () (tick gen cfg) (Always (Rests cfg aim)) l w :=
    tick_ensures hmax huuid hamount hrests
  have hcounted : Ensures (protocol gen tagOf cfg outset) () (tick gen cfg)
      (fun o l' w' => Always (Rests cfg aim) o l' w' ∧ ticks l' = ticks l + 1) l w := by
    unfold tick at h ⊢
    rw [if_pos hlive] at h ⊢
    rintro l' w' ⟨rfl, hdb⟩ hi
    obtain ⟨hdemand, hnext⟩ := h l' w' ⟨rfl, hdb⟩ hi
    refine ⟨hdemand, fun time t he => ?_⟩
    obtain ⟨hinv, hothers, hclaim⟩ := hnext time t he
    refine ⟨hinv, hothers, fun l'' w'' hr hi => ?_⟩
    obtain ⟨rfl, -⟩ := id hr
    obtain ⟨hdemand, hnext⟩ := hclaim _ w'' hr hi
    refine ⟨hdemand, fun claimed t he => ?_⟩
    obtain ⟨hinv, hothers, hrest⟩ := hnext claimed t he
    refine ⟨hinv, hothers, hrest.along (show Program.Issues Later _ from ?_) ?_ ?_ ?_⟩
    · refine .bind (by cases claimed <;> trivial) fun found => ?_
      rcases found with _ | batch
      · trivial
      · refine .bind (callInvoices_issues (.save _ _)) fun _ => ?_
        refine .bind (callInvoices_issues (.pending _ _)) fun drafts => ?_
        refine .bind (.forEach fun d _ => issueDraft_issues d time) fun _ => ?_
        exact .bind (callInvoices_issues (.settle _ _)) fun _ => trivial
    · rintro l w l' w' ⟨rfl, -⟩ hticks
      exact hticks
    · exact fun l call r hcall hticks => (ticks_cons (hcall r)).trans hticks
    · rw [ticks_claim, ticks_cons rfl]
  refine hcounted.mono fun o l' w' ho => ?_
  cases o with
  | ok result => exact ho
  | error error => exact ho

/-- When an invoice can be made for every tag, every call is answered. -/
theorem answered_total (htags : ∀ tag, ∃ id, tagOf id = tag) {call : Call}
    (htold : Told Calm gen cfg l w.db call) :
    ∃ r w', Performs (answering tagOf) (Late w.db) w call r w' := by
  have hstore : ∀ op, ∃ r w', Performs (answering tagOf) (Late w.db) w (.store op) r w' :=
    fun op => ⟨_, _, rfl, rfl⟩
  cases htold with
  | now =>
      obtain ⟨time, htime⟩ := exists_late w.db
      exact ⟨time, w, htime, rfl⟩
  | lookup => exact ⟨[], w, .inl rfl, rfl⟩
  | @create d =>
      obtain ⟨id, hid⟩ := htags d.tag
      exact ⟨_, _, _, ⟨id, congrArg (fun tag => [tag]) hid.symm, rfl, rfl⟩, rfl⟩
  | _ => exact hstore _

/-- Any number of ticks can be run. -/
theorem ticks_run (hmax : 0 < cfg.invoiceMaxAttempts) (huuid : Function.Injective gen.uuid5)
    (hamount : ∀ id k, 0 < (gen.payer id k).amount) (hlive : cfg.liveOperationsEnabled = true)
    (htags : ∀ tag, ∃ id, tagOf id = tag) (hinv : Inv gen tagOf cfg outset c.log c.state)
    (hrests : Rests cfg aim c.log c.state) (hidle : c.Idle ()) (n : ℕ) :
    ∃ d, Runs (system gen tagOf cfg) c d ∧ d.Idle () ∧ ticks d.log = ticks c.log + n := by
  induction n generalizing c with
  | zero => exact ⟨c, .refl, hidle, rfl⟩
  | succ n ih =>
      have hstable : (protocol gen tagOf cfg outset).Stable () fun l w =>
          Rests cfg aim l w ∧ ticks l = ticks c.log + 1 :=
        Unmoved.stable fun l w w' h hdb hheld => ⟨rests_unmoved l w w' h.1 hdb hheld, h.2⟩
      have hticked : Ensures (protocol gen tagOf cfg outset) () (tick gen cfg).discard
          (Always fun l w => Rests cfg aim l w ∧ ticks l = ticks c.log + 1) c.log c.state :=
        discard_ensures sound (tick_counted hmax huuid hamount hlive hrests) hstable
      obtain ⟨d, o, hd, hidle', hinv', hended⟩ := hticked.finishes sound
        (c := ⟨c.log, c.state, Function.update c.procs () (some (tick gen cfg).discard)⟩)
        (fun l w call hi hdemand => answered_total htags hdemand.1) (by simp) hinv
      have hended : Rests cfg aim d.log d.state ∧ ticks d.log = ticks c.log + 1 := by
        cases o with
        | ok result => exact hended
        | error error => exact hended
      obtain ⟨e, he, hidle'', hticks⟩ := ih hinv' hended.1 hidle'
      exact ⟨e, .head (.begin hidle .tick) (hd.trans he), hidle'', by omega⟩

end

/-! ### A trial with one unknown result -/

instance (db : Database Row) (time : ℤ) : Decidable (Late db time) :=
  decidable_of_iff ((∀ b ∈ db invoiceBatches, b.scheduledAt ≤ time) ∧
    (∀ b ∈ db invoiceBatches, ∀ lease ∈ b.leaseUntil, lease ≤ time) ∧
    ∀ d ∈ db invoiceDrafts, d.nextAttemptAt ≤ time)
    ⟨fun h => ⟨h.1, h.2.1, h.2.2⟩, fun h => ⟨h.scheduled, h.leases, h.drafts⟩⟩

instance (cfg : TrialSettings) (d : InvoiceDraftRow) : Decidable (Hopeful cfg d) :=
  inferInstanceAs (Decidable (_ ∧ _))

instance (cfg : TrialSettings) (db : Database Row) (spare : ℕ) (b : InvoiceBatchRow) :
    Decidable (OnCourse cfg db spare b) := inferInstanceAs (Decidable (_ ∨ _ ∧ _ ∧ _))

instance (held : List HeldInvoice) (id : InvoiceId) (tag : String) :
    Decidable (Carries held id tag) :=
  inferInstanceAs (Decidable (∃ x ∈ held, x.id = id ∧ tag ∈ x.request.tags))

/-- The clock is late, and lookups list nothing. -/
def lateAnswer (_ : CallLog) (w : World) (_ : Unit) :
    (call : Call) → Script → Option (call.Answer × World)
  | .now, .clock time => if Late w.db time then some (time, w) else none
  | .store op, .commit => some ((op.apply w.db).1, { w with db := (op.apply w.db).2 })
  | .invoiceQuery _ _, .lookup => some ([], w)
  | _, _ => none

theorem lateAnswer_performs {tagOf : InvoiceId → String} {l : CallLog} {w : World} {i : Unit}
    {call : Call} {script : Script} {r : call.Answer × World}
    (h : lateAnswer l w i call script = some r) :
    Performs (answering tagOf) (Late w.db) w call r.1 r.2 := by
  unfold lateAnswer at h
  split at h
  · split_ifs at h with hlate
    obtain rfl := Option.some.inj h
    exact ⟨hlate, rfl⟩
  · obtain rfl := Option.some.inj h
    exact ⟨rfl, rfl⟩
  · obtain rfl := Option.some.inj h
    exact ⟨.inl rfl, rfl⟩
  · cases h

/-- The first of two passes looks the draft up in vain, and the second finds none to look up. -/
def twoPasses : List (ScriptedMove Unit) :=
  [.begin () (reconcileInvoices WaitingDrafts.oneLookup id).discard,
    .call () (.clock (seconds 100000)), .call () .commit, .call () .lookup, .call () .commit,
    .call () .commit, .begin () (reconcileInvoices WaitingDrafts.oneLookup id).discard,
    .call () (.clock (seconds 200000)), .call () .commit]

theorem twoPasses_allowed :
    ∀ m ∈ twoPasses, m.Allowed (system plainGenerators id WaitingDrafts.oneLookup) := by
  have hpass := @Admitted.pass plainGenerators WaitingDrafts.oneLookup id fun _ => .refl _
  simp [twoPasses, Move.Allowed, system, hpass]

theorem completed_unknown : ∃ c d e : Config Unit Call Call.Answer Failure Unit World,
    lookupsOwed WaitingDrafts.oneLookup c.state.db = 2 ∧ openBatches d.state.db = 8 ∧
      (∀ b ∈ e.state.db invoiceBatches, unfinished b = false) ∧
      ∃ r ∈ e.state.db trialRuns, r.id = "r" ∧ r.status = .completed ∧
        r.activeMarker ≠ some 1 := by
  have hplay : ((playAll (BoundedCreations.reportedAnswer id) (.initial CoherentTrials.emptyWorld)
      BoundedCreations.unknownFirst).bind fun c => (playAll lateAnswer c twoPasses).map fun d =>
        c.isIdle () && d.isIdle () && lookupsOwed WaitingDrafts.oneLookup c.state.db == 2 &&
          passes c.log + lookupsOwed WaitingDrafts.oneLookup c.state.db == passes d.log &&
          ticks c.log == ticks d.log && openBatches d.state.db == 8 &&
          decide (∀ b ∈ c.state.db invoiceBatches,
            OnCourse WaitingDrafts.oneLookup c.state.db 8 b) &&
          decide (∀ e ∈ c.log, ∀ p ∈ tells e, Carries c.state.invoices p.1 p.2) &&
          (c.state.db trialRuns).any fun r : TrialRunRow => r.id == "r") = some true := by
    decide
  obtain ⟨c, hc, hrest⟩ := Option.bind_eq_some_iff.mp hplay
  obtain ⟨d, hd, hfacts⟩ := Option.map_eq_some_iff.mp hrest
  simp only [Bool.and_eq_true, beq_iff_eq, decide_eq_true_eq, List.any_eq_true] at hfacts
  obtain ⟨⟨⟨⟨⟨⟨⟨⟨hcidle, hdidle⟩, howed⟩, hpasses⟩, hticks⟩, hopen⟩, hcourse⟩, htold⟩, r, hr, hid⟩ :=
    hfacts
  have hanswer : ∀ l w i call script r,
      BoundedCreations.reportedAnswer id l w i call script = some r →
        (BoundedCreations.system plainGenerators id WaitingDrafts.oneLookup).exec l w i call r.1 r.2 :=
    fun _ _ _ _ _ _ h => BoundedCreations.reportedAnswer_performs h
  have hlate : ∀ l w i call script r, lateAnswer l w i call script = some r →
      (system plainGenerators id WaitingDrafts.oneLookup).exec l w i call r.1 r.2 :=
    fun _ _ _ _ _ _ h => lateAnswer_performs h
  have hruns := playAll_runs hanswer
    (fun m hm => BoundedCreations.createdAgain_allowed m (List.mem_append.mpr (.inl hm))) hc
  have hruns' := playAll_runs hlate twoPasses_allowed hd
  have hmax : 0 < WaitingDrafts.oneLookup.invoiceMaxAttempts := by decide
  have huuid : Function.Injective plainGenerators.uuid5 := Function.injective_id
  have hamount : ∀ id k, 0 < (plainGenerators.payer id k).amount := fun _ _ => by simp [plainGenerators]
  have hcidle := Config.idle_of_isIdle hcidle
  have hdidle := Config.idle_of_isIdle hdidle
  have hheld : ∀ id tag, Heard c.log id tag → Carries c.state.invoices id tag :=
    fun id tag ⟨e, he, htells⟩ => htold e he (id, tag) htells
  -- eight more ticks exist
  obtain ⟨hinv, hcalm⟩ := reached hmax rfl hruns hcidle hheld 8
  obtain ⟨hinv', hrests⟩ := rested hmax huuid hamount hinv (rests_aimAt hcalm) hcidle hruns' hdidle
  obtain ⟨e, he, heidle, hcount⟩ := ticks_run hmax huuid hamount rfl (fun tag => ⟨tag, rfl⟩) hinv'
    hrests hdidle 8
  have hspare : ticks e.log - ticks c.log = 8 := by omega
  obtain ⟨hclosed, -, hcompleted⟩ := completed hmax huuid hamount rfl hruns hcidle hheld hruns'
    hdidle hpasses.le he heidle (by omega)
  obtain ⟨r', hr', hid', hstatus⟩ := hcompleted r hr fun b hb _ => hspare ▸ hcourse b hb
  exact ⟨c, d, e, howed, hopen, hclosed, r', hr', hid'.trans hid, hstatus⟩

end StarkbankTrial.CompletedTrials
