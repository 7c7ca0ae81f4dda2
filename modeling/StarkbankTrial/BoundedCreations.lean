import StarkbankTrial.InvoiceAttempts
import StarkbankTrial.WaitingDrafts

/-!
# How often a draft is created

The system whose invocations do not overlap and are not cut off, with a provider that only
reports an invoice for its own tag. In all its runs a draft is tried a bounded number of
times, with the lookups that have to come first, and no more once it is done.
-/
namespace StarkbankTrial.BoundedCreations
open Domain InteractivePrograms InterleavedRuns RelationalTables DatabaseSchema
open DatabaseSchema.Table
open EventRecording InvoiceRecording StoreOperations InvoiceChanges ExternalCalls
open ProviderClient Services WorkerRules TrialRules ScriptedRuns
open UndisturbedServices TrialInvariants CoherentTrials InvoiceAttempts
open WaitingDrafts (oneLookup firstTick)

/-- Trial starts, ticks and passes with the same settings, and deliveries. -/
inductive Admitted (gen : Generators) (tagOf : InvoiceId → String) (cfg : TrialSettings) :
    Service Unit → Prop
  | start (runId : TrialRunId) (startAt : Option DateTime) (counts : List ℤ) :
      Admitted gen tagOf cfg (start gen cfg runId startAt counts).discard
  | tick : Admitted gen tagOf cfg (tick gen cfg).discard
  | pass (setOrder : List BatchId → List BatchId) :
      Admitted gen tagOf cfg (reconcileInvoices cfg setOrder).discard
  | verified (jobId : TransferJobId) (event : VerifiedEvent) (payloadHash : String) :
      TrulyTagged tagOf event →
      Admitted gen tagOf cfg (receive jobId (.verified event payloadHash)).discard
  | foreign (jobId : TransferJobId) (event : IgnoredEvent) (payloadHash : String) :
      Admitted gen tagOf cfg (receive jobId (.unexpectedWorkspace event payloadHash)).discard

/-- One process, which never dies. -/
def system (gen : Generators) (tagOf : InvoiceId → String) (cfg : TrialSettings) :
    System Unit Call Call.Answer Failure Unit World where
  admits _ _ _ p := Admitted gen tagOf cfg p
  exec _ w _ call r w' := Performs (reporting tagOf) (fun _ => True) w call r w'
  drift _ w w' := Reordered w.db w'.db
  dies _ _ _ _ := False

def protocol (gen : Generators) (tagOf : InvoiceId → String) (cfg : TrialSettings) :
    Protocol Unit Call Call.Answer Failure Unit World where
  toSystem := system gen tagOf cfg
  inv l w := Inv gen tagOf cfg l w.db
  rely _ l w l' w' := l' = l ∧ Reordered w.db w'.db
  demand _ call l w := Called gen tagOf cfg l w.db call

/-- What is known between two invocations. -/
abbrev Rests : Fact Unit World := fun l _ => Calm l

section
variable {gen : Generators} {tagOf : InvoiceId → String} {cfg : TrialSettings}

theorem sound : (protocol gen tagOf cfg).Sound where
  rely_refl _ _ _ := ⟨rfl, fun _ => .refl _⟩
  rely_trans _ _ _ _ _ _ _ h h' := ⟨h'.1.trans h.1, fun t => (h.2 t).trans (h'.2 t)⟩
  drift_keeps _ _ _ h hdb := ⟨h.reordered hdb, fun _ => ⟨rfl, hdb⟩⟩
  dies_keeps _ _ _ _ _ h := h.elim

theorem undisturbed (hmax : 0 < cfg.invoiceMaxAttempts) :
    Undisturbed (protocol gen tagOf cfg) Calm gen cfg where
  toSound := sound
  calms _ _ _ h := calm_cons h
  relied _ _ _ _ _ h := h
  demand _ _ _ _ _ hcall := .told hcall
  consistent _ _ h := h.fitting.consistent
  performs _ _ _ _ _ _ h := reporting_any h
  keeps _ _ _ _ _ _ h hcall he := h.performs hmax (.told hcall) he

/-- A call that is made between ticks and passes. -/
theorem calm_triple (hmax : 0 < cfg.invoiceMaxAttempts) {call : Call}
    (hcall : ∀ l db, Calm l → Called gen tagOf cfg l db call)
    (hne : ∀ request, call ≠ .invoiceCreate request) :
    (protocol gen tagOf cfg).Triple () Rests call fun _ => Rests where
  stable := by
    rintro l w l' w' hcalm ⟨rfl, -⟩ -
    exact hcalm
  demand l w hcalm _ := hcall l w.db hcalm
  keeps l w _ _ hcalm hw he := ⟨hw.performs hmax (hcall l w.db hcalm) he, fun _ hj => absurd rfl hj⟩
  result _ _ _ _ _ _ _ := calm_cons hne

theorem rests_stable {i : Unit} : (protocol gen tagOf cfg).Stable i Rests := by
  rintro l w l' w' hcalm ⟨rfl, -⟩ -
  exact hcalm

theorem start_issues (runId : TrialRunId) (startAt : Option DateTime) (counts : List ℤ) :
    (start gen cfg runId startAt counts).Issues fun call =>
      ∀ request, call ≠ .invoiceCreate request := by
  have hstart : ∀ startAt : DateTime, (start gen cfg runId (some startAt) counts).Issues fun call =>
      ∀ request, call ≠ .invoiceCreate request := by
    intro startAt
    unfold start
    split_ifs
    · simp only [Program.done_bind]
      cases buildSchedule startAt counts with
      | error e => trivial
      | ok schedule =>
          refine ⟨by simp, fun r => ?_⟩
          cases r <;> trivial
    · trivial
  cases startAt with
  | some startAt => exact hstart startAt
  | none =>
      unfold start at hstart ⊢
      split_ifs at hstart ⊢
      · exact ⟨by simp, fun time => hstart ⟨time, some 0⟩⟩
      · trivial

theorem receive_issues (jobId : TransferJobId) (delivery : Delivery) :
    (receive jobId delivery).Issues fun call => ∀ request, call ≠ .invoiceCreate request := by
  cases delivery with
  | verified event payloadHash =>
      refine ⟨by simp, fun time => ⟨by simp, fun r => ?_⟩⟩
      cases r <;> trivial
  | unexpectedWorkspace event payloadHash =>
      refine ⟨by simp, fun time => ⟨by simp, fun r => ?_⟩⟩
      cases r <;> trivial

/-- An invocation without creations ends as it began. -/
theorem rests_ensures {B : Type} {p : Service B} {l : CallLog} {w : World}
    (h : Ensures (protocol gen tagOf cfg) () p Anything l w)
    (hissues : p.Issues fun call => ∀ request, call ≠ .invoiceCreate request) (hcalm : Calm l) :
    Ensures (protocol gen tagOf cfg) () p (Always Rests) l w := by
  have hrely : ∀ (l : CallLog) w l' w', (protocol gen tagOf cfg).rely () l w l' w' →
      Calm l → Calm l' := by
    rintro l w l' w' ⟨rfl, -⟩ hcalm
    exact hcalm
  refine (h.along hissues hrely (fun l op r hop _ => calm_cons hop) hcalm).mono ?_
  rintro (e | b) l w ⟨-, hcalm⟩
  · exact hcalm
  · exact hcalm

theorem startRules (hmax : 0 < cfg.invoiceMaxAttempts) (runId : TrialRunId) :
    StartRules (protocol gen tagOf cfg) () gen runId Rests where
  now := calm_triple hmax (fun _ _ hcalm => .told (.now hcalm)) (by simp)
  create command hlength :=
    (calm_triple hmax (fun _ _ hcalm => .create hcalm hlength) (by simp)).mono
      fun _ _ _ _ => trivial

theorem verifiedRules (hmax : 0 < cfg.invoiceMaxAttempts) (jobId : TransferJobId)
    {event : VerifiedEvent} (payloadHash : String) (htagged : TrulyTagged tagOf event) :
    DeliveryRules (protocol gen tagOf cfg) () jobId (.verified event payloadHash) Rests
      fun _ => Rests where
  now := calm_triple hmax (fun _ _ hcalm => .told (.now hcalm)) (by simp)
  record event' payloadHash' time heq := by
    obtain ⟨rfl, rfl⟩ := Delivery.verified.inj heq
    exact (calm_triple hmax (fun _ _ hcalm => .record hcalm htagged) (by simp)).mono
      fun _ _ _ _ => trivial
  ignored _ _ _ heq := by cases heq

theorem foreignRules (hmax : 0 < cfg.invoiceMaxAttempts) (jobId : TransferJobId)
    (event : IgnoredEvent) (payloadHash : String) :
    DeliveryRules (protocol gen tagOf cfg) () jobId (.unexpectedWorkspace event payloadHash) Rests
      fun _ => Rests where
  now := calm_triple hmax (fun _ _ hcalm => .told (.now hcalm)) (by simp)
  record _ _ _ heq := by cases heq
  ignored event' payloadHash' time heq :=
    (calm_triple hmax (fun _ _ hcalm => .ignored hcalm) (by simp)).mono fun _ _ _ _ => trivial

theorem kept (hmax : 0 < cfg.invoiceMaxAttempts) :
    (protocol gen tagOf cfg).Kept (fun _ => Rests) fun _ => Always Rests where
  toSound := sound
  rest_stable _ := rests_stable
  dies_rest _ _ _ _ _ h := h.elim
  ends_rest := by
    rintro i (e | b) l w hcalm
    · exact hcalm
    · exact hcalm
  begins := by
    rintro l w ⟨⟩ p - hcalm hadmitted
    have hrest : (protocol gen tagOf cfg).Stable () Rests := rests_stable
    cases hadmitted with
    | start runId startAt counts =>
        exact discard_ensures sound (rests_ensures
          ((startRules hmax runId).start_ensures cfg startAt counts hcalm)
          (start_issues runId startAt counts) hcalm) hrest
    | tick => exact discard_ensures sound ((undisturbed hmax).tick_ensures hcalm) hrest
    | pass setOrder =>
        exact discard_ensures sound ((undisturbed hmax).pass_ensures setOrder hcalm) hrest
    | verified jobId event payloadHash htagged =>
        exact discard_ensures sound (rests_ensures
          ((verifiedRules hmax jobId payloadHash htagged).receive_ensures hcalm)
          (receive_issues jobId _) hcalm) hrest
    | foreign jobId event payloadHash =>
        exact discard_ensures sound (rests_ensures
          ((foreignRules hmax jobId event payloadHash).receive_ensures hcalm)
          (receive_issues jobId _) hcalm) hrest

/-! ### Drafts that are done -/

/-- The draft has its invoice, or it never will. -/
def Done (d : InvoiceDraftRow) : Prop := d.status = .created ∨ d.status = .failed

/-- A draft that is done stays so, and it is not created again. -/
def NotAgain (l : CallLog) (db : Database Row) (l' : CallLog) (db' : Database Row) : Prop :=
  ∀ d ∈ db invoiceDrafts, Done d → creates d.tag l' = creates d.tag l ∧
    ∃ d' ∈ db' invoiceDrafts, d'.tag = d.tag ∧ Done d'

theorem NotAgain.trans {l l' l'' : CallLog} {db db' db'' : Database Row}
    (h : NotAgain l db l' db') (h' : NotAgain l' db' l'' db'') : NotAgain l db l'' db'' := by
  intro d hd hdone
  obtain ⟨hcount, d', hd', htag, hdone'⟩ := h d hd hdone
  obtain ⟨hcount', d'', hd'', htag', hdone''⟩ := h' d' hd' hdone'
  rw [htag] at hcount'
  exact ⟨hcount'.trans hcount, d'', hd'', htag'.trans htag, hdone''⟩

theorem recorded_done {db db' : Database Row} {r : EventRecord} (h : Recorded r db db') :
    ∀ d ∈ db invoiceDrafts, Done d → ∃ d' ∈ db' invoiceDrafts, d'.tag = d.tag ∧ Done d' := by
  intro d hd hdone
  cases h with
  | untouched hdrafts => exact ⟨d, hdrafts ▸ hd, rfl, hdone⟩
  | @owned event o _ _ _ hdrafts =>
      rw [hdrafts]
      unfold createdDrafts
      cases o.draftId with
      | none => exact ⟨d, hd, rfl, hdone⟩
      | some draftId =>
          refine ⟨_, List.mem_map_of_mem hd, ?_, ?_⟩
          · split_ifs <;> rfl
          · split_ifs
            · exact .inl rfl
            · exact hdone

/-- A transaction that leaves the drafts that are done. -/
theorem NotAgain.of_store {l : CallLog} {db : Database Row} {op : StoreOp}
    {r : Except StoreError op.Result} (h : ∀ d ∈ db invoiceDrafts, Done d →
      ∃ d' ∈ (op.apply db).2 invoiceDrafts, d'.tag = d.tag ∧ Done d') :
    NotAgain l db (⟨(), .store op, r⟩ :: l) (op.apply db).2 :=
  fun d hd hdone => ⟨creates_cons rfl, h d hd hdone⟩

theorem NotAgain.of_frame {l : CallLog} {db : Database Row} {op : StoreOp}
    {r : Except StoreError op.Result} (h : invoiceDrafts ∉ op.tables) :
    NotAgain l db (⟨(), .store op, r⟩ :: l) (op.apply db).2 :=
  .of_store fun d hd hdone => ⟨d, StoreOp.apply_frame op h db ▸ hd, rfl, hdone⟩

/-- No call is about a draft that is done, except for its credit. -/
theorem called_notAgain {l : CallLog} {w w' : World} (hc : metadata.Consistent w.db) {call : Call}
    {r : call.Answer} (h : Called gen tagOf cfg l w.db call)
    (hp : Performs (reporting tagOf) (fun _ => True) w call r w') :
    NotAgain l w.db (⟨(), call, r⟩ :: l) w'.db := by
  cases h with
  | create =>
      obtain ⟨-, rfl⟩ := hp
      exact .of_frame (by simp [StoreOp.tables, TrialStoreOp.tables])
  | record =>
      obtain ⟨-, rfl⟩ := hp
      exact .of_store (recorded_done (record_changes _ _ hc))
  | ignored =>
      obtain ⟨-, rfl⟩ := hp
      exact .of_frame (by simp [StoreOp.tables, EventStoreOp.tables])
  | told htold =>
      cases call with
      | now => exact fun d hd hdone => ⟨creates_cons rfl, d, hp.2 ▸ hd, rfl, hdone⟩
      | store op =>
          obtain ⟨-, rfl⟩ := hp
          refine .of_store fun d hd hdone => ⟨d, told_others hc htold d hd ?_ ?_, rfl, hdone⟩
          · rcases hdone with hs | hs <;> simp [hs]
          · rcases hdone with hs | hs <;> simp [hs]
      | invoiceCreate request =>
          obtain ⟨held, -, rfl⟩ := hp
          intro d hd hdone
          refine ⟨creates_cons (if_neg fun htags => ?_), d, hd, rfl, hdone⟩
          cases htold with
          | create _ hlisted =>
              -- the draft that is created still waits
              obtain ⟨row, hrow, rfl, hstatus⟩ := hlisted.row
              have htag : row.tag = d.tag := List.singleton_inj.mp htags
              obtain rfl := (hc invoiceDrafts).eq_of_clash hrow hd
                (by simp [metadata, uniqueConflict, htag])
              rcases hdone with hs | hs <;> simp [hs] at hstatus
      | invoiceQuery limit tags =>
          exact fun d hd hdone => ⟨creates_cons rfl, d, hp.2 ▸ hd, rfl, hdone⟩
      | transferCreate request => cases htold
      | transferQuery limit tags => cases htold

/-- The creations of a draft are bounded, each after the first waits for what the lookups
find, and there is none once the draft is done. -/
theorem creations_bounded (hmax : 0 < cfg.invoiceMaxAttempts) {w : World}
    (hw : w.db = emptyDatabase) {c d : Config Unit Call Call.Answer Failure Unit World}
    (hc : Runs (system gen tagOf cfg) (.initial w) c) (hd : Runs (system gen tagOf cfg) c d) :
    (∀ tag, creates tag c.log ≤ cfg.invoiceMaxAttempts) ∧ Paced cfg c.log ∧
      ∀ row ∈ c.state.db invoiceDrafts, Done row →
        creates row.tag d.log = creates row.tag c.log := by
  have hempty : Inv gen tagOf cfg [] w.db := by
    rw [hw]
    refine ⟨fitting_empty, by simp [emptyDatabase], by simp [emptyDatabase], fun d id h => ?_,
      by simp [creates], by simp [emptyDatabase], by simp [Paced]⟩
    cases h
  have hcalm : Unit → Rests [] w := fun _ _ _ _ h => by cases h
  have hinv : Inv gen tagOf cfg c.log c.state.db := (kept hmax).inv hempty hc hcalm
  refine ⟨fun tag => ?_, hinv.paced, fun row hrow hdone => ?_⟩
  · by_cases hpos : 0 < creates tag c.log
    · obtain ⟨d, hd, rfl⟩ := hinv.stored tag hpos
      exact (hinv.budget d hd).bound
    · omega
  · have hagain : NotAgain c.log c.state.db d.log d.state.db := by
      refine (kept hmax).rel_log hempty (fun l w l' w' => NotAgain l w.db l' w'.db)
        (fun l w d hd hdone => ⟨rfl, d, hd, rfl, hdone⟩) (fun _ _ _ _ _ _ h h' => h.trans h')
        (fun l w _ call r w' hw hcall hp => called_notAgain hw.fitting.consistent hcall hp)
        (fun l w w' _ hdb d hd hdone => ⟨rfl, d, hdb.mem.mpr hd, rfl, hdone⟩)
        (fun _ _ _ _ _ h => h.elim) hc hd hcalm
    exact (hagain row hrow hdone).1

end

/-! ### A draft that is created twice -/

/-- Whether the answer reports an invoice for its own tag. -/
def reports (tagOf : InvoiceId → String) : (call : Call) → call.Answer → Bool
  | .invoiceCreate request, .ok x :: _ => request.tags == [tagOf x.id]
  | .invoiceQuery _ tags, .ok x :: _ => tags == [tagOf x.id]
  | _, _ => true

/-- The scripted outcome of a call, when the answer is one of those. -/
def reportedAnswer (tagOf : InvoiceId → String) (l : Log Unit Call Call.Answer) (w : World)
    (i : Unit) (call : Call) (script : Script) : Option (call.Answer × World) :=
  (scripted {} l w i call script).filter fun r => reports tagOf call r.1

theorem reportedAnswer_performs {tagOf : InvoiceId → String} {l : Log Unit Call Call.Answer}
    {w : World} {i : Unit} {call : Call} {script : Script} {r : call.Answer × World}
    (h : reportedAnswer tagOf l w i call script = some r) :
    Performs (reporting tagOf) (fun _ => True) w call r.1 r.2 := by
  obtain ⟨hscript, hreports⟩ := Option.filter_eq_some_iff.mp h
  obtain ⟨hi, ht⟩ := honest_any {}
  have hp := scripted_performs hi ht hscript
  obtain ⟨answer, w'⟩ := r
  have hhead : ∀ {tags : List String} {answer : SdkAnswer SdkInvoice},
      (∀ x rest, answer = .ok x :: rest → (tags == [tagOf x.id]) = true) →
      ∀ x, answer.head? = some (.ok x) → tags = [tagOf x.id] := by
    intro tags answer h x hx
    cases answer with
    | nil => simp at hx
    | cons item rest =>
        obtain rfl := Option.some.inj hx
        exact beq_iff_eq.mp (h x rest rfl)
  cases call with
  | now => exact ⟨trivial, hp.2⟩
  | store op => exact hp
  | invoiceCreate request =>
      obtain ⟨held, -, rfl⟩ := hp
      refine ⟨held, hhead fun x rest heq => ?_, rfl⟩
      subst heq
      exact hreports
  | invoiceQuery limit tags =>
      refine ⟨hhead fun x rest heq => ?_, hp.2⟩
      subst heq
      exact hreports
  | transferCreate request => exact hp.imp fun _ h => ⟨trivial, h.2⟩
  | transferQuery limit tags => exact ⟨trivial, hp.2⟩

/-- The tag of a draft of the first batch. -/
def firstBatchTag (ordinal : ℕ) : String := "trial-draft:r:batch:0:draft:" ++ toString ordinal

/-- The result of the first creation is unknown; invoices have the tags for ids. -/
def unknownFirst : List (ScriptedMove Unit) :=
  firstTick oneLookup ++ [.call () (.failed .unknownError), .call () .commit] ++
  [1, 2, 3, 4, 5, 6, 7].flatMap (fun ordinal => issuedDraft (firstBatchTag ordinal)) ++
  [.call () .commit]

/-- A pass looks the draft up in vain, and the next tick does so once more. -/
def createdAgain : List (ScriptedMove Unit) :=
  [.begin () (reconcileInvoices oneLookup id).discard, .call () (.clock 1), .call () .commit,
    .call () .lookup, .call () .commit, .call () .commit,
    .begin () (tick plainGenerators oneLookup).discard, .call () (.clock (seconds 1000)),
    .call () .commit, .call () .commit, .call () .commit, .call () .lookup] ++
  issuedDraft (firstBatchTag 0)

theorem createdAgain_allowed : ∀ m ∈ unknownFirst ++ createdAgain,
    m.Allowed (system plainGenerators id oneLookup) := by
  have hstart := @Admitted.start plainGenerators id oneLookup "r" (some ⟨0, some 0⟩)
    [8, 8, 8, 8, 8, 8, 8, 8]
  have htick := @Admitted.tick plainGenerators id oneLookup
  have hpass := @Admitted.pass plainGenerators id oneLookup id
  simp [unknownFirst, createdAgain, firstTick, issuedDraft, Move.Allowed, system, hstart, htick,
    hpass]

instance (d : InvoiceDraftRow) : Decidable (Done d) := inferInstanceAs (Decidable (_ ∨ _))

theorem creations_bounded_twice : ∃ c d : Config Unit Call Call.Answer Failure Unit World,
    (∃ row ∈ c.state.db invoiceDrafts, Done row) ∧ creates (firstBatchTag 0) d.log = 2 ∧
    (∀ tag, creates tag d.log ≤ oneLookup.invoiceMaxAttempts) ∧ Paced oneLookup d.log ∧
      ∀ row ∈ c.state.db invoiceDrafts, Done row →
        creates row.tag d.log = creates row.tag c.log := by
  have hplay : ((playAll (reportedAnswer id) (.initial emptyWorld) unknownFirst).bind fun c =>
      (playAll (reportedAnswer id) c createdAgain).map fun d =>
        decide (∃ row ∈ c.state.db invoiceDrafts, Done row) &&
          creates (firstBatchTag 0) d.log == 2) = some true := by decide
  obtain ⟨c, hc, hrest⟩ := Option.bind_eq_some_iff.mp hplay
  obtain ⟨d, hd, hfacts⟩ := Option.map_eq_some_iff.mp hrest
  simp only [Bool.and_eq_true, decide_eq_true_eq, beq_iff_eq] at hfacts
  have hanswer : ∀ l w i call script r, reportedAnswer id l w i call script = some r →
      (system plainGenerators id oneLookup).exec l w i call r.1 r.2 :=
    fun _ _ _ _ _ _ h => reportedAnswer_performs h
  have hruns := playAll_runs hanswer
    (fun m hm => createdAgain_allowed m (List.mem_append.mpr (.inl hm))) hc
  have hruns' := playAll_runs hanswer
    (fun m hm => createdAgain_allowed m (List.mem_append.mpr (.inr hm))) hd
  have hempty : emptyWorld.db = emptyDatabase := rfl
  have hmax : 0 < oneLookup.invoiceMaxAttempts := by decide
  obtain ⟨hbounded, hpaced, -⟩ := creations_bounded hmax hempty (hruns.trans hruns') .refl
  exact ⟨c, d, hfacts.1, hfacts.2, hbounded, hpaced,
    (creations_bounded hmax hempty hruns hruns').2.2⟩

end StarkbankTrial.BoundedCreations
