import StarkbankTrial.OwnedInvoices
import StarkbankTrial.ScriptedRuns

/-!
# Environments that share a workspace

Every environment has a database of its own, and all of them work against one provider
workspace and receive one stream of events. Nothing separates them but the tags that
each one owns. Any number of environments is allowed.

That the owned tags stay disjoint, and that no invoice carries tags of two
environments, is assumed of every state that a run reaches.
-/
namespace StarkbankTrial.SharedWorkspace
open Domain InteractivePrograms InterleavedRuns RelationalTables DatabaseSchema
open DatabaseSchema.Table
open InvoiceChanges ExternalCalls Services WorkerRules TrialRules ScriptedRuns InvoiceFacts
open OwnedInvoices

/-! ### The system -/

section
variable {Env ι : Type}

/-- One database for each environment, and what the provider holds. -/
structure Workspace (Env : Type) where
  db : Env → Database Row
  invoices : List HeldInvoice

/-- No invoice carries tags that two environments own. -/
def Separate (w : Workspace Env) : Prop :=
  ∀ e e', e ≠ e' → ∀ o ∈ w.db e ownedInvoices, ∀ o' ∈ w.db e' ownedInvoices,
    ∀ x ∈ w.invoices, o.tag ∈ x.request.tags → o'.tag ∉ x.request.tags

/-- What an environment sees. -/
def Workspace.view (w : Workspace Env) (e : Env) : World := ⟨w.db e, w.invoices, [], 0⟩

def Workspace.put [DecidableEq Env] (w : Workspace Env) (e : Env) (v : World) :
    Workspace Env := ⟨Function.update w.db e v.db, v.invoices⟩

/-- A new invoice has a new id, and a lookup lists what is held and carries the tags. -/
def provider : Provider where
  invoiceCreate w request answer held :=
    InvoiceCreated (fun id => ∀ x ∈ w.invoices, x.id ≠ id) (fun _ => True) w.invoices request
      answer held
  invoiceQuery w _ tags answer := InvoiceListed w.invoices tags answer
  transferCreate _ _ _ _ := True
  transferQuery _ _ _ _ := True

/-- Ticks, reconcile passes, smoke batches and deliveries. -/
inductive Admitted (held : List HeldInvoice) : Service Unit → Prop
  | tick (gen : Generators) (cfg : TrialSettings) : Admitted held (tick gen cfg).discard
  | pass (cfg : TrialSettings) (setOrder : List BatchId → List BatchId) :
      Admitted held (reconcileInvoices cfg setOrder).discard
  | smoke (gen : Generators) (cfg : TrialSettings) (space reference : String) (count : ℕ)
      (amount : ℤ) : Admitted held (runSmokeBatch gen cfg space reference count amount).discard
  | delivery (jobId : TransferJobId) (delivery : Delivery) : TrueDelivery held delivery →
      Admitted held (receive jobId delivery).discard

variable [DecidableEq Env]

/-- Each process works in its environment; others may add invoices of their own. -/
def system (env : ι → Env) : System ι Call Call.Answer Failure Unit (Workspace Env) where
  admits _ w _ p := Admitted w.invoices p
  exec _ w i call r w' := ∃ v, Performs provider (fun _ => True) (w.view (env i)) call r v ∧
    w' = w.put (env i) v ∧ Separate w'
  drift _ w w' := (∀ e, Reordered (w.db e) (w'.db e)) ∧ (∀ x ∈ w.invoices, x ∈ w'.invoices) ∧
    UniqueIds w'.invoices ∧ Separate w'
  dies _ w _ w' := w' = w

structure Inv (w : Workspace Env) : Prop where
  unique : UniqueIds w.invoices
  separate : Separate w
  owned : ∀ e, Owned w.invoices (w.db e)

def protocol (env : ι → Env) : Protocol ι Call Call.Answer Failure Unit (Workspace Env) where
  toSystem := system env
  inv _ w := Inv w
  rely _ _ w _ w' := ∀ e, InvoicesKept (w.view e) (w'.view e)
  demand _ _ _ _ := True

theorem sound (env : ι → Env) : (protocol env).Sound where
  rely_refl _ _ w e := .refl (w.view e)
  rely_trans _ _ _ _ _ _ _ h h' e := (h e).trans (h' e)
  drift_keeps := by
    rintro l w w' h ⟨hdb, hsub, hunique, hsep⟩
    refine ⟨⟨hunique, hsep, fun e => ((h.owned e).reordered (hdb e)).mono hsub⟩, fun _ e => ?_⟩
    exact ⟨fun d hd => ⟨d, (hdb e).mem.mpr hd, .refl d⟩, hsub⟩
  dies_keeps := by
    rintro l w i w' h rfl
    exact ⟨h, fun _ _ e => .refl (w'.view e)⟩

theorem view_put (w : Workspace Env) (e : Env) (v : World) :
    (w.put e v).view e = ⟨v.db, v.invoices, [], 0⟩ := by
  simp [Workspace.view, Workspace.put]

theorem view_put_of_ne (w : Workspace Env) {e e' : Env} (he : e' ≠ e) (v : World) :
    (w.put e v).view e' = ⟨w.db e', v.invoices, [], 0⟩ := by
  simp [Workspace.view, Workspace.put, Function.update_of_ne he]

theorem performs_put {w : Workspace Env} {e : Env} {v : World} {call : Call} {r : call.Answer}
    (h : Performs provider (fun _ => True) (w.view e) call r v) :
    Performs provider (fun _ => True) (w.view e) call r ((w.put e v).view e) := by
  rw [view_put]
  cases call with
  | now => exact ⟨trivial, by rw [h.2]; rfl⟩
  | store op => exact ⟨h.1, by rw [h.2]; rfl⟩
  | invoiceCreate request =>
      obtain ⟨held, hcreate, rfl⟩ := h
      exact ⟨held, hcreate, rfl⟩
  | invoiceQuery limit tags => exact ⟨h.1, by rw [h.2]; rfl⟩
  | transferCreate request =>
      obtain ⟨held, -, rfl⟩ := h
      exact ⟨[], trivial, rfl⟩
  | transferQuery limit tags => exact ⟨h.1, by rw [h.2]; rfl⟩

theorem created (w : World) (request : InvoiceRequest) (answer : SdkAnswer SdkInvoice)
    (held : List HeldInvoice) (h : provider.invoiceCreate w request answer held) :
    ∃ lost, InvoiceCreated (fun id => ∀ x ∈ w.invoices, x.id ≠ id) lost w.invoices request
      answer held := ⟨_, h⟩

/-- One environment moves, and the others see more invoices. -/
theorem Inv.put {w : Workspace Env} (h : Inv w) {e : Env} {v : World} {call : Call}
    {r : call.Answer} (htrue : TruthfulCall true (w.view e) call)
    (hp : Performs provider (fun _ => True) (w.view e) call r v) (hsep : Separate (w.put e v)) :
    Inv (w.put e v) ∧ ∀ e', InvoicesKept (w.view e') ((w.put e v).view e') := by
  obtain ⟨howned, hunique⟩ := (h.owned e).performs h.unique created htrue hp
  have hkept := performs_invoicesKept hp (h.owned e).consistent fun _ _ _ _ hc => ⟨_, _, hc⟩
  refine ⟨⟨hunique, hsep, fun e' => ?_⟩, fun e' => ?_⟩
  · by_cases he : e' = e
    · subst he
      simpa [Workspace.put] using howned
    · simpa [Workspace.put, Function.update_of_ne he] using (h.owned e').mono hkept.invoices
  · by_cases he : e' = e
    · subst he
      rw [view_put]
      exact ⟨hkept.drafts, hkept.invoices⟩
    · rw [view_put_of_ne w he]
      exact ⟨fun d hd => ⟨d, hd, .refl d⟩, hkept.invoices⟩

/-- Every process sees its environment. -/
theorem viewed (env : ι → Env) (i : ι) :
    Viewed (protocol env) i (fun w => w.view (env i)) provider true where
  created _ _ _ _ h := ⟨_, _, h⟩
  listed _ _ _ _ h := h
  relied _ _ _ _ h := h (env i)
  demand _ _ _ _ _ := trivial
  consistent _ w h := (h.owned (env i)).consistent
  performs := by
    rintro l w call r w' ⟨v, hp, rfl, -⟩
    exact performs_put hp
  keeps := by
    rintro l w call r w' h htrue ⟨v, hp, rfl, hsep⟩
    obtain ⟨hinv, hkept⟩ := h.put htrue hp hsep
    exact ⟨hinv, fun _ _ => hkept⟩

theorem kept (env : ι → Env) : (protocol env).Kept Unconditionally fun _ => Anything where
  toSound := sound env
  begins := by
    rintro l w i p - - hadmitted
    have hP := sound env
    have hv := viewed env i
    cases hadmitted with
    | tick gen cfg => exact discard_ensures hP ((hv.tickRules gen cfg).tick_ensures hP trivial)
    | pass cfg setOrder =>
        exact discard_ensures hP
          ((hv.passRules cfg).reconcileInvoices_ensures hP setOrder trivial)
    | smoke gen cfg space reference count amount =>
        exact discard_ensures hP
          (hv.smokeRules.runSmokeBatch_ensures hP (fun _ _ => trivial) count trivial)
    | delivery jobId delivery htrue =>
        exact discard_ensures hP ((hv.deliveryRules jobId delivery).receive_ensures htrue)

/-! ### Every interleaving -/

/-- A queued invoice carries a tag of its environment, and none is queued twice. -/
structure OwnJobs (w : Workspace Env) : Prop where
  apart : ∀ e e', e ≠ e' → ∀ j ∈ w.db e transferJobs, ∀ j' ∈ w.db e' transferJobs,
    j.invoiceId ≠ j'.invoiceId
  owned : ∀ e, ∀ j ∈ w.db e transferJobs, ∃ x ∈ w.invoices, x.id = j.invoiceId ∧
    ∃ o ∈ w.db e ownedInvoices, o.tag ∈ x.request.tags

omit [DecidableEq Env] in
theorem Inv.ownJobs {w : Workspace Env} (h : Inv w) : OwnJobs w where
  apart e e' he j hj j' hj' hsame := by
    obtain ⟨o, ho, x, hx, hid, htag⟩ := (h.owned e).queued j hj
    obtain ⟨o', ho', x', hx', hid', htag'⟩ := (h.owned e').queued j' hj'
    obtain rfl := h.unique x hx x' hx' (hid.trans (hsame.trans hid'.symm))
    exact h.separate e e' he o ho o' ho' x hx htag htag'
  owned e j hj := by
    obtain ⟨o, ho, x, hx, hid, htag⟩ := (h.owned e).queued j hj
    exact ⟨x, hx, hid, o, ho, htag⟩

/-- Whatever the environments do in turns and whatever they are delivered, no invoice is
queued in two of them, and none is queued where it was not created. -/
theorem own_jobs [DecidableEq ι] {env : ι → Env} {w : Workspace Env}
    (hunique : UniqueIds w.invoices) (hsep : Separate w) (howned : ∀ e, Owned w.invoices (w.db e))
    {c : Config ι Call Call.Answer Failure Unit (Workspace Env)}
    (h : Runs (system env) (.initial w) c) : OwnJobs c.state :=
  Inv.ownJobs ((kept env).inv ⟨hunique, hsep, howned⟩ h)

end

/-! ### A delivery to two environments -/

instance (w : Workspace Bool) (e e' : Bool) : Decidable (∀ o ∈ w.db e ownedInvoices,
    ∀ o' ∈ w.db e' ownedInvoices, ∀ x ∈ w.invoices, o.tag ∈ x.request.tags →
      o'.tag ∉ x.request.tags) := inferInstance

instance (w : Workspace Bool) : Decidable (Separate w) :=
  inferInstanceAs (Decidable (∀ e e', e ≠ e' → ∀ o ∈ w.db e ownedInvoices,
    ∀ o' ∈ w.db e' ownedInvoices, ∀ x ∈ w.invoices, o.tag ∈ x.request.tags →
      o'.tag ∉ x.request.tags))

/-- Two processes for each of two environments. -/
abbrev Worker := Bool × Bool

/-- A scripted call in the environment of the process. -/
def answer (l : Log Worker Call Call.Answer) (w : Workspace Bool) (i : Worker) (call : Call)
    (script : Script) : Option (call.Answer × Workspace Bool) :=
  (scripted {} l (w.view i.1) i call script).bind fun r =>
    if Separate (w.put i.1 r.2) then some (r.1, w.put i.1 r.2) else none

theorem honestInvoices : HonestInvoices ({} : ScriptRules Worker) provider := by
  refine .of_created (fun held _ id => ∀ x ∈ held, x.id ≠ id) (fun _ => True)
    (fun w request answer held h => h) (fun held request id hid => ?_)
    (fun _ _ => trivial) (fun w limit tags => listedInvoices_listed _ _ _) fun _ _ _ _ => ?_
  · simpa [freshId] using hid
  · simp [provider, InvoiceListed]

theorem honestTransfers : HonestTransfers ({} : ScriptRules Worker) provider :=
  .of_any (fun _ _ _ _ => trivial) fun _ _ _ _ => trivial

theorem answer_exec {l : Log Worker Call Call.Answer} {w : Workspace Bool} {i : Worker}
    {call : Call} {script : Script} {r : call.Answer × Workspace Bool}
    (h : answer l w i call script = some r) : (system Prod.fst).exec l w i call r.1 r.2 := by
  obtain ⟨v, hv, hr⟩ := Option.bind_eq_some_iff.mp h
  split_ifs at hr with hsep
  obtain rfl := Option.some.inj hr
  have hperforms := scripted_performs honestInvoices honestTransfers hv
  exact ⟨v.2, hperforms.mono fun _ _ => trivial, rfl, hsep⟩

/-- The credit of the first smoke invoice of a reference. -/
def smokeCredit : CreditedInvoiceEvent where
  eventId := "e"
  invoiceId := "i"
  amount := 5000
  fee := 50
  workspaceId := "w"
  tags := ["trial-smoke:starkbank-trial:smoke:a:r:0"]

def nothingYet : Workspace Bool := ⟨fun _ => emptyDatabase, []⟩

/-- One environment issues an invoice, and both receive its credit before the invoice is
bound. -/
def twoDeliveries : List (Move Worker Call Call.Answer Failure Unit (Workspace Bool) Script) :=
  [.begin (true, true) (runSmokeBatch plainGenerators {} "a" "r" 1 5000).discard,
    .call (true, true) (.clock 0), .call (true, true) .commit, .call (true, true) .lookup,
    .call (true, true) (.created "i"),
    .begin (false, false) (receive "j" (.verified (.credited smokeCredit) "h")).discard
      fun _ w => TrueEvent w.invoices smokeCredit,
    .call (false, false) (.clock 1), .call (false, false) .commit,
    .begin (true, false) (receive "j" (.verified (.credited smokeCredit) "h")).discard
      fun _ w => TrueEvent w.invoices smokeCredit,
    .call (true, false) (.clock 1), .call (true, false) .commit]

theorem twoDeliveries_allowed : ∀ m ∈ twoDeliveries, m.Allowed (system Prod.fst) := by
  have hsmoke : ∀ held, Admitted held
      (runSmokeBatch plainGenerators {} "a" "r" 1 5000).discard := fun held => .smoke ..
  have hdelivery : ∀ held, TrueEvent held smokeCredit →
      Admitted held (receive "j" (.verified (.credited smokeCredit) "h")).discard :=
    fun held htrue => .delivery _ _ htrue
  simp +contextual [twoDeliveries, Move.Allowed, system, hsmoke, hdelivery]

theorem own_jobs_twoDeliveries : ∃ c,
    playAll answer (.initial nothingYet) twoDeliveries = some c ∧ OwnJobs c.state ∧
      (c.state.db true transferJobs).map TransferJobRow.invoiceId = ["i"] ∧
      c.state.db false transferJobs = [] := by
  have hends : (playAll answer (.initial nothingYet) twoDeliveries).map (fun c =>
      ((c.state.db true transferJobs).map TransferJobRow.invoiceId,
        (c.state.db false transferJobs).length)) = some (["i"], 0) := by decide
  obtain ⟨c, hplay, hc⟩ := Option.map_eq_some_iff.mp hends
  have hruns : Runs (system Prod.fst) (.initial nothingYet) c :=
    playAll_runs (fun _ _ _ _ _ _ h => answer_exec h) twoDeliveries_allowed hplay
  obtain ⟨hjobs, hnone⟩ := Prod.mk.inj hc
  have howned : ∀ e, Owned nothingYet.invoices (nothingYet.db e) :=
    fun _ => .of_empty emptyDatabase_consistent rfl rfl _
  exact ⟨c, hplay, own_jobs (by simp [UniqueIds, nothingYet]) (by decide) howned hruns, hjobs,
    List.length_eq_zero_iff.mp hnone⟩

end StarkbankTrial.SharedWorkspace
