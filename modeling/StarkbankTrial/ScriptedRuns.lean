import StarkbankTrial.Services

/-!
# Runs that follow a script

A script fixes, call by call, what the surroundings choose: the time that a clock
reads, and whether a creation at the provider takes effect, is answered, or fails. The
lookups answer truthfully. Whatever a script can make happen is a run of every system
whose provider allows honest behaviour.
-/
namespace StarkbankTrial.ScriptedRuns
open Domain InteractivePrograms InterleavedRuns RelationalTables DatabaseSchema
open DatabaseSchema.Table
open StoreOperations ExternalCalls Services

inductive Script where
  | clock (time : ℤ)
  | commit
  | created (id : String)
  | lost (id : String) (error : SdkError)
  | failed (error : SdkError)
  | lookup
deriving Repr, DecidableEq

/-- The held invoices that a query for the tags lists. -/
def listedInvoices (held : List HeldInvoice) (limit : ℕ) (tags : List String) :
    SdkAnswer SdkInvoice :=
  ((held.filter fun x => tags.all fun tag => x.request.tags.contains tag).take limit).map
    fun x => .ok ⟨x.id⟩

def listedTransfers (held : List HeldTransfer) (limit : ℕ) (tags : List String) :
    SdkAnswer SdkTransfer :=
  ((held.filter fun x => tags.all fun tag => x.request.tags.contains tag).take limit).map
    fun x => .ok ⟨x.id, x.request.externalId, x.status⟩

/-- The ids of new invoices are new. -/
def freshId (held : List HeldInvoice) (_ : InvoiceRequest) (id : InvoiceId) : Bool :=
  held.all fun x => x.id != id

/-- A provider that holds one invoice for a tag. -/
def freshTag (held : List HeldInvoice) (request : InvoiceRequest) (id : InvoiceId) : Bool :=
  held.all fun x => x.id != id && !x.request.tags.any request.tags.contains

/-- What a script may choose: the calls that may be next, the readings of the clocks, the
ids under which a creation takes effect, the errors with which the answer to a creation may
be lost, those with which a transfer may be refused, and the lookups of transfers that may be
answered. -/
structure ScriptRules (ι : Type) where
  allowed : Log ι Call Call.Answer → World → ι → Call → Bool := fun _ _ _ _ => true
  clock : Log ι Call Call.Answer → World → ι → ℤ → Bool := fun _ _ _ _ => true
  invoice : List HeldInvoice → InvoiceRequest → InvoiceId → Bool := freshId
  lost : SdkError → Bool := fun _ => true
  refused : SdkError → Bool := fun _ => true
  transfer : TransferRequest → TransferId → Bool := fun _ _ => true
  listed : List HeldTransfer → ℕ → List String → Bool := fun _ _ _ => true

/-- The outcome of a call. -/
def scripted {ι : Type} (rules : ScriptRules ι) (l : Log ι Call Call.Answer) (w : World) (i : ι) :
    (call : Call) → Script → Option (call.Answer × World)
  | .now, .clock t => if rules.clock l w i t then some (t, w) else none
  | .store op, .commit => some ((op.apply w.db).1, { w with db := (op.apply w.db).2 })
  | .invoiceCreate request, .created id =>
      if rules.invoice w.invoices request id then
        some ([.ok ⟨id⟩], { w with invoices := w.invoices ++ [⟨id, request⟩] })
      else none
  | .invoiceCreate request, .lost id error =>
      if rules.invoice w.invoices request id && rules.lost error then
        some ([.error error], { w with invoices := w.invoices ++ [⟨id, request⟩] })
      else none
  | .invoiceCreate _, .failed error => some ([.error error], w)
  | .invoiceQuery limit tags, .lookup => some (listedInvoices w.invoices limit tags, w)
  | .invoiceQuery _ _, .failed error => some ([.error error], w)
  | .transferCreate request, .created id =>
      if ∀ x ∈ w.transfers, x.request.externalId ≠ request.externalId then
        if rules.transfer request id then
          some ([.ok ⟨id, request.externalId, "created"⟩],
            { w with transfers := w.transfers ++ [⟨id, request, "created"⟩] })
        else none
      else some ([.error .inputErrors], w)
  | .transferCreate request, .lost id error =>
      if ∀ x ∈ w.transfers, x.request.externalId ≠ request.externalId then
        if rules.transfer request id && rules.lost error then
          some ([.error error], { w with transfers := w.transfers ++ [⟨id, request, "created"⟩] })
        else none
      else some ([.error .inputErrors], w)
  | .transferCreate _, .failed error =>
      if rules.refused error then some ([.error error], w) else none
  | .transferQuery limit tags, .lookup =>
      if rules.listed w.transfers limit tags then
        some (listedTransfers w.transfers limit tags, w)
      else none
  | .transferQuery _ _, .failed error => some ([.error error], w)
  | _, _ => none

/-- The provider may do all that a script says. -/
structure HonestInvoices {ι : Type} (rules : ScriptRules ι) (p : Provider) : Prop where
  created : ∀ w request id, rules.invoice w.invoices request id = true →
    p.invoiceCreate w request [.ok ⟨id⟩] (w.invoices ++ [⟨id, request⟩])
  lost : ∀ w request id error, rules.invoice w.invoices request id = true →
    rules.lost error = true →
    p.invoiceCreate w request [.error error] (w.invoices ++ [⟨id, request⟩])
  failed : ∀ w request error, p.invoiceCreate w request [.error error] w.invoices
  listed : ∀ w limit tags, p.invoiceQuery w limit tags (listedInvoices w.invoices limit tags)
  unlisted : ∀ w limit tags error, p.invoiceQuery w limit tags [.error error]

structure HonestTransfers {ι : Type} (rules : ScriptRules ι) (p : Provider) : Prop where
  created : ∀ w request id, (∀ x ∈ w.transfers, x.request.externalId ≠ request.externalId) →
    rules.transfer request id = true →
    p.transferCreate w request [.ok ⟨id, request.externalId, "created"⟩]
      (w.transfers ++ [⟨id, request, "created"⟩])
  lost : ∀ w request id error,
    (∀ x ∈ w.transfers, x.request.externalId ≠ request.externalId) →
    rules.transfer request id = true → rules.lost error = true →
    p.transferCreate w request [.error error] (w.transfers ++ [⟨id, request, "created"⟩])
  refused : ∀ w request,
    ¬ (∀ x ∈ w.transfers, x.request.externalId ≠ request.externalId) →
    p.transferCreate w request [.error .inputErrors] w.transfers
  failed : ∀ w request error, rules.refused error = true →
    p.transferCreate w request [.error error] w.transfers
  listed : ∀ w limit tags, rules.listed w.transfers limit tags = true →
    p.transferQuery w limit tags (listedTransfers w.transfers limit tags)
  unlisted : ∀ w limit tags error, p.transferQuery w limit tags [.error error]

theorem listedInvoices_listed (held : List HeldInvoice) (limit : ℕ) (tags : List String) :
    InvoiceListed held tags (listedInvoices held limit tags) := by
  intro item hitem
  obtain ⟨x, hx, heq⟩ := List.mem_map.mp hitem
  obtain rfl := Except.ok.inj heq
  have hmem := List.mem_filter.mp (List.mem_of_mem_take hx)
  exact ⟨x, hmem.1, rfl, by simpa using hmem.2⟩

/-- A provider that may create and list invoices as said is honest. -/
theorem HonestInvoices.of_created {ι : Type} {rules : ScriptRules ι} {p : Provider}
    (fresh : List HeldInvoice → InvoiceRequest → InvoiceId → Prop)
    (lost : SdkAnswer SdkInvoice → Prop)
    (hcreate : ∀ w request answer held,
      InvoiceCreated (fresh w.invoices request) lost w.invoices request answer held →
        p.invoiceCreate w request answer held)
    (hfresh : ∀ held request id, rules.invoice held request id = true → fresh held request id)
    (hlost : ∀ error, rules.lost error = true → lost [.error error])
    (hlisted : ∀ w limit tags,
      p.invoiceQuery w limit tags (listedInvoices w.invoices limit tags))
    (hunlisted : ∀ w limit tags error, p.invoiceQuery w limit tags [.error error]) :
    HonestInvoices rules p where
  created w request id hid := hcreate _ _ _ _ (.created (hfresh _ _ _ hid))
  lost w request id error hid herror :=
    hcreate _ _ _ _ (.ambiguous (hfresh _ _ _ hid) (by simp [NoInvoice]) (hlost error herror))
  failed w request error := hcreate _ _ _ _ (.failed (by simp [NoInvoice]))
  listed := hlisted
  unlisted := hunlisted

/-- A provider of which nothing is asked about transfers. -/
theorem HonestTransfers.of_any {ι : Type} {rules : ScriptRules ι} {p : Provider}
    (hcreate : ∀ w request answer held, p.transferCreate w request answer held)
    (hquery : ∀ w limit tags answer, p.transferQuery w limit tags answer) :
    HonestTransfers rules p where
  created _ _ _ _ _ := hcreate _ _ _ _
  lost _ _ _ _ _ _ _ := hcreate _ _ _ _
  refused _ _ _ := hcreate _ _ _ _
  failed _ _ _ _ := hcreate _ _ _ _
  listed _ _ _ _ := hquery _ _ _ _
  unlisted _ _ _ _ := hquery _ _ _ _

/-- A scripted call is a call that an honest provider allows. -/
theorem scripted_performs {ι : Type} {rules : ScriptRules ι} {p : Provider}
    (hi : HonestInvoices rules p) (ht : HonestTransfers rules p) {l : Log ι Call Call.Answer}
    {w : World} {i : ι} {call : Call} {script : Script} {r : call.Answer × World}
    (h : scripted rules l w i call script = some r) :
    Performs p (fun t => rules.clock l w i t = true) w call r.1 r.2 := by
  unfold scripted at h
  split at h
  · split_ifs at h with hclock
    obtain rfl := Option.some.inj h
    exact ⟨hclock, rfl⟩
  · obtain rfl := Option.some.inj h
    exact ⟨rfl, rfl⟩
  · split_ifs at h with hfresh
    obtain rfl := Option.some.inj h
    exact ⟨_, hi.created w _ _ hfresh, rfl⟩
  · split_ifs at h with hfresh
    obtain rfl := Option.some.inj h
    obtain ⟨hid, herror⟩ := Bool.and_eq_true_iff.mp hfresh
    exact ⟨_, hi.lost w _ _ _ hid herror, rfl⟩
  · obtain rfl := Option.some.inj h
    exact ⟨_, hi.failed w _ _, rfl⟩
  · obtain rfl := Option.some.inj h
    exact ⟨hi.listed w _ _, rfl⟩
  · obtain rfl := Option.some.inj h
    exact ⟨hi.unlisted w _ _ _, rfl⟩
  · split_ifs at h with hfresh hid
    · obtain rfl := Option.some.inj h
      exact ⟨_, ht.created w _ _ hfresh hid, rfl⟩
    · obtain rfl := Option.some.inj h
      exact ⟨_, ht.refused w _ hfresh, rfl⟩
  · split_ifs at h with hfresh hid
    · obtain rfl := Option.some.inj h
      obtain ⟨hid, herror⟩ := Bool.and_eq_true_iff.mp hid
      exact ⟨_, ht.lost w _ _ _ hfresh hid herror, rfl⟩
    · obtain rfl := Option.some.inj h
      exact ⟨_, ht.refused w _ hfresh, rfl⟩
  · split_ifs at h with herror
    obtain rfl := Option.some.inj h
    exact ⟨_, ht.failed w _ _ herror, rfl⟩
  · split_ifs at h with hlisted
    obtain rfl := Option.some.inj h
    exact ⟨ht.listed w _ _ hlisted, rfl⟩
  · obtain rfl := Option.some.inj h
    exact ⟨ht.unlisted w _ _ _, rfl⟩
  · simp at h

/-- One move of a scripted schedule. -/
abbrev ScriptedMove (ι : Type) := Move ι Call Call.Answer Failure Unit World Script

/-- The outcome of an allowed call. -/
def answer {ι : Type} (rules : ScriptRules ι) (l : Log ι Call Call.Answer) (w : World) (i : ι)
    (call : Call) (script : Script) : Option (call.Answer × World) :=
  if rules.allowed l w i call then scripted rules l w i call script else none

def playScript {ι : Type} [DecidableEq ι] (rules : ScriptRules ι) (w : World)
    (moves : List (ScriptedMove ι)) : Option (Config ι Call Call.Answer Failure Unit World) :=
  playAll (answer rules) (.initial w) moves

section
variable {ι : Type} [DecidableEq ι] {rules : ScriptRules ι} {p : Provider}
variable {sys : System ι Call Call.Answer Failure Unit World} {moves : List (ScriptedMove ι)}

theorem answer_runs (hi : HonestInvoices rules p) (ht : HonestTransfers rules p)
    (hsys : ∀ l w i call r w', rules.allowed l w i call = true →
      Performs p (fun t => rules.clock l w i t = true) w call r w' → sys.exec l w i call r w')
    (hmoves : ∀ m ∈ moves, m.Allowed sys) {c d : Config ι Call Call.Answer Failure Unit World}
    (h : playAll (answer rules) c moves = some d) : Runs sys c d := by
  refine playAll_runs (fun l w i call script r hs => ?_) hmoves h
  unfold answer at hs
  split_ifs at hs with hallowed
  exact hsys l w i call _ _ hallowed (scripted_performs hi ht hs)

theorem playScript_runs (hi : HonestInvoices rules p) (ht : HonestTransfers rules p)
    (hsys : ∀ l w i call r w', rules.allowed l w i call = true →
      Performs p (fun t => rules.clock l w i t = true) w call r w' → sys.exec l w i call r w')
    (hmoves : ∀ m ∈ moves, m.Allowed sys) {w : World}
    {c : Config ι Call Call.Answer Failure Unit World} (h : playScript rules w moves = some c) :
    Runs sys (.initial w) c := answer_runs hi ht hsys hmoves h

end

/-! ### Small worlds -/

/-- One bound smoke invoice, and a provider that holds nothing. -/
def creditWorld : World where
  db := Database.set emptyDatabase ownedInvoices
    [{ tag := "trial-smoke:d", providerInvoiceId := some "i", source := "smoke"
       draftId := none, createdAt := 0, updatedAt := 0 }]
  invoices := []
  transfers := []
  time := 0

def creditDelivery : Delivery :=
  .verified (.credited { eventId := "e", invoiceId := "i", amount := 5000, fee := 50
                         workspaceId := "w", tags := ["trial-smoke:d"] }) "h"

/-- One batch that is due, and a provider that holds nothing. -/
def scheduledWorld : World where
  db := (emptyDatabase.set trialRuns
    [{ id := "r", status := .active, startedAt := 0, endsAt := seconds (24 * 60 * 60)
       createdAt := 0, completedAt := none, activeMarker := some 1 }]).set invoiceBatches
    [{ id := "b", runId := "r", slotIndex := 0, scheduledAt := 0, targetCount := 8
       status := .scheduled, leaseUntil := none, attempts := 0, createdAt := 0
       completedAt := none }]
  invoices := []
  transfers := []
  time := 0

def plainGenerators : Generators := ⟨id, fun _ _ => ⟨"Jon Snow", "012.345.678-90", 5000⟩⟩

/-- The credit of the first invoice of the batch. -/
def draftCredit : CreditedInvoiceEvent where
  eventId := "e"
  invoiceId := "i"
  amount := 5000
  fee := 50
  workspaceId := "w"
  tags := ["trial-draft:b:draft:0"]

def draftDelivery : Delivery := .verified (.credited draftCredit) "h"

end StarkbankTrial.ScriptedRuns
