import StarkbankTrial.InterleavedRuns
import StarkbankTrial.StoreOperations

/-!
# Calls that leave the process

A service reads the clock, runs store transactions and calls the provider's SDK.
Each is one operation, and everything between two of them is local.

An SDK answer is the list of items in order, where an error stands in the place at
which the call, the iteration or the validation of an item raises it. An empty list
is the answer without any item.
-/
namespace StarkbankTrial.ExternalCalls
open Domain InteractivePrograms InterleavedRuns RelationalTables DatabaseSchema
open StoreOperations

/-- The errors of the SDK, the validation error of its items, and the errors that a provider
in place of the SDK raises with their class. -/
inductive SdkError where
  | inputErrors | internalServerError | unknownError | invalidSignatureError | validationError
  | classified (kind : ProviderErrorKind)
deriving Repr, DecidableEq

structure InvoiceRequest where
  amount : ℤ
  taxId : String
  name : String
  tags : List String
deriving Repr, DecidableEq

structure TransferRequest where
  amount : ℤ
  name : String
  taxId : String
  bankCode : String
  branchCode : String
  accountNumber : String
  accountType : String
  externalId : ExternalId
  tags : List String
  description : String
deriving Repr, DecidableEq

structure SdkInvoice where
  id : InvoiceId
deriving Repr, DecidableEq

structure SdkTransfer where
  id : TransferId
  externalId : ExternalId
  status : String
deriving Repr, DecidableEq

abbrev SdkAnswer (A : Type) := List (Except SdkError A)

inductive Call where
  | now
  | store (op : StoreOp)
  | invoiceCreate (request : InvoiceRequest)
  | invoiceQuery (limit : ℕ) (tags : List String)
  | transferCreate (request : TransferRequest)
  | transferQuery (limit : ℕ) (tags : List String)

abbrev Call.Answer : Call → Type
  | .now => ℤ
  | .store op => Except StoreError op.Result
  | .invoiceCreate _ => SdkAnswer SdkInvoice
  | .invoiceQuery _ _ => SdkAnswer SdkInvoice
  | .transferCreate _ => SdkAnswer SdkTransfer
  | .transferQuery _ _ => SdkAnswer SdkTransfer

/-- What leaves a service as an exception. -/
inductive Failure where
  | store (error : StoreError)
  | provider (error : ProviderError)
  | liveOperationsDisabled (operation : String)
  | unexpectedWorkspace (eventId : EventId)
  | invalidStartTime
  | invalidBatchCount (counts : List ℤ)
deriving Repr, DecidableEq

abbrev Service (A : Type) := Program Call Call.Answer Failure A

/-- `clock.now()`. -/
def now : Service ℤ := .call .now .done

def callStore (op : StoreOp) : Service op.Result :=
  .call (.store op) fun
    | .ok r => .done r
    | .error e => .raise (.store e)

/-! ### The world outside -/

structure HeldInvoice where
  id : InvoiceId
  request : InvoiceRequest
deriving Repr, DecidableEq

structure HeldTransfer where
  id : TransferId
  request : TransferRequest
  status : String
deriving Repr, DecidableEq

/-- One database, what the provider holds, and the time. -/
structure World where
  db : Database Row
  invoices : List HeldInvoice
  transfers : List HeldTransfer
  time : ℤ

/-- What a provider may answer, and what it may hold afterwards. -/
structure Provider where
  invoiceCreate : World → InvoiceRequest → SdkAnswer SdkInvoice → List HeldInvoice → Prop
  invoiceQuery : World → ℕ → List String → SdkAnswer SdkInvoice → Prop
  transferCreate : World → TransferRequest → SdkAnswer SdkTransfer → List HeldTransfer → Prop
  transferQuery : World → ℕ → List String → SdkAnswer SdkTransfer → Prop

/-- The effect of one call: a clock reads what it is allowed to, a store transaction runs
alone on the database, and the provider keeps to its rules. -/
def Performs (provider : Provider) (clock : ℤ → Prop) (w : World) :
    (call : Call) → call.Answer → World → Prop
  | .now, t, w' => clock t ∧ w' = w
  | .store op, r, w' => r = (op.apply w.db).1 ∧ w' = { w with db := (op.apply w.db).2 }
  | .invoiceCreate request, r, w' =>
      ∃ held, provider.invoiceCreate w request r held ∧ w' = { w with invoices := held }
  | .invoiceQuery limit tags, r, w' => provider.invoiceQuery w limit tags r ∧ w' = w
  | .transferCreate request, r, w' =>
      ∃ held, provider.transferCreate w request r held ∧ w' = { w with transfers := held }
  | .transferQuery limit tags, r, w' => provider.transferQuery w limit tags r ∧ w' = w

theorem Performs.mono {provider : Provider} {clock clock' : ℤ → Prop} {w w' : World}
    {call : Call} {r : call.Answer} (h : Performs provider clock w call r w')
    (himp : ∀ t, clock t → clock' t) : Performs provider clock' w call r w' := by
  cases call with
  | now => exact ⟨himp r h.1, h.2⟩
  | _ => exact h

/-! ### Invoices at the provider -/

/-- An invoice with this id carries the tag. -/
def Carries (held : List HeldInvoice) (id : InvoiceId) (tag : String) : Prop :=
  ∃ x ∈ held, x.id = id ∧ tag ∈ x.request.tags

theorem Carries.mono {held held' : List HeldInvoice} (hsub : ∀ x ∈ held, x ∈ held')
    {id : InvoiceId} {tag : String} (h : Carries held id tag) : Carries held' id tag := by
  obtain ⟨x, hx, hrest⟩ := h
  exact ⟨x, hsub x hx, hrest⟩

/-- No created invoice comes back. -/
def NoInvoice (answer : SdkAnswer SdkInvoice) : Prop := ∀ x, answer.head? ≠ some (.ok x)

/-- A creation fails without effect, or an invoice with an admissible id is created, and
it is answered, or its answer is lost in an admissible way. -/
inductive InvoiceCreated (fresh : InvoiceId → Prop) (lost : SdkAnswer SdkInvoice → Prop)
    (held : List HeldInvoice) (request : InvoiceRequest) :
    SdkAnswer SdkInvoice → List HeldInvoice → Prop
  | failed {answer : SdkAnswer SdkInvoice} : NoInvoice answer →
      InvoiceCreated fresh lost held request answer held
  | created {id : InvoiceId} : fresh id →
      InvoiceCreated fresh lost held request [.ok ⟨id⟩] (held ++ [⟨id, request⟩])
  | ambiguous {id : InvoiceId} {answer : SdkAnswer SdkInvoice} : fresh id → NoInvoice answer →
      lost answer → InvoiceCreated fresh lost held request answer (held ++ [⟨id, request⟩])

/-- What a lookup lists is held and carries the tags. -/
def InvoiceListed (held : List HeldInvoice) (tags : List String)
    (answer : SdkAnswer SdkInvoice) : Prop :=
  ∀ item, .ok item ∈ answer → ∃ x ∈ held, x.id = item.id ∧ ∀ tag ∈ tags, tag ∈ x.request.tags

namespace InvoiceCreated
variable {fresh : InvoiceId → Prop} {lost : SdkAnswer SdkInvoice → Prop}
variable {held held' : List HeldInvoice} {request : InvoiceRequest}
variable {answer : SdkAnswer SdkInvoice}

theorem subset (h : InvoiceCreated fresh lost held request answer held') :
    ∀ x ∈ held, x ∈ held' := by
  intro x hx
  cases h with
  | failed => exact hx
  | created => exact List.mem_append.mpr (.inl hx)
  | ambiguous => exact List.mem_append.mpr (.inl hx)

/-- What is held now was held before, or is the new invoice. -/
theorem added (h : InvoiceCreated fresh lost held request answer held') :
    held' = held ∨ ∃ id, fresh id ∧ held' = held ++ [⟨id, request⟩] := by
  cases h with
  | failed => exact .inl rfl
  | created hfresh => exact .inr ⟨_, hfresh, rfl⟩
  | ambiguous hfresh => exact .inr ⟨_, hfresh, rfl⟩

theorem answered (h : InvoiceCreated fresh lost held request answer held') {x : SdkInvoice}
    (hx : answer.head? = some (.ok x)) {tag : String} (htag : tag ∈ request.tags) :
    Carries held' x.id tag := by
  cases h with
  | failed hno => exact absurd hx (hno x)
  | @created id =>
      obtain rfl : (⟨id⟩ : SdkInvoice) = x := by simpa using hx
      exact ⟨⟨id, request⟩, by simp, rfl, htag⟩
  | ambiguous _ hno => exact absurd hx (hno x)

end InvoiceCreated

theorem InvoiceListed.found {held : List HeldInvoice} {tag : String}
    {answer : SdkAnswer SdkInvoice} (h : InvoiceListed held [tag] answer) {x : SdkInvoice}
    (hx : answer.head? = some (.ok x)) : Carries held x.id tag := by
  obtain ⟨y, hy, hid, htags⟩ := h x (List.mem_of_head? hx)
  exact ⟨y, hy, hid, htags tag (by simp)⟩

/-! ### Row orders -/

/-- The physical order of rows is not fixed: it may change at any time. -/
def Reordered (db db' : Database Row) : Prop := ∀ t, (db t).Perm (db' t)

theorem Reordered.mem {db db' : Database Row} (h : Reordered db db') {t : Table} {r : Row t} :
    r ∈ db' t ↔ r ∈ db t := (h t).mem_iff.symm

theorem Reordered.consistent {db db' : Database Row} (h : Reordered db db')
    (hc : metadata.Consistent db) : metadata.Consistent db' := by
  intro t
  refine ⟨fun r hr => (hc t).1 r (h.mem.mp hr), ?_⟩
  refine (List.Perm.pairwise_iff (fun {a b} hab => ?_) (h t)).mp (hc t).2
  exact (metadata.clash_comm t b a).trans hab

end StarkbankTrial.ExternalCalls
