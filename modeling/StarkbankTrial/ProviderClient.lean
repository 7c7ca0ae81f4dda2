import StarkbankTrial.ExternalCalls

/-!
# The client of the provider

Every method is a short program over SDK calls. A provider error is a value here, so
that the services can tell its class apart; only the refusal of live operations and
errors of the stores leave a service at once.
-/
namespace StarkbankTrial.ProviderClient
open Domain InteractivePrograms ExternalCalls

/-- `_raise_provider`: the class of a provider error for an error of the SDK. -/
def raiseProvider (error : SdkError) (operation : String) (unknownOutcome : Bool) :
    ProviderError :=
  match error with
  | .internalServerError | .unknownError =>
      ⟨if unknownOutcome then .unknownOutcome else .transient, operation⟩
  | .validationError => ⟨if unknownOutcome then .unknownOutcome else .permanent, operation⟩
  | .inputErrors | .invalidSignatureError => ⟨.permanent, operation⟩
  | .classified kind => ⟨kind, operation⟩

def requireLive (live : Bool) (operation : String) : Service Unit :=
  if live then .done () else .raise (.liveOperationsDisabled operation)

def invoiceRequest (draft : InvoiceDraft) : InvoiceRequest where
  amount := draft.amount
  taxId := draft.payerTaxId
  name := draft.payerName
  tags := [draft.tag]

def createInvoice (live : Bool) (draft : InvoiceDraft) :
    Service (Except ProviderError ProviderInvoice) := do
  requireLive live "create_invoice"
  .call (.invoiceCreate (invoiceRequest draft)) fun
    | [] => .done (.error ⟨.unknownOutcome, "create_invoice_empty"⟩)
    | .error e :: _ => .done (.error (raiseProvider e "create_invoice" true))
    | .ok invoice :: _ => .done (.ok ⟨invoice.id, draft.tag⟩)

def findInvoice (tag : String) : Service (Except ProviderError (Option ProviderInvoice)) :=
  .call (.invoiceQuery 1 [tag]) fun
    | [] => .done (.ok none)
    | .error e :: _ => .done (.error (raiseProvider e "find_invoice" false))
    | .ok invoice :: _ => .done (.ok (some ⟨invoice.id, tag⟩))

def transferRequest (command : TransferCommand) : TransferRequest where
  amount := command.amount
  name := command.recipient.name
  taxId := command.recipient.taxId
  bankCode := command.recipient.bankCode
  branchCode := command.recipient.branchCode
  accountNumber := command.recipient.accountNumber
  accountType := command.recipient.accountType
  externalId := command.externalId
  tags := [command.tag]
  description := "Stark Bank backend trial invoice credit"

def providerTransfer (transfer : SdkTransfer) : ProviderTransfer where
  id := transfer.id
  externalId := transfer.externalId
  status := transfer.status

/-- The loop over the items of a query: the first with the external id. -/
def firstWithExternalId (externalId : ExternalId) :
    SdkAnswer SdkTransfer → Except ProviderError (Option ProviderTransfer)
  | [] => .ok none
  | .error e :: _ => .error (raiseProvider e "find_transfer" false)
  | .ok item :: rest =>
      if item.externalId = externalId then .ok (some (providerTransfer item))
      else firstWithExternalId externalId rest

theorem firstWithExternalId_mem {externalId : ExternalId} {items : SdkAnswer SdkTransfer}
    {t : ProviderTransfer} (h : firstWithExternalId externalId items = .ok (some t)) :
    ∃ item, .ok item ∈ items ∧ item.externalId = externalId ∧ providerTransfer item = t := by
  induction items with
  | nil => simp [firstWithExternalId] at h
  | cons item items ih =>
      cases item with
      | error e => simp [firstWithExternalId] at h
      | ok item =>
          unfold firstWithExternalId at h
          split_ifs at h with hext
          · exact ⟨item, by simp, hext, Option.some.inj (Except.ok.inj h)⟩
          · obtain ⟨item', hmem, hrest⟩ := ih h
            exact ⟨item', List.mem_cons_of_mem _ hmem, hrest⟩

def findTransfer (command : TransferCommand) :
    Service (Except ProviderError (Option ProviderTransfer)) :=
  .call (.transferQuery 10 [command.tag]) fun items =>
    .done (firstWithExternalId command.externalId items)

/-- After a refusal of the input, the transfer may be there already. -/
def reconcileRefused (command : TransferCommand) :
    Service (Except ProviderError ProviderTransfer) := do
  match ← findTransfer command with
  | .error e => .done (.error e)
  | .ok (some transfer) => .done (.ok transfer)
  | .ok none => .done (.error ⟨.permanent, "create_transfer"⟩)

def createTransfer (command : TransferCommand) :
    Service (Except ProviderError ProviderTransfer) :=
  .call (.transferCreate (transferRequest command)) fun
    | [] => .done (.error ⟨.unknownOutcome, "create_transfer_empty"⟩)
    | .error .inputErrors :: _ => reconcileRefused command
    | .error e :: _ => .done (.error (raiseProvider e "create_transfer" true))
    | .ok transfer :: _ => .done (.ok (providerTransfer transfer))

def ensureTransfer (live : Bool) (command : TransferCommand) :
    Service (Except ProviderError ProviderTransfer) := do
  requireLive live "ensure_transfer"
  match ← findTransfer command with
  | .error e => .done (.error e)
  | .ok (some existing) => .done (.ok existing)
  | .ok none => createTransfer command

end StarkbankTrial.ProviderClient
