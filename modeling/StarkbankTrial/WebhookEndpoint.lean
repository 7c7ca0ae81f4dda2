import StarkbankTrial.Services

/-!
# The webhook endpoint

`POST /webhooks/starkbank`, from the request to the response. What the SDK reads from a
content is a fixed function of it. Its check of the signature is not, since the public key
may be fetched anew, and its answer is part of the request. How pydantic validates the object
that was read is modelled attribute by attribute.
-/
namespace StarkbankTrial.WebhookEndpoint
open Domain InteractivePrograms ExternalCalls EventRecording Services

/-! ### Validation -/

/-- What the validation makes of one attribute. -/
inductive Attribute (A : Type) where
  | missing | invalid | valid (value : A)
deriving Repr, DecidableEq

namespace Attribute
variable {A : Type}

def required : Attribute A → Except SdkError A
  | .valid value => .ok value
  | .missing | .invalid => .error .validationError

def withDefault (default : A) : Attribute A → Except SdkError A
  | .valid value => .ok value
  | .missing => .ok default
  | .invalid => .error .validationError

end Attribute

/-! The object that the SDK reads from a content. Any object passes as the log, the invoice
or the transfer; it is its attributes that are validated. -/

structure RawInvoice where
  id : Attribute InvoiceId
  amount : Attribute ℤ
  fee : Attribute ℤ
  tags : Attribute (List String)
deriving Repr, DecidableEq

structure RawTransfer where
  id : Attribute TransferId
  externalId : Attribute ExternalId
  status : Attribute String
  updated : Attribute DateTime
deriving Repr, DecidableEq

structure RawLog where
  type : Attribute String
  invoice : Option RawInvoice
  transfer : Option RawTransfer
deriving Repr, DecidableEq

structure RawEvent where
  id : Attribute EventId
  subscription : Attribute String
  workspaceId : Attribute String
  log : Option RawLog
deriving Repr, DecidableEq

/-- `_SdkEvent`. -/
structure SdkEvent where
  id : EventId
  subscription : String
  workspaceId : String
  log : RawLog
deriving Repr, DecidableEq

def sdkEvent (raw : RawEvent) : Except SdkError SdkEvent := do
  let id ← raw.id.required
  let subscription ← raw.subscription.required
  let workspaceId ← raw.workspaceId.required
  match raw.log with
  | none => .error .validationError
  | some log => .ok ⟨id, subscription, workspaceId, log⟩

/-! ### Verification -/

structure UnexpectedWorkspaceError where
  workspaceId : String
  eventId : EventId
  subscription : String
  logType : String
deriving Repr, DecidableEq

/-- What is raised inside the `try` of `verify_event`. -/
inductive Raised where
  | unicodeDecodeError
  | sdk (error : SdkError)
  | unexpectedWorkspace (error : UnexpectedWorkspaceError)
deriving Repr, DecidableEq

/-- What `verify_event` raises. -/
inductive Rejection where
  | invalidWebhook
  | transient
  | unexpectedWorkspace (error : UnexpectedWorkspaceError)
  | uncaught (error : SdkError)
deriving Repr, DecidableEq

def assertExpectedWorkspace (expected : Option String) (event : SdkEvent) (logType : String) :
    Except Raised Unit :=
  if expected ≠ none ∧ expected ≠ some event.workspaceId then
    .error (.unexpectedWorkspace ⟨event.workspaceId, event.id, event.subscription, logType⟩)
  else .ok ()

def ignoredEvent (event : SdkEvent) (logType : String) : IgnoredEvent where
  eventId := event.id
  subscription := event.subscription
  logType := logType
  workspaceId := event.workspaceId

/-- A naive time is taken for UTC. -/
def lifecycleEvent (event : SdkEvent) (logType : String) (transfer : RawTransfer) :
    Except SdkError TransferLifecycleEvent := do
  let id ← transfer.id.required
  let externalId ← transfer.externalId.required
  let status ← transfer.status.required
  let updated ← transfer.updated.required
  let updatedAt := if updated.utcoffset = none then ⟨updated.wall, some 0⟩ else updated
  pure { eventId := event.id, transferId := id, externalId := externalId, status := status
         logType := logType, updatedAt := updatedAt, workspaceId := event.workspaceId }

def creditedEvent (event : SdkEvent) (log : RawLog) : Except SdkError CreditedInvoiceEvent := do
  match log.invoice with
  | none => .error .validationError
  | some invoice => do
      let id ← invoice.id.required
      let amount ← invoice.amount.required
      let fee ← invoice.fee.required
      let tags ← invoice.tags.withDefault []
      pure { eventId := event.id, invoiceId := id, amount := amount, fee := fee
             workspaceId := event.workspaceId, tags := tags }

/-- What is made of the event of the expected workspace. A transfer log without a transfer
is ignored; every other attribute that is missing is an error. -/
def classifyEvent (event : SdkEvent) (logType : String) : Except SdkError VerifiedEvent :=
  if event.subscription = "transfer" then
    match event.log.transfer with
    | none => .ok (.ignored (ignoredEvent event logType))
    | some transfer => .lifecycle <$> lifecycleEvent event logType transfer
  else if event.subscription ≠ "invoice" ∨ logType ≠ "credited" then
    .ok (.ignored (ignoredEvent event logType))
  else .credited <$> creditedEvent event event.log

def verifyParsed (expectedWorkspaceId : Option String) (raw : RawEvent) :
    Except Raised VerifiedEvent := do
  let event ← (sdkEvent raw).mapError .sdk
  let logType ← event.log.type.required.mapError .sdk
  assertExpectedWorkspace expectedWorkspaceId event logType
  (classifyEvent event logType).mapError .sdk

/-- The `except` clauses of `verify_event`. -/
def caught : Raised → Rejection
  | .unexpectedWorkspace error => .unexpectedWorkspace error
  | .unicodeDecodeError | .sdk .invalidSignatureError | .sdk .validationError => .invalidWebhook
  | .sdk .internalServerError | .sdk .unknownError => .transient
  | .sdk error => .uncaught error

/-- What the deployment fixes: the settings, and what the SDK and SHA-256 make of a content. -/
structure Endpoint where
  expectedWorkspaceId : Option String
  maxContentLength : ℕ
  parse : String → Except SdkError RawEvent
  sha256 : ByteArray → String

/-- A request, with what the check of its signature answers. -/
structure Request where
  content : ByteArray
  signature : Option String
  check : Except SdkError Unit

variable (cfg : Endpoint)

/-- `StarkBankClient.verify_event`. -/
def verifyEvent (request : Request) : Except Rejection VerifiedEvent :=
  Except.mapError caught do
    match String.fromUTF8? request.content with
    | none => .error .unicodeDecodeError
    | some content => do
        request.check.mapError .sdk
        let raw ← (cfg.parse content).mapError .sdk
        verifyParsed cfg.expectedWorkspaceId raw

/-! ### The response -/

inductive Body where
  | status (value : String)
  | error (text : String)
  | page
deriving Repr, DecidableEq

structure Response where
  code : ℕ
  body : Body
deriving Repr, DecidableEq

/-- What `WebhookService.receive` has to record, or the rejection that leaves it at once. -/
def delivery (request : Request) : Except Rejection Delivery :=
  match verifyEvent cfg request with
  | .ok event => .ok (.verified event (cfg.sha256 request.content))
  | .error (.unexpectedWorkspace error) =>
      .ok (.unexpectedWorkspace
        ⟨error.eventId, error.subscription, error.logType, error.workspaceId⟩
        (cfg.sha256 request.content))
  | .error rejection => .error rejection

/-- `jobId` is the id that `uuid4` would give a new job. An exception that no clause catches
becomes the page of an internal error. -/
def starkbankWebhook (jobId : TransferJobId) (request : Request) : Service Response :=
  match request.signature with
  | none => .done ⟨400, .error "missing Digital-Signature header"⟩
  | some _ =>
      if cfg.maxContentLength < request.content.size then .done ⟨413, .page⟩
      else
        match delivery cfg request with
        | .error .invalidWebhook => .done ⟨400, .error "invalid webhook"⟩
        | .error .transient => .done ⟨503, .error "verification unavailable"⟩
        | .error _ => .done ⟨500, .page⟩
        | .ok delivered => do
            match ← (receive jobId delivered).attempt with
            | .ok outcome => pure ⟨200, .status outcome.value⟩
            | .error (.unexpectedWorkspace _) => pure ⟨200, .status "ignored_workspace"⟩
            | .error _ => pure ⟨500, .page⟩

/-- A request with its response. -/
structure Exchange where
  request : Request
  response : Response

def serve (jobId : TransferJobId) (request : Request) : Service Exchange := do
  let response ← starkbankWebhook cfg jobId request
  pure ⟨request, response⟩

/-! ### What passes the verification -/

section
variable {expected : Option String} {raw : RawEvent} {event : VerifiedEvent}
variable {error : UnexpectedWorkspaceError}

theorem assertExpectedWorkspace_ok {e : SdkEvent} {logType : String}
    (h : assertExpectedWorkspace expected e logType = .ok ()) {w : String}
    (hw : expected = some w) : e.workspaceId = w := by
  subst hw
  unfold assertExpectedWorkspace at h
  split_ifs at h with hother
  simpa [eq_comm] using hother

theorem assertExpectedWorkspace_error {e : SdkEvent} {logType : String} {raised : Raised}
    (h : assertExpectedWorkspace expected e logType = .error raised) :
    ∃ w, expected = some w ∧ e.workspaceId ≠ w ∧
      raised = .unexpectedWorkspace ⟨e.workspaceId, e.id, e.subscription, logType⟩ := by
  unfold assertExpectedWorkspace at h
  split_ifs at h with hother
  obtain ⟨w, rfl⟩ := Option.ne_none_iff_exists'.mp hother.1
  exact ⟨w, rfl, fun hsame => hother.2 (congrArg some hsame.symm), (Except.error.inj h).symm⟩

theorem lifecycleEvent_workspace {e : SdkEvent} {logType : String} {transfer : RawTransfer}
    {lifecycle : TransferLifecycleEvent} (h : lifecycleEvent e logType transfer = .ok lifecycle) :
    lifecycle.workspaceId = e.workspaceId := by
  unfold lifecycleEvent at h
  cases hid : transfer.id.required <;> cases hext : transfer.externalId.required <;>
    cases hstatus : transfer.status.required <;> cases hupdated : transfer.updated.required <;>
    simp only [hid, hext, hstatus, hupdated, bind, Except.bind, pure, Except.pure,
      reduceCtorEq, Except.ok.injEq] at h
  exact h ▸ rfl

theorem creditedEvent_workspace {e : SdkEvent} {log : RawLog} {credited : CreditedInvoiceEvent}
    (h : creditedEvent e log = .ok credited) : credited.workspaceId = e.workspaceId := by
  unfold creditedEvent at h
  cases hinvoice : log.invoice with
  | none => simp [hinvoice] at h
  | some invoice =>
      cases hid : invoice.id.required <;> cases hamount : invoice.amount.required <;>
        cases hfee : invoice.fee.required <;> cases htags : invoice.tags.withDefault [] <;>
        simp only [hinvoice, hid, hamount, hfee, htags, bind, Except.bind, pure, Except.pure,
          reduceCtorEq, Except.ok.injEq] at h
      exact h ▸ rfl

/-- An event keeps the workspace that it was read with. -/
theorem classifyEvent_workspace {e : SdkEvent} {logType : String}
    (h : classifyEvent e logType = .ok event) : event.workspaceId = e.workspaceId := by
  unfold classifyEvent at h
  split_ifs at h
  · split at h
    · exact Except.ok.inj h ▸ rfl
    · next transfer _ =>
        cases hl : lifecycleEvent e logType transfer with
        | error err => simp [hl, Functor.map, Except.map] at h
        | ok lifecycle =>
            simp only [hl, Functor.map, Except.map, Except.ok.injEq] at h
            exact h ▸ lifecycleEvent_workspace hl
  · exact Except.ok.inj h ▸ rfl
  · cases hc : creditedEvent e e.log with
    | error err => simp [hc, Functor.map, Except.map] at h
    | ok credited =>
        simp only [hc, Functor.map, Except.map, Except.ok.injEq] at h
        exact h ▸ creditedEvent_workspace hc

/-- The event was validated, and its workspace was compared with the expected one. -/
theorem verifyParsed_cases (expected : Option String) (raw : RawEvent) :
    (∃ e logType, assertExpectedWorkspace expected e logType = .ok () ∧
      verifyParsed expected raw = (classifyEvent e logType).mapError .sdk) ∨
    (∃ e logType raised, assertExpectedWorkspace expected e logType = .error raised ∧
      verifyParsed expected raw = .error raised) ∨
    ∃ err, verifyParsed expected raw = .error (.sdk err) := by
  unfold verifyParsed
  cases hevent : sdkEvent raw with
  | error err => exact .inr (.inr ⟨err, rfl⟩)
  | ok e =>
      cases htype : e.log.type.required with
      | error err => exact .inr (.inr ⟨err, by simp [Except.mapError, bind, Except.bind, htype]⟩)
      | ok logType =>
          cases hassert : assertExpectedWorkspace expected e logType with
          | error raised =>
              exact .inr (.inl ⟨e, logType, raised, hassert,
                by simp [Except.mapError, bind, Except.bind, htype, hassert]⟩)
          | ok _ =>
              exact .inl ⟨e, logType, hassert,
                by simp [Except.mapError, bind, Except.bind, htype, hassert]⟩

theorem verifyParsed_ok (h : verifyParsed expected raw = .ok event) {w : String}
    (hw : expected = some w) : event.workspaceId = w := by
  rcases verifyParsed_cases expected raw with
    ⟨e, logType, hassert, heq⟩ | ⟨e, logType, raised, -, heq⟩ | ⟨err, heq⟩
  · rw [h] at heq
    cases hclass : classifyEvent e logType with
    | error err => simp [hclass, Except.mapError] at heq
    | ok event' =>
        obtain rfl : event = event' := by simpa [hclass, Except.mapError] using heq
        exact (classifyEvent_workspace hclass).trans (assertExpectedWorkspace_ok hassert hw)
  · simp [h] at heq
  · simp [h] at heq

theorem verifyParsed_foreign (h : verifyParsed expected raw = .error (.unexpectedWorkspace error)) :
    ∃ w, expected = some w ∧ error.workspaceId ≠ w := by
  rcases verifyParsed_cases expected raw with
    ⟨e, logType, -, heq⟩ | ⟨e, logType, raised, hassert, heq⟩ | ⟨err, heq⟩
  · rw [h] at heq
    cases hclass : classifyEvent e logType <;> simp [hclass, Except.mapError] at heq
  · obtain ⟨w, hw, hne, rfl⟩ := assertExpectedWorkspace_error hassert
    rw [h] at heq
    cases heq
    exact ⟨w, hw, hne⟩
  · simp [h] at heq

end

variable {cfg} {request request' : Request} {delivered delivered' : Delivery}

/-- The signature is accepted and the SDK reads this object. -/
structure Reads (cfg : Endpoint) (request : Request) (raw : RawEvent) : Prop where
  checked : request.check = .ok ()
  parsed : ∃ content, String.fromUTF8? request.content = some content ∧
    cfg.parse content = .ok raw

theorem Reads.unique {raw raw' : RawEvent} (h : Reads cfg request raw)
    (h' : Reads cfg request' raw') (hsame : request.content = request'.content) : raw = raw' := by
  obtain ⟨content, hdecoded, hparsed⟩ := h.parsed
  obtain ⟨content', hdecoded', hparsed'⟩ := h'.parsed
  rw [hsame, hdecoded'] at hdecoded
  cases hdecoded
  exact Except.ok.inj (hparsed.symm.trans hparsed')

/-- Only the verdict on an object that was read can name an event. -/
theorem verifyEvent_cases (cfg : Endpoint) (request : Request) :
    (∃ raw, Reads cfg request raw ∧
      verifyEvent cfg request = (verifyParsed cfg.expectedWorkspaceId raw).mapError caught) ∨
    ∃ err, verifyEvent cfg request = .error (caught (.sdk err)) := by
  unfold verifyEvent
  cases hdecoded : String.fromUTF8? request.content with
  | none => exact .inr ⟨.validationError, rfl⟩
  | some content =>
      cases hcheck : request.check with
      | error err => exact .inr ⟨err, rfl⟩
      | ok _ =>
          cases hparsed : cfg.parse content with
          | error err =>
              exact .inr ⟨err, by simp [Except.mapError, bind, Except.bind, hparsed]⟩
          | ok raw =>
              exact .inl ⟨raw, ⟨hcheck, content, hdecoded, hparsed⟩,
                by simp [Except.mapError, bind, Except.bind, hparsed]⟩

/-- What a delivery is made of. -/
inductive Verdict (cfg : Endpoint) (request : Request) (raw : RawEvent) : Delivery → Prop
  | verified {event : VerifiedEvent} : verifyParsed cfg.expectedWorkspaceId raw = .ok event →
      Verdict cfg request raw (.verified event (cfg.sha256 request.content))
  | unexpectedWorkspace {error : UnexpectedWorkspaceError} :
      verifyParsed cfg.expectedWorkspaceId raw = .error (.unexpectedWorkspace error) →
      Verdict cfg request raw (.unexpectedWorkspace
        ⟨error.eventId, error.subscription, error.logType, error.workspaceId⟩
        (cfg.sha256 request.content))

theorem caught_sdk (err : SdkError) (error : UnexpectedWorkspaceError) :
    caught (.sdk err) ≠ .unexpectedWorkspace error := by
  cases err <;> simp [caught]

theorem caught_unexpected {raised : Raised} {error : UnexpectedWorkspaceError}
    (h : caught raised = .unexpectedWorkspace error) : raised = .unexpectedWorkspace error := by
  cases raised with
  | unicodeDecodeError => simp [caught] at h
  | sdk err => exact absurd h (caught_sdk err error)
  | unexpectedWorkspace error' => simpa [caught] using h

theorem delivery_ok (h : delivery cfg request = .ok delivered) :
    ∃ raw, Reads cfg request raw ∧ Verdict cfg request raw delivered := by
  unfold delivery at h
  rcases verifyEvent_cases cfg request with ⟨raw, hreads, heq⟩ | ⟨err, heq⟩
  · refine ⟨raw, hreads, ?_⟩
    rw [heq] at h
    cases hparsed : verifyParsed cfg.expectedWorkspaceId raw with
    | ok event =>
        simp only [hparsed, Except.mapError, Except.ok.injEq] at h
        exact h ▸ .verified hparsed
    | error raised =>
        simp only [hparsed, Except.mapError] at h
        split at h
        · next hok => simp at hok
        · next error hcaught =>
            obtain rfl := caught_unexpected (Except.error.inj hcaught)
            exact Except.ok.inj h ▸ .unexpectedWorkspace hparsed
        · simp at h
  · rw [heq] at h
    split at h
    · next hok => simp at hok
    · next error hcaught => exact absurd (Except.error.inj hcaught) (caught_sdk err error)
    · simp at h

/-- The content decides what is delivered. -/
theorem delivery_content (h : delivery cfg request = .ok delivered)
    (h' : delivery cfg request' = .ok delivered') (hsame : request.content = request'.content) :
    delivered = delivered' := by
  obtain ⟨raw, hreads, hverdict⟩ := delivery_ok h
  obtain ⟨raw', hreads', hverdict'⟩ := delivery_ok h'
  obtain rfl := hreads.unique hreads' hsame
  cases hverdict with
  | verified hparsed =>
      cases hverdict' with
      | verified hparsed' =>
          rw [hparsed] at hparsed'
          cases hparsed'
          rw [hsame]
      | unexpectedWorkspace hparsed' => simp [hparsed] at hparsed'
  | unexpectedWorkspace hparsed =>
      cases hverdict' with
      | verified hparsed' => simp [hparsed] at hparsed'
      | unexpectedWorkspace hparsed' =>
          rw [hparsed] at hparsed'
          cases hparsed'
          rw [hsame]

end StarkbankTrial.WebhookEndpoint
