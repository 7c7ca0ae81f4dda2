import StarkbankTrial.ProviderClient

/-!
# The webhooks of the application at the provider

The provider delivers events to the webhooks that it holds. The client wants one with the
URL of the application and both subscriptions. When its listing shows none, it deletes what
is listed for the URL, creates one, and returns nothing that a second listing does not
confirm.
-/
namespace StarkbankTrial.WebhookRegistry
open Domain InteractivePrograms InterleavedRuns ExternalCalls ProviderClient

structure ProviderWebhook where
  id : String
  url : String
  subscriptions : List String
deriving Repr, DecidableEq

structure WebhookInspection where
  active : Option ProviderWebhook
  stale : List ProviderWebhook
deriving Repr, DecidableEq

/-- `WEBHOOK_SUBSCRIPTIONS`. -/
def webhookSubscriptions : List String := ["invoice", "transfer"]

/-- `set(xs) == set(ys)`. -/
def sameSet (xs ys : List String) : Bool := xs.all ys.contains && ys.all xs.contains

/-! ### The client -/

inductive WebhookCall where
  | query
  | create (url : String) (subscriptions : List String)
  | delete (webhookId : String)
deriving Repr, DecidableEq

abbrev WebhookCall.Answer : WebhookCall → Type
  | .query => SdkAnswer ProviderWebhook
  | .create _ _ => Except SdkError ProviderWebhook
  | .delete _ => Except SdkError Unit

abbrev Registration (A : Type) := Program WebhookCall WebhookCall.Answer Failure A

/-- What the client is made with: whether it may write, whether its SDK can delete a
webhook, and the order in which the set of subscriptions is listed. -/
structure WebhookClient where
  liveOperationsEnabled : Bool
  deleteAvailable : Bool
  subscriptionList : List String
  lists_subscriptions : sameSet subscriptionList webhookSubscriptions = true

def isComplete (webhook : ProviderWebhook) : Bool :=
  sameSet webhook.subscriptions webhookSubscriptions

/-- The items of an answer, unless an error stands among them. -/
def validated {A : Type} : SdkAnswer A → Except SdkError (List A)
  | [] => .ok []
  | .error e :: _ => .error e
  | .ok a :: rest => (validated rest).map (a :: ·)

def listWebhooks : Registration (List ProviderWebhook) :=
  .call .query fun items =>
    match validated items with
    | .ok webhooks => .done webhooks
    | .error e => .raise (.provider (raiseProvider e "list_webhooks" false))

/-- The first complete webhook is active, and every other one is stale. -/
def inspectMatching : List ProviderWebhook → WebhookInspection
  | [] => ⟨none, []⟩
  | webhook :: rest =>
      if isComplete webhook then ⟨some webhook, rest⟩
      else ⟨(inspectMatching rest).active, webhook :: (inspectMatching rest).stale⟩

def inspectWebhooks (url : String) : Registration WebhookInspection := do
  let webhooks ← listWebhooks
  pure (inspectMatching (webhooks.filter fun webhook => webhook.url == url))

variable (client : WebhookClient)

def requireLive (operation : String) : Registration Unit :=
  if client.liveOperationsEnabled then .done () else .raise (.liveOperationsDisabled operation)

def deleteWebhook (webhookId : String) : Registration Unit := do
  requireLive client "delete_webhook"
  if client.deleteAvailable then
    .call (.delete webhookId) fun
      | .ok _ => .done ()
      | .error e => .raise (.provider (raiseProvider e "delete_webhook" true))
  else
    .raise (.provider ⟨.permanent, "delete_webhook"⟩)

def createWebhook (url : String) : Registration ProviderWebhook :=
  .call (.create url client.subscriptionList) fun
    | .ok webhook => .done webhook
    | .error e => .raise (.provider (raiseProvider e "create_webhook" true))

def confirmWebhook (webhook : ProviderWebhook) (url : String) : Registration ProviderWebhook := do
  let inspection ← inspectWebhooks url
  match inspection.active with
  | none => .raise (.provider ⟨.unknownOutcome, "create_webhook_unconfirmed"⟩)
  | some active =>
      if active.id = webhook.id then .done active
      else .raise (.provider ⟨.unknownOutcome, "create_webhook_unconfirmed"⟩)

/-- Every stale webhook goes before a new one comes. -/
def replaceStale (url : String) (stale : List ProviderWebhook) : Registration ProviderWebhook := do
  Program.forEach (fun webhook => deleteWebhook client webhook.id) stale
  let webhook ← createWebhook client url
  confirmWebhook webhook url

def ensureWebhook (url : String) : Registration ProviderWebhook := do
  requireLive client "ensure_webhook"
  let inspection ← inspectWebhooks url
  match inspection.active with
  | some active => .done active
  | none => replaceStale client url inspection.stale

/-! ### The commands -/

/-- What a command prints: the webhook, and the ids that it replaced. -/
structure WebhookReport where
  webhook : ProviderWebhook
  replaced : List String
deriving Repr, DecidableEq

/-- `provider setup-webhook`. -/
def setupWebhook (url : String) : Registration WebhookReport := do
  let before ← inspectWebhooks url
  let webhook ← ensureWebhook client url
  pure ⟨webhook, before.stale.map (·.id)⟩

/-- `provider cleanup-webhooks`, after the operator has confirmed it. -/
def cleanupWebhooks (url : String) : Registration WebhookReport := do
  let inspection ← inspectWebhooks url
  match inspection.active with
  | some active => .done ⟨active, []⟩
  | none => do
      let active ← ensureWebhook client url
      pure ⟨active, inspection.stale.map (·.id)⟩

/-! ### What an inspection shows -/

variable {client}

theorem mem_of_validated {A : Type} {items : SdkAnswer A} {as : List A}
    (h : validated items = .ok as) : ∀ a, a ∈ as ↔ .ok a ∈ items := by
  induction items generalizing as with
  | nil =>
      obtain rfl := Except.ok.inj h
      simp
  | cons item items ih =>
      cases item with
      | error e => cases h
      | ok b =>
          obtain ⟨bs, hbs, rfl⟩ : ∃ bs, validated items = .ok bs ∧ b :: bs = as := by
            unfold validated at h
            cases hrest : validated items with
            | error e => simp [hrest, Except.map] at h
            | ok bs => exact ⟨bs, rfl, by simpa [hrest, Except.map] using h⟩
          intro a
          simp [ih hbs a]

theorem inspectMatching_active {webhooks : List ProviderWebhook} {active : ProviderWebhook}
    (h : (inspectMatching webhooks).active = some active) :
    active ∈ webhooks ∧ isComplete active = true := by
  induction webhooks with
  | nil => cases h
  | cons webhook rest ih =>
      unfold inspectMatching at h
      split_ifs at h with hcomplete
      · obtain rfl := Option.some.inj h
        exact ⟨by simp, hcomplete⟩
      · obtain ⟨hmem, hactive⟩ := ih h
        exact ⟨List.mem_cons_of_mem _ hmem, hactive⟩

/-- Without an active webhook all are stale, and none is complete. -/
theorem inspectMatching_none {webhooks : List ProviderWebhook}
    (h : (inspectMatching webhooks).active = none) :
    (inspectMatching webhooks).stale = webhooks ∧ ∀ w ∈ webhooks, isComplete w = false := by
  induction webhooks with
  | nil => simp [inspectMatching]
  | cons webhook rest ih =>
      unfold inspectMatching at h ⊢
      split_ifs at h ⊢ with hcomplete
      obtain ⟨hstale, hnone⟩ := ih h
      refine ⟨congrArg (webhook :: ·) hstale, ?_⟩
      simpa [hcomplete] using hnone

end StarkbankTrial.WebhookRegistry
