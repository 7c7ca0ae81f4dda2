import Mathlib.Data.List.Basic
import StarkbankTrial.WebhookRegistry

/-!
# Registrations that run at once

Several processes of one environment, or of several, may register their webhooks at once,
and each call to the provider may fail with or without effect. A deletion was decided on a
listing that may be old by then. It still removes only an incomplete webhook of the URL of
its own process, because a webhook never changes and an id is never used again.
-/
namespace StarkbankTrial.WebhookRuns
open Domain InteractivePrograms InterleavedRuns ExternalCalls WebhookRegistry

/-! ### Registrations -/

/-- The programs that register the webhook of a URL. -/
inductive Admitted (url : String) : Registration WebhookReport → Prop
  | setup (client : WebhookClient) : Admitted url (setupWebhook client url)
  | cleanup (client : WebhookClient) : Admitted url (cleanupWebhooks client url)
  | preflight (client : WebhookClient) :
      Admitted url (ensureWebhook client url >>= fun webhook => pure ⟨webhook, []⟩)

/-! ### What a proof about a registration fills in -/

section
variable {ι S : Type}

/-- The log of calls to the provider. -/
abbrev CallLog (ι : Type) := Log ι WebhookCall WebhookCall.Answer

/-- What is known of a webhook that is returned, and of those that are still to be deleted,
and what each of the three calls does to it. -/
structure RegistrationRules
    (P : Protocol ι WebhookCall WebhookCall.Answer Failure WebhookReport S) (i : ι)
    (url : String) where
  live : ProviderWebhook → CallLog ι → S → Prop
  stale : List ProviderWebhook → CallLog ι → S → Prop
  live_stable : ∀ w, P.Stable i (live w)
  stale_stable : ∀ ws, P.Stable i (stale ws)
  query : P.Triple i (fun _ _ => True) .query fun items l s =>
    ∀ webhooks inspection, validated items = .ok webhooks →
      inspection = inspectMatching (webhooks.filter fun w => w.url == url) →
      (∀ w, inspection.active = some w → live w l s) ∧
        (inspection.active = none → stale inspection.stale l s)
  delete : ∀ w ws, P.Triple i (stale (w :: ws)) (.delete w.id) fun answer l s =>
    answer = .ok () → stale ws l s
  create : ∀ client : WebhookClient,
    P.Triple i (stale []) (.create url client.subscriptionList) fun _ _ _ => True

namespace RegistrationRules
variable {P : Protocol ι WebhookCall WebhookCall.Answer Failure WebhookReport S} {i : ι}
variable {url : String} {l : CallLog ι} {s : S} {client : WebhookClient}

/-- What an inspection may be trusted with. -/
structure Inspected (h : RegistrationRules P i url) (inspection : WebhookInspection)
    (l : CallLog ι) (s : S) : Prop where
  active : ∀ w, inspection.active = some w → h.live w l s
  stale : inspection.active = none → h.stale inspection.stale l s

theorem inspected_stable (h : RegistrationRules P i url) (inspection : WebhookInspection) :
    P.Stable i (h.Inspected inspection) :=
  fun l s l' s' hi hrely hinv =>
    ⟨fun w hw => h.live_stable w l s l' s' (hi.active w hw) hrely hinv,
      fun hnone => h.stale_stable _ l s l' s' (hi.stale hnone) hrely hinv⟩

theorem inspect_ensures (h : RegistrationRules P i url) :
    Ensures P i (inspectWebhooks url) (Returns h.Inspected) l s := by
  refine .call trivial h.query fun items l s hquery => ?_
  cases hitems : validated items with
  | error e =>
      simp only [hitems]
      exact .raised
  | ok webhooks =>
      simp only [hitems]
      obtain ⟨hactive, hstale⟩ := hquery webhooks _ hitems rfl
      exact .returned (h.inspected_stable _) ⟨hactive, hstale⟩

theorem requireLive_ensures {operation : String} {fact : CallLog ι → S → Prop}
    (hstable : P.Stable i fact) (hfact : fact l s) :
    Ensures P i (requireLive client operation) (Returns fun _ => fact) l s := by
  unfold requireLive
  split_ifs with hlive
  · exact .returned hstable hfact
  · exact .raised

/-- One stale webhook goes; the others may still be deleted. -/
theorem delete_ensures (h : RegistrationRules P i url) (hP : P.Sound) {w : ProviderWebhook}
    {ws : List ProviderWebhook} (hstale : h.stale (w :: ws) l s) :
    Ensures P i (deleteWebhook client w.id) (Returns fun _ => h.stale ws) l s := by
  refine .seq hP (requireLive_ensures (h.stale_stable _) hstale) fun _ l s hstale => ?_
  split_ifs with hdelete
  · refine .call hstale (h.delete w ws) fun answer l s hrest => ?_
    cases answer with
    | ok _ => exact .returned (h.stale_stable _) (hrest rfl)
    | error e => exact .raised
  · exact .raised

theorem create_ensures (h : RegistrationRules P i url) (hstale : h.stale [] l s) :
    Ensures P i (createWebhook client url) (Returns fun _ _ _ => True) l s := by
  refine .call hstale (h.create client) fun answer l s _ => ?_
  cases answer with
  | ok webhook => exact .returned (fun _ _ _ _ _ _ _ => trivial) trivial
  | error e => exact .raised

/-- Whatever the answer to the creation was, the last listing shows what is returned. -/
theorem confirm_ensures (h : RegistrationRules P i url) (hP : P.Sound)
    {webhook : ProviderWebhook} :
    Ensures P i (confirmWebhook webhook url) (Returns h.live) l s := by
  refine .seq hP h.inspect_ensures fun inspection l s hi => ?_
  cases hactive : inspection.active with
  | none => exact .raised
  | some active =>
      dsimp only
      split_ifs
      · exact .returned (h.live_stable _) (hi.active active hactive)
      · exact .raised

theorem replace_ensures (h : RegistrationRules P i url) (hP : P.Sound)
    {stale : List ProviderWebhook} (hstale : h.stale stale l s) :
    Ensures P i (replaceStale client url stale) (Returns h.live) l s := by
  refine .seq hP (.forEach hP (h.stale_stable [])
    (fun w ws l s (hstale : h.stale (w :: ws) l s) => h.delete_ensures hP hstale) hstale)
    fun _ l s hvacant => ?_
  exact .seq hP (h.create_ensures hvacant) fun webhook l s _ => h.confirm_ensures hP

theorem ensure_ensures (h : RegistrationRules P i url) (hP : P.Sound) :
    Ensures P i (ensureWebhook client url) (Returns h.live) l s := by
  have hlive : Ensures P i (requireLive client "ensure_webhook") (Returns fun _ _ _ => True) l s :=
    requireLive_ensures (fun _ _ _ _ _ _ _ => trivial) trivial
  refine .seq hP hlive fun _ l s _ => .seq hP h.inspect_ensures fun inspection l s hi => ?_
  cases hactive : inspection.active with
  | some active => exact .returned (h.live_stable _) (hi.active active hactive)
  | none => exact h.replace_ensures hP (hi.stale hactive)

/-- A registration that returns, returns a webhook that is live. -/
theorem admitted_ensures (h : RegistrationRules P i url) (hP : P.Sound)
    {p : Registration WebhookReport} (hp : Admitted url p) :
    Ensures P i p (Returns fun report => h.live report.webhook) l s := by
  cases hp with
  | setup client =>
      refine .seq hP h.inspect_ensures fun before l s _ => ?_
      exact .seq hP (h.ensure_ensures hP) fun webhook l s hlive =>
        .returned (h.live_stable _) hlive
  | cleanup client =>
      refine .seq hP h.inspect_ensures fun inspection l s hi => ?_
      cases hactive : inspection.active with
      | some active => exact .returned (h.live_stable _) (hi.active active hactive)
      | none =>
          exact .seq hP (h.ensure_ensures hP) fun active l s hlive =>
            .returned (h.live_stable _) hlive
  | preflight client =>
      exact .seq hP (h.ensure_ensures hP) fun webhook l s hlive =>
        .returned (h.live_stable _) hlive

end RegistrationRules
end

/-! ### The provider -/

/-- The webhooks that the provider holds, among all that it ever held. -/
structure Registry where
  held : List ProviderWebhook
  issued : List ProviderWebhook
  held_issued : ∀ w ∈ held, w ∈ issued
  distinct : (issued.map ProviderWebhook.id).Nodup

theorem Registry.eq_of_id (r : Registry) {w v : ProviderWebhook} (hw : w ∈ r.issued)
    (hv : v ∈ r.issued) (h : w.id = v.id) : w = v :=
  List.inj_on_of_nodup_map r.distinct hw hv h

/-- A webhook is created and answered, or created without an answer, or not created. -/
inductive WebhookCreated (r : Registry) (url : String) (subscriptions : List String) :
    Except SdkError ProviderWebhook → Registry → Prop
  | refused {e : SdkError} : WebhookCreated r url subscriptions (.error e) r
  | created {answer : Except SdkError ProviderWebhook} {id : String} {r' : Registry} :
      (∀ w, w ∈ r'.held ↔ w ∈ r.held ∨ w = ⟨id, url, subscriptions⟩) →
      (∀ w, w ∈ r'.issued ↔ w ∈ r.issued ∨ w = ⟨id, url, subscriptions⟩) →
      (∀ w, answer = .ok w → w = ⟨id, url, subscriptions⟩) →
      (∀ w ∈ r.issued, w.id ≠ id) → WebhookCreated r url subscriptions answer r'

/-- A webhook is deleted, and that may stay unanswered, or it is not deleted. -/
inductive WebhookDeleted (r : Registry) (webhookId : String) :
    Except SdkError Unit → Registry → Prop
  | refused {e : SdkError} : WebhookDeleted r webhookId (.error e) r
  | deleted {answer : Except SdkError Unit} {r' : Registry} :
      (∀ w, w ∈ r'.held ↔ w ∈ r.held ∧ w.id ≠ webhookId) →
      (∀ w, w ∈ r'.issued ↔ w ∈ r.issued) → WebhookDeleted r webhookId answer r'

/-- What a listing shows is held. -/
def Performs (r : Registry) : (call : WebhookCall) → call.Answer → Registry → Prop
  | .query, items, r' => r' = r ∧ ∀ w, .ok w ∈ items → w ∈ r.held
  | .create url subscriptions, answer, r' => WebhookCreated r url subscriptions answer r'
  | .delete webhookId, answer, r' => WebhookDeleted r webhookId answer r'

/-- A listing without an error shows everything. -/
def ListsAll (r : Registry) : (call : WebhookCall) → call.Answer → Prop
  | .query, items => ∀ webhooks, validated items = .ok webhooks → ∀ w ∈ r.held, w ∈ webhooks
  | _, _ => True

def Registry.add (r : Registry) (w : ProviderWebhook) (h : ∀ v ∈ r.issued, v.id ≠ w.id) :
    Registry where
  held := r.held ++ [w]
  issued := r.issued ++ [w]
  held_issued v hv := by
    rcases List.mem_append.mp hv with hv | hv
    · exact List.mem_append.mpr (.inl (r.held_issued v hv))
    · exact List.mem_append.mpr (.inr hv)
  distinct := by
    rw [List.map_append, List.nodup_append]
    refine ⟨r.distinct, by simp, fun id hid id' hid' heq => ?_⟩
    obtain ⟨v, hv, rfl⟩ := List.mem_map.mp hid
    obtain rfl : id' = w.id := by simpa using hid'
    exact h v hv heq

def Registry.remove (r : Registry) (webhookId : String) : Registry where
  held := r.held.filter fun w => w.id ≠ webhookId
  issued := r.issued
  held_issued w hw := r.held_issued w (List.mem_filter.mp hw).1
  distinct := r.distinct

/-- One provider that keeps to the rules: it is told the id of a new webhook and whether it
answers. -/
def respond {ι : Type} (_ : CallLog ι) (r : Registry) (_ : ι) :
    (call : WebhookCall) → String × Bool → Option (call.Answer × Registry)
  | .query, (_, answered) =>
      some (if answered then r.held.map .ok else [.error .internalServerError], r)
  | .create url subscriptions, (id, answered) =>
      if h : ∀ w ∈ r.issued, w.id ≠ id then
        some (if answered then .ok ⟨id, url, subscriptions⟩ else .error .internalServerError,
          r.add ⟨id, url, subscriptions⟩ h)
      else none
  | .delete webhookId, (_, answered) =>
      some (if answered then .ok () else .error .internalServerError, r.remove webhookId)

theorem respond_performs {ι : Type} {l : CallLog ι} {r : Registry} {i : ι} {call : WebhookCall}
    {choice : String × Bool} {answer : call.Answer × Registry}
    (h : respond l r i call choice = some answer) : Performs r call answer.1 answer.2 := by
  obtain ⟨id, answered⟩ := choice
  cases call with
  | query =>
      obtain rfl := Option.some.inj h
      refine ⟨rfl, fun w hw => ?_⟩
      cases answered with
      | false => simp at hw
      | true => simpa using hw
  | create url subscriptions =>
      by_cases hfresh : ∀ w ∈ r.issued, w.id ≠ id
      · simp only [respond, dif_pos hfresh, Option.some.injEq] at h
        obtain rfl := h
        refine .created (by simp [Registry.add]) (by simp [Registry.add]) (fun w hw => ?_) hfresh
        cases answered with
        | false => cases hw
        | true => exact (Except.ok.inj hw).symm
      · simp only [respond, dif_neg hfresh] at h
        cases h
  | delete webhookId =>
      obtain rfl := Option.some.inj h
      exact .deleted (by simp [Registry.remove]) fun _ => Iff.rfl

/-- It lists all that it holds. -/
theorem respond_listsAll {ι : Type} {l : CallLog ι} {r : Registry} {i : ι} {call : WebhookCall}
    {choice : String × Bool} {answer : call.Answer × Registry}
    (h : respond l r i call choice = some answer) : ListsAll r call answer.1 := by
  obtain ⟨id, answered⟩ := choice
  cases call with
  | query =>
      obtain rfl := Option.some.inj h
      intro webhooks hwebhooks w hw
      cases answered with
      | false => cases hwebhooks
      | true => exact (mem_of_validated hwebhooks w).mpr (by simpa using hw)
  | create url subscriptions => trivial
  | delete webhookId => trivial

section
variable {ι : Type} (url : ι → String)

/-- Complete and for a URL that some process registers. -/
def Kept (r : Registry) (w : ProviderWebhook) : Prop :=
  w ∈ r.held ∧ isComplete w = true ∧ ∃ i, w.url = url i

/-- No webhook is forgotten, and the complete ones of the processes stay. -/
structure Keeps (r r' : Registry) : Prop where
  issued : ∀ w ∈ r.issued, w ∈ r'.issued
  kept : ∀ w, Kept url r w → w ∈ r'.held

/-- Others may change whatever is not a complete webhook of the processes. -/
def system : System ι WebhookCall WebhookCall.Answer Failure WebhookReport Registry where
  admits _ _ i p := Admitted (url i) p
  exec _ r _ call answer r' := Performs r call answer r'
  drift _ r r' := Keeps url r r'
  dies _ r _ r' := r' = r

/-- What may be written for a URL: a complete webhook is created, an incomplete one of the
URL is deleted. -/
def Justified (url : String) (r : Registry) : WebhookCall → Prop
  | .query => True
  | .create target subscriptions =>
      target = url ∧ sameSet subscriptions webhookSubscriptions = true
  | .delete webhookId => ∃ w ∈ r.issued, w.id = webhookId ∧ w.url = url ∧ isComplete w = false

abbrev protocol : Protocol ι WebhookCall WebhookCall.Answer Failure WebhookReport Registry where
  toSystem := system url
  inv l r := ∀ e ∈ l, Justified (url e.process) r e.op
  rely _ _ r _ r' := Keeps url r r'
  demand i call _ r := Justified (url i) r call

variable {url} {r r' r'' : Registry} {i : ι}

theorem Keeps.refl (r : Registry) : Keeps url r r := ⟨fun _ hw => hw, fun _ hw => hw.1⟩

theorem Keeps.trans (h : Keeps url r r') (h' : Keeps url r' r'') : Keeps url r r'' where
  issued w hw := h'.issued w (h.issued w hw)
  kept w hw := h'.kept w ⟨h.kept w hw, hw.2⟩

theorem Justified.mono {target : String} {call : WebhookCall} (h : Justified target r call)
    (hkeeps : Keeps url r r') : Justified target r' call := by
  cases call with
  | query => trivial
  | create _ _ => exact h
  | delete webhookId =>
      obtain ⟨w, hw, hrest⟩ := h
      exact ⟨w, hkeeps.issued w hw, hrest⟩

theorem Performs.keeps {call : WebhookCall} {answer : call.Answer}
    (h : Performs r call answer r') (hjustified : Justified (url i) r call) : Keeps url r r' := by
  cases call with
  | query =>
      obtain ⟨rfl, -⟩ := h
      exact .refl _
  | create target subscriptions =>
      cases h with
      | refused => exact .refl _
      | created hheld hissued _ _ =>
          exact ⟨fun w hw => (hissued w).mpr (.inl hw), fun w hw => (hheld w).mpr (.inl hw.1)⟩
  | delete webhookId =>
      cases h with
      | refused => exact .refl _
      | deleted hheld hissued =>
          refine ⟨fun w hw => (hissued w).mpr hw, fun w hw => (hheld w).mpr ⟨hw.1, fun hid => ?_⟩⟩
          obtain ⟨v, hv, hvid, -, hincomplete⟩ := hjustified
          obtain rfl := r.eq_of_id (r.held_issued w hw.1) hv (hid.trans hvid.symm)
          exact Bool.noConfusion (hw.2.1.symm.trans hincomplete)

theorem sound : (protocol url).Sound where
  rely_refl _ _ _ := .refl _
  rely_trans _ _ _ _ _ _ _ h h' := h.trans h'
  drift_keeps _ _ _ hinv hdrift := ⟨fun e he => (hinv e he).mono hdrift, fun _ => hdrift⟩
  dies_keeps _ _ _ _ hinv hdies := by
    obtain rfl := hdies
    exact ⟨hinv, fun _ _ => .refl _⟩

/-! ### The rules -/

/-- A call that is justified, with what its answer says of the registry. -/
theorem triple {fact : Registry → Prop} {call : WebhookCall} {result : call.Answer → Registry → Prop}
    (hstable : (protocol url).Stable i fun _ => fact)
    (hjustified : ∀ r, fact r → Justified (url i) r call)
    (hresult : ∀ r answer r', fact r → Performs r call answer r' → Keeps url r r' →
      result answer r') :
    (protocol url).Triple i (fun _ => fact) call fun answer _ => result answer where
  stable := hstable
  demand _ r hfact _ := hjustified r hfact
  keeps l r answer r' hfact hinv hexec := by
    have hkeeps : Keeps url r r' := Performs.keeps hexec (hjustified r hfact)
    refine ⟨fun e he => ?_, fun _ _ => hkeeps⟩
    rcases List.mem_cons.mp he with rfl | hmem
    · exact (hjustified r hfact).mono hkeeps
    · exact (hinv e hmem).mono hkeeps
  result l r answer r' hfact _ hexec :=
    hresult r answer r' hfact hexec (Performs.keeps hexec (hjustified r hfact))

/-- A complete webhook of the process that the provider holds. -/
def Live (url : ι → String) (i : ι) (w : ProviderWebhook) (r : Registry) : Prop :=
  w ∈ r.held ∧ isComplete w = true ∧ w.url = url i

/-- Webhooks that the process may delete. -/
def Stale (url : ι → String) (i : ι) (ws : List ProviderWebhook) (r : Registry) : Prop :=
  ∀ w ∈ ws, w ∈ r.issued ∧ w.url = url i ∧ isComplete w = false

theorem Live.stable (w : ProviderWebhook) :
    (protocol url).Stable i fun _ => Live url i w :=
  fun _ _ _ _ h hkeeps _ => ⟨hkeeps.kept w ⟨h.1, h.2.1, i, h.2.2⟩, h.2⟩

theorem Stale.stable (ws : List ProviderWebhook) :
    (protocol url).Stable i fun _ => Stale url i ws :=
  fun _ _ _ _ h hkeeps _ w hw => ⟨hkeeps.issued w (h w hw).1, (h w hw).2⟩

theorem stable_true : (protocol url).Stable i fun _ _ => True := fun _ _ _ _ _ _ _ => trivial

/-- What a listing shows is held, and what is held was issued. -/
def rules (url : ι → String) (i : ι) : RegistrationRules (protocol url) i (url i) where
  live w _ := Live url i w
  stale ws _ := Stale url i ws
  live_stable := Live.stable
  stale_stable := Stale.stable
  query := by
    refine triple stable_true (fun _ _ => trivial) fun r items r' _ hperforms _ => ?_
    obtain ⟨rfl, hheld⟩ := hperforms
    rintro webhooks inspection hitems rfl
    have hlisted : ∀ w ∈ webhooks, w ∈ r'.held := fun w hw =>
      hheld w ((mem_of_validated hitems w).mp hw)
    refine ⟨fun w hw => ?_, fun hnone w hw => ?_⟩
    · obtain ⟨hmem, hcomplete⟩ := inspectMatching_active hw
      obtain ⟨hmem, hurl⟩ := List.mem_filter.mp hmem
      exact ⟨hlisted w hmem, hcomplete, by simpa using hurl⟩
    · obtain ⟨hstale, hincomplete⟩ := inspectMatching_none hnone
      rw [hstale] at hw
      obtain ⟨hmem, hurl⟩ := List.mem_filter.mp hw
      exact ⟨r'.held_issued w (hlisted w hmem), by simpa using hurl, hincomplete w hw⟩
  delete w ws := by
    refine triple (Stale.stable _) (fun r h => ?_) fun r answer r' h _ hkeeps _ v hv => ?_
    · obtain ⟨hissued, hurl, hincomplete⟩ := h w (by simp)
      exact ⟨w, hissued, rfl, hurl, hincomplete⟩
    · obtain ⟨hissued, hrest⟩ := h v (List.mem_cons_of_mem _ hv)
      exact ⟨hkeeps.issued v hissued, hrest⟩
  create client := triple (Stale.stable _) (fun _ _ => ⟨rfl, client.lists_subscriptions⟩)
    fun _ _ _ _ _ _ => trivial

theorem kept : (protocol url).Kept Unconditionally fun i =>
    Returns fun report _ => Live url i report.webhook where
  toSound := sound
  begins _ _ i _ _ _ hadmits := (rules url i).admitted_ensures sound hadmits

/-! ### Over every interleaving -/

/-- Only incomplete webhooks of its own URL were deleted by a process, only complete ones
created, and what was returned is held. -/
structure Registered (url : ι → String)
    (c : Config ι WebhookCall WebhookCall.Answer Failure WebhookReport Registry) : Prop where
  deleted : ∀ e ∈ c.log, ∀ webhookId, e.op = .delete webhookId → ∃ w ∈ c.state.issued,
    w.id = webhookId ∧ w.url = url e.process ∧ isComplete w = false
  created : ∀ e ∈ c.log, ∀ target subscriptions, e.op = .create target subscriptions →
    target = url e.process ∧ sameSet subscriptions webhookSubscriptions = true
  returned : ∀ i report, c.procs i = some (.done report) →
    report.webhook ∈ c.state.held ∧ isComplete report.webhook = true ∧
      report.webhook.url = url i

theorem registered_complete [DecidableEq ι] {r : Registry}
    {c : Config ι WebhookCall WebhookCall.Answer Failure WebhookReport Registry}
    (h : Runs (system url) (.initial r) c) : Registered url c := by
  obtain ⟨hinv, hstands⟩ := kept.ensured (by simp) h fun _ => trivial
  refine ⟨fun e he webhookId hop => ?_, fun e he target subscriptions hop => ?_,
    fun i report hi => ?_⟩
  · have hjustified : Justified (url e.process) c.state e.op := hinv e he
    rw [hop] at hjustified
    exact hjustified
  · have hjustified : Justified (url e.process) c.state e.op := hinv e he
    rw [hop] at hjustified
    exact hjustified
  · have hi' := hstands i
    rw [hi] at hi'
    exact hi' _ _ (.refl _) hinv

/-- What the process has returned. -/
def reported (c : Config ι WebhookCall WebhookCall.Answer Failure WebhookReport Registry)
    (i : ι) : Option WebhookReport :=
  match c.procs i with
  | some (.done report) => some report
  | _ => none

/-- A complete webhook that some process registers outlives every run. -/
theorem complete_stays [DecidableEq ι] {r : Registry}
    {c d : Config ι WebhookCall WebhookCall.Answer Failure WebhookReport Registry}
    (h : Runs (system url) (.initial r) c) (h' : Runs (system url) c d) :
    Keeps url c.state d.state :=
  kept.rel (by simp) (Keeps url) .refl (fun _ _ _ h h' => h.trans h')
    (fun _ _ _ _ _ _ _ hdemand hexec => Performs.keeps hexec hdemand)
    (fun _ _ _ _ hdrift => hdrift) (fun _ _ _ _ _ hdies => hdies ▸ .refl _) h h'

/-! Two processes find the same incomplete webhook. The answer to the second deletion is
lost; the first process creates the complete one and sees it. -/

def client : WebhookClient := ⟨true, true, ["transfer", "invoice"], by decide⟩

def incomplete : Registry := ⟨[⟨"old", "u", ["invoice"]⟩], [⟨"old", "u", ["invoice"]⟩],
  fun _ hw => hw, by decide⟩

def twoRegistrations : List (Move Bool WebhookCall WebhookCall.Answer Failure WebhookReport
    Registry (String × Bool)) :=
  [.begin false (setupWebhook client "u"), .begin true (cleanupWebhooks client "u"),
    .call false ("", true), .call true ("", true), .call false ("", true), .call true ("", true),
    .call false ("", true), .call true ("", false), .call false ("new", true),
    .call false ("", true)]

theorem registered_complete_twoRegistrations : ∃ c, Registered (fun _ : Bool => "u") c ∧
    reported c false = some ⟨⟨"new", "u", ["transfer", "invoice"]⟩, ["old"]⟩ := by
  have hends : (playAll respond (.initial incomplete) twoRegistrations).map (reported · false) =
      some (some ⟨⟨"new", "u", ["transfer", "invoice"]⟩, ["old"]⟩) := by
    decide +kernel
  obtain ⟨c, hplay, hc⟩ := Option.map_eq_some_iff.mp hends
  refine ⟨c, registered_complete (playAll_runs (fun _ _ _ _ _ _ => respond_performs) ?_ hplay), hc⟩
  intro m hm
  simp only [twoRegistrations, List.mem_cons, List.not_mem_nil, or_false] at hm
  rcases hm with rfl | rfl | rfl | rfl | rfl | rfl | rfl | rfl | rfl | rfl
  · exact fun _ _ _ => .setup client
  · exact fun _ _ _ => .cleanup client
  all_goals exact trivial

end

/-! ### One after the other

Where the registrations of a URL do not overlap, a listing shows all webhooks and nobody
else touches those of the URL, a creation finds no other webhook of the URL, and once there
is a complete one nothing is written any more. -/

section
variable (url : String)

/-- The webhooks of the URL are the same. -/
def SameAt (r r' : Registry) : Prop := ∀ w, w.url = url → (w ∈ r'.held ↔ w ∈ r.held)

/-- One process. It may be killed between two calls. -/
def alone : System Unit WebhookCall WebhookCall.Answer Failure WebhookReport Registry where
  admits _ _ _ p := Admitted url p
  exec _ r _ call answer r' := Performs r call answer r' ∧ ListsAll r call answer
  drift _ r r' := SameAt url r r'
  dies _ r _ r' := r' = r

def Complete (r : Registry) (w : ProviderWebhook) : Prop :=
  w ∈ r.held ∧ isComplete w = true ∧ w.url = url

/-- What is so when something is written. -/
def Needed (r : Registry) : WebhookCall → Prop
  | .query => True
  | .create target _ => target = url ∧ ∀ w ∈ r.held, w.url ≠ url
  | .delete _ => ∀ w, ¬ Complete url r w

abbrev aloneProtocol :
    Protocol Unit WebhookCall WebhookCall.Answer Failure WebhookReport Registry where
  toSystem := alone url
  inv _ r := ∀ w v, Complete url r w → Complete url r v → w = v
  rely _ _ r _ r' := SameAt url r r'
  demand _ call _ r := Needed url r call

variable {url} {r r' r'' : Registry}

theorem SameAt.refl (r : Registry) : SameAt url r r := fun _ _ => Iff.rfl

theorem SameAt.trans (h : SameAt url r r') (h' : SameAt url r' r'') : SameAt url r r'' :=
  fun w hw => (h' w hw).trans (h w hw)

theorem SameAt.complete (h : SameAt url r r') (w : ProviderWebhook) :
    Complete url r' w ↔ Complete url r w :=
  and_congr_left fun hw => h w hw.2

/-- A needed write leaves at most one complete webhook. -/
theorem Performs.complete_unique {call : WebhookCall} {answer : call.Answer}
    (h : Performs r call answer r') (hneeded : Needed url r call)
    (hunique : ∀ w v, Complete url r w → Complete url r v → w = v) :
    ∀ w v, Complete url r' w → Complete url r' v → w = v := by
  cases call with
  | query =>
      obtain ⟨rfl, -⟩ := h
      exact hunique
  | create target subscriptions =>
      cases h with
      | refused => exact hunique
      | created hheld _ _ _ =>
          intro w v hw hv
          have hnew : ∀ w, Complete url r' w → w = _ := fun w hw =>
            ((hheld w).mp hw.1).resolve_left fun hold => hneeded.2 w hold hw.2.2
          exact (hnew w hw).trans (hnew v hv).symm
  | delete webhookId =>
      cases h with
      | refused => exact hunique
      | deleted hheld _ =>
          intro w v hw hv
          exact hunique w v ⟨((hheld w).mp hw.1).1, hw.2⟩ ⟨((hheld v).mp hv.1).1, hv.2⟩

theorem aloneSound : (aloneProtocol url).Sound where
  rely_refl _ _ _ := .refl _
  rely_trans _ _ _ _ _ _ _ h h' := h.trans h'
  drift_keeps _ _ _ hinv hdrift :=
    ⟨fun w v hw hv => hinv w v ((SameAt.complete hdrift w).mp hw)
      ((SameAt.complete hdrift v).mp hv), fun _ => hdrift⟩
  dies_keeps _ _ _ _ hinv hdies := by
    obtain rfl := hdies
    exact ⟨hinv, fun _ _ => .refl _⟩

theorem aloneTriple {fact : Registry → Prop} {call : WebhookCall}
    {result : call.Answer → Registry → Prop}
    (hstable : (aloneProtocol url).Stable () fun _ => fact)
    (hneeded : ∀ r, fact r → Needed url r call)
    (hresult : ∀ r answer r', fact r → Performs r call answer r' → ListsAll r call answer →
      result answer r') :
    (aloneProtocol url).Triple () (fun _ => fact) call fun answer _ => result answer where
  stable := hstable
  demand _ r hfact _ := hneeded r hfact
  keeps _ r _ _ hfact hinv hexec :=
    ⟨hexec.1.complete_unique (hneeded r hfact) hinv, fun _ hj => absurd rfl hj⟩
  result _ r answer r' hfact _ hexec := hresult r answer r' hfact hexec.1 hexec.2

/-- All webhooks of the URL are among these, and none of these is complete. -/
structure Pending (url : String) (ws : List ProviderWebhook) (r : Registry) : Prop where
  all : ∀ w ∈ r.held, w.url = url → w ∈ ws
  incomplete : ∀ w ∈ ws, isComplete w = false

theorem Pending.stable (ws : List ProviderWebhook) :
    (aloneProtocol url).Stable () fun _ => Pending url ws :=
  fun _ _ _ _ h hsame _ => ⟨fun w hw hurl => h.all w ((hsame w hurl).mp hw) hurl, h.incomplete⟩

theorem Complete.stable (w : ProviderWebhook) :
    (aloneProtocol url).Stable () fun _ r => Complete url r w :=
  fun _ _ _ _ h hsame _ => (SameAt.complete hsame w).mpr h

/-- A listing decides between the two. -/
def aloneRules (url : String) : RegistrationRules (aloneProtocol url) () url where
  live w _ r := Complete url r w
  stale ws _ := Pending url ws
  live_stable := Complete.stable
  stale_stable := Pending.stable
  query := by
    refine aloneTriple (fun _ _ _ _ _ _ _ => trivial) (fun _ _ => trivial)
      fun r items r' _ hperforms hall => ?_
    obtain ⟨rfl, hheld⟩ := hperforms
    rintro webhooks inspection hitems rfl
    refine ⟨fun w hw => ?_, fun hnone => ?_⟩
    · obtain ⟨hmem, hcomplete⟩ := inspectMatching_active hw
      obtain ⟨hmem, hurl⟩ := List.mem_filter.mp hmem
      exact ⟨hheld w ((mem_of_validated hitems w).mp hmem), hcomplete, by simpa using hurl⟩
    · obtain ⟨hstale, hincomplete⟩ := inspectMatching_none hnone
      rw [hstale]
      refine ⟨fun w hw hurl => List.mem_filter.mpr ⟨hall webhooks hitems w hw, ?_⟩, hincomplete⟩
      simpa using hurl
  delete w ws := by
    refine aloneTriple (Pending.stable _) (fun r h v hv => ?_) fun r answer r' h hperforms _ => ?_
    · exact Bool.noConfusion (hv.2.1.symm.trans (h.incomplete v (h.all v hv.1 hv.2.2)))
    · rintro rfl
      cases hperforms with
      | deleted hheld _ =>
          refine ⟨fun v hv hurl => ?_, fun v hv => h.incomplete v (List.mem_cons_of_mem _ hv)⟩
          obtain ⟨hold, hid⟩ := (hheld v).mp hv
          refine (List.mem_cons.mp (h.all v hold hurl)).resolve_left ?_
          rintro rfl
          exact hid rfl
  create client := by
    refine aloneTriple (Pending.stable _) (fun r h => ⟨rfl, fun w hw hurl => ?_⟩)
      fun _ _ _ _ _ _ => trivial
    exact absurd (h.all w hw hurl) (by simp)

theorem aloneKept : (aloneProtocol url).Kept Unconditionally fun _ =>
    Returns fun report _ r => Complete url r report.webhook where
  toSound := aloneSound
  begins _ _ _ _ _ _ hadmits := (aloneRules url).admitted_ensures aloneSound hadmits

/-- At most one complete webhook, which every registration that returns has returned, and
which ends all writing. -/
structure RegisteredOnce (url : String)
    (c d : Config Unit WebhookCall WebhookCall.Answer Failure WebhookReport Registry) : Prop where
  unique : ∀ w v, Complete url d.state w → Complete url d.state v → w = v
  returned : ∀ report, d.procs () = some (.done report) → Complete url d.state report.webhook
  settled : ∀ w, Complete url c.state w → Complete url d.state w ∧
    ∃ later, d.log = later ++ c.log ∧ ∀ e ∈ later, e.op = .query

/-- Where a complete webhook is held, a step only lists, and the webhooks of the URL stay. -/
def Settles (url : String) (l : CallLog Unit) (r : Registry) (l' : CallLog Unit)
    (r' : Registry) : Prop :=
  ∀ w, Complete url r w → Complete url r' w ∧
    ∃ later, l' = later ++ l ∧ ∀ e ∈ later, e.op = .query

theorem Settles.trans {l l' l'' : CallLog Unit} (h : Settles url l r l' r')
    (h' : Settles url l' r' l'' r'') : Settles url l r l'' r'' := by
  intro w hw
  obtain ⟨hw', later, rfl, hlater⟩ := h w hw
  obtain ⟨hw'', later', rfl, hlater'⟩ := h' w hw'
  refine ⟨hw'', later' ++ later, by simp, fun e he => ?_⟩
  rcases List.mem_append.mp he with he | he
  · exact hlater' e he
  · exact hlater e he

theorem Settles.call {l : CallLog Unit} {call : WebhookCall} {answer : call.Answer}
    (hneeded : Needed url r call) (h : Performs r call answer r') :
    Settles url l r (⟨(), call, answer⟩ :: l) r' := by
  intro w hw
  cases call with
  | query =>
      obtain ⟨rfl, -⟩ := h
      exact ⟨hw, [⟨(), .query, answer⟩], rfl, by simp⟩
  | create _ _ => exact absurd hw.2.2 (hneeded.2 w hw.1)
  | delete _ => exact absurd hw (hneeded w)

theorem registered_once {r : Registry}
    {c d : Config Unit WebhookCall WebhookCall.Answer Failure WebhookReport Registry}
    (hr : ∀ w v, Complete url r w → Complete url r v → w = v)
    (h : Runs (alone url) (.initial r) c) (h' : Runs (alone url) c d) :
    RegisteredOnce url c d := by
  obtain ⟨hinv, hstands⟩ := aloneKept.ensured hr (h.trans h') fun _ => trivial
  refine ⟨hinv, fun report hreport => ?_, ?_⟩
  · have hdone := hstands ()
    rw [hreport] at hdone
    exact hdone _ _ (.refl _) hinv
  · have hnil : ∀ {l : CallLog Unit}, ∃ later, l = later ++ l ∧ ∀ e ∈ later, e.op = .query :=
      ⟨[], rfl, by simp⟩
    refine aloneKept.rel_log hr (Settles url) (fun _ _ _ hw => ⟨hw, hnil⟩)
      (fun _ _ _ _ _ _ h h' => h.trans h')
      (fun _ _ _ _ _ _ _ hdemand hexec => .call hdemand hexec.1)
      (fun _ _ _ _ hdrift w hw => ⟨(SameAt.complete hdrift w).mpr hw, hnil⟩)
      (fun _ _ _ _ _ hdies w hw => ⟨hdies ▸ hw, hnil⟩) h h'

/-! The creation takes effect and its answer is lost; the next registration finds the
webhook. -/

def lostAnswer : List (Move Unit WebhookCall WebhookCall.Answer Failure WebhookReport
    Registry (String × Bool)) :=
  [.begin () (setupWebhook client "u"), .call () ("", true), .call () ("", true),
    .call () ("", true), .call () ("new", false)]

def nextRegistration : List (Move Unit WebhookCall WebhookCall.Answer Failure WebhookReport
    Registry (String × Bool)) :=
  [.begin () (setupWebhook client "u"), .call () ("", true), .call () ("", true)]

theorem registered_once_lostAnswer : ∃ c d, RegisteredOnce "u" c d ∧
    (∃ w, Complete "u" c.state w) ∧ reported d () ≠ none := by
  have hends : (playAll respond (.initial incomplete) lostAnswer).bind (fun c =>
      (playAll respond c nextRegistration).map fun d =>
        (c.state.held, reported d ())) =
      some ([⟨"new", "u", ["transfer", "invoice"]⟩],
        some ⟨⟨"new", "u", ["transfer", "invoice"]⟩, []⟩) := by
    decide +kernel
  obtain ⟨c, hplay, hc⟩ := Option.bind_eq_some_iff.mp hends
  obtain ⟨d, hplay', hd⟩ := Option.map_eq_some_iff.mp hc
  obtain ⟨hheld, hreported⟩ := Prod.mk.inj hd
  have hexec : ∀ (l : CallLog Unit) r i call choice answer,
      respond l r i call choice = some answer → (alone "u").exec l r i call answer.1 answer.2 :=
    fun _ _ _ _ _ _ h => ⟨respond_performs h, respond_listsAll h⟩
  refine ⟨c, d, registered_once ?_ (playAll_runs hexec ?_ hplay) (playAll_runs hexec ?_ hplay'),
    ⟨_, hheld ▸ List.mem_singleton_self _, by decide, rfl⟩, by rw [hreported]; simp⟩
  · intro w v hw
    obtain rfl := List.mem_singleton.mp hw.1
    exact absurd hw.2.1 (by decide)
  · intro m hm
    simp only [lostAnswer, List.mem_cons, List.not_mem_nil, or_false] at hm
    rcases hm with rfl | rfl | rfl | rfl | rfl
    · exact fun _ _ _ => .setup client
    all_goals exact trivial
  · intro m hm
    simp only [nextRegistration, List.mem_cons, List.not_mem_nil, or_false] at hm
    rcases hm with rfl | rfl | rfl
    · exact fun _ _ _ => .setup client
    all_goals exact trivial

end

end StarkbankTrial.WebhookRuns
