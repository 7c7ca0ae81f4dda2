import StarkbankTrial.OpenWork

/-!
# Writes that succeed

What a tick or a reconcile pass writes about a draft keeps every constraint, as long as the
generators give different drafts different ids and invoices are reported for their own tags.
So no exception leaves a tick of which the provider answers every call.
-/
namespace StarkbankTrial.AnsweredDrafts
open Domain InteractivePrograms RelationalTables Transaction DatabaseSchema
open DatabaseSchema.Table
open InvoiceRecording BatchClaims StoreOperations InvoiceChanges BatchChanges ExternalCalls
open Services CreatedDrafts InvoiceOnce TrialInvariants UndisturbedServices
open Program hiding atomically

/-! ### The names of drafts -/

/-- The last separator of a name is the last one. -/
theorem append_cons_inj {α : Type} {c : α} {xs ys zs ws : List α} (hz : c ∉ zs) (hw : c ∉ ws)
    (h : xs ++ c :: zs = ys ++ c :: ws) : xs = ys ∧ zs = ws := by
  have hshift : ∀ {us vs us' : List α}, c ∉ us → c :: us = us' ++ c :: vs → us' = [] := by
    intro us vs us' hus heq
    cases us' with
    | nil => rfl
    | cons x us' =>
        obtain ⟨-, rfl⟩ := List.cons.inj heq
        simp at hus
  rcases List.append_eq_append_iff.mp h with ⟨us, rfl, heq⟩ | ⟨us, rfl, heq⟩
  · obtain rfl := hshift hz heq
    exact ⟨by simp, (List.cons.inj heq).2⟩
  · obtain rfl := hshift hw heq
    exact ⟨by simp, (List.cons.inj heq).2.symm⟩

theorem toList_toString (k : ℕ) : (toString k).toList = Nat.toDigits 10 k := by
  rw [Nat.toString_eq_ofList_toDigits, String.toList_ofList]

theorem colon_toDigits (k : ℕ) : ':' ∉ Nat.toDigits 10 k := by
  intro hmem
  have hdigit := Nat.isDigit_of_mem_toDigits (by decide) (by decide) hmem
  simp [Char.isDigit] at hdigit

theorem draftName_inj {a b : String} {j k : ℕ}
    (h : a ++ ":draft:" ++ toString j = b ++ ":draft:" ++ toString k) : a = b ∧ j = k := by
  have hchars : (a.toList ++ ":draft".toList) ++ ':' :: Nat.toDigits 10 j =
      (b.toList ++ ":draft".toList) ++ ':' :: Nat.toDigits 10 k := by
    have hlist := congrArg String.toList h
    simpa [toList_toString] using hlist
  obtain ⟨hname, hdigits⟩ := append_cons_inj (colon_toDigits j) (colon_toDigits k) hchars
  refine ⟨String.toList_inj.mp (List.append_cancel_right hname), ?_⟩
  have hvalue := congrArg (fun digits => Nat.ofDigitChars 10 digits 0) hdigits
  simpa [Nat.ofDigitChars_ten_toDigits] using hvalue

/-! ### The tags of drafts -/

/-- A draft has the tag that its id gives it. -/
def Tagged (db : Database Row) : Prop :=
  ∀ d ∈ db invoiceDrafts, d.tag = "trial-draft:" ++ d.id

section
variable {gen : Generators} {cfg : TrialSettings} {db db' : Database Row}

theorem Tagged.reordered (h : Tagged db) (hdb : Reordered db db') : Tagged db' :=
  fun d hd => h d (hdb.mem.mp hd)

theorem Tagged.of_eq (h : Tagged db) (hdrafts : db' invoiceDrafts = db invoiceDrafts) : Tagged db' :=
  fun d hd => h d (hdrafts ▸ hd)

theorem Tagged.map (h : Tagged db) {f : InvoiceDraftRow → InvoiceDraftRow}
    (hdrafts : db' invoiceDrafts = (db invoiceDrafts).map f)
    (hf : ∀ d, SameDraft d (f d)) : Tagged db' := by
  intro d' hd'
  rw [hdrafts] at hd'
  obtain ⟨d, hd, rfl⟩ := List.mem_map.mp hd'
  rw [(hf d).tag, (hf d).id]
  exact h d hd

theorem Tagged.assigned (h : Tagged db) {condition : InvoiceDraftRow → Bool}
    {assign : InvoiceDraftRow → InvoiceDraftRow}
    (hdrafts : db' invoiceDrafts = assignWhere condition assign (db invoiceDrafts))
    (hassign : ∀ d, SameDraft d (assign d)) : Tagged db' :=
  h.map hdrafts fun d => by
    split_ifs
    · exact hassign d
    · exact .refl d

/-- The invoice store keeps the tags, where it saves the drafts that were built. -/
theorem invoices_tagged (gen : Generators) (h : Tagged db) {op : InvoiceStoreOp}
    (hsaves : ∀ batchId ds, op = .save batchId ds →
      ∃ batch time, ds = buildInvoiceDrafts gen batch time) :
    Tagged ((StoreOp.invoices op).apply db).2 := by
  have hchanged := invoices_changes op db
  unfold InvoicesChangedIn at hchanged
  generalize ((StoreOp.invoices op).apply db).2 = db' at hchanged ⊢
  generalize hdrafts : db' invoiceDrafts = drafts' at hchanged
  generalize db' ownedInvoices = owned' at hchanged
  cases hchanged with
  | @saved batchId ds hop =>
      obtain ⟨batch, time, rfl⟩ := hsaves batchId ds hop
      intro d hd
      rw [hdrafts] at hd
      rcases List.mem_append.mp hd with hd | hd
      · exact h d hd
      · obtain ⟨draft, hdraft, rfl⟩ := List.mem_map.mp hd
        obtain ⟨k, -, rfl⟩ := List.mem_map.mp (List.mem_filter.mp hdraft).1
        rfl
  | transitioned => exact h.assigned hdrafts fun d => ⟨rfl, rfl, rfl⟩
  | retried => exact h.assigned hdrafts fun d => ⟨rfl, rfl, rfl⟩
  | missed => exact h.assigned hdrafts fun d => ⟨rfl, rfl, rfl⟩
  | _ => exact h.of_eq hdrafts

theorem recorded_tagged (h : Tagged db) {r : EventRecord}
    (hrecorded : Recorded r db db') : Tagged db' := by
  cases hrecorded with
  | untouched hdrafts => exact h.of_eq hdrafts
  | @owned event o _ _ _ hdrafts =>
      unfold createdDrafts at hdrafts
      cases hdraft : o.draftId with
      | none => exact h.of_eq (by simpa [hdraft] using hdrafts)
      | some draftId =>
          simp only [hdraft] at hdrafts
          exact h.assigned hdrafts fun d => ⟨rfl, rfl, rfl⟩

/-! ### A save -/

/-- Rows that keep the constraints are inserted. -/
theorem run_insertRows {A : Type} {t : Table} {rows : List (Row t)} {f : Unit → Txn A}
    (h : metadata.Valid t (db t ++ rows))
    (hrefs : ∀ row ∈ rows, ∀ ref ∈ metadata.refs t row, ∃ r ∈ db ref.1, metadata.key ref.1 r = ref.2) :
    (DatabaseSchema.insertRows t rows >>= f).run (respond metadata) db =
      (f ()).run (respond metadata) (db.set t (db t ++ rows)) := by
  simp only [DatabaseSchema.insertRows, Transaction.insert_bind, Program.call_bind, run_call, respond,
    Schema.insertRows_ok h hrefs, Program.done_bind]

/-- A draft without an invoice that differs in id, tag and place. -/
theorem unlike_draft {a b : InvoiceDraftRow} (hid : a.id ≠ b.id) (htag : a.tag ≠ b.tag)
    (hplace : a.batchId = b.batchId → a.ordinal ≠ b.ordinal) (hnone : b.providerInvoiceId = none) :
    metadata.clash invoiceDrafts a b = false := by
  have hinvoice : sameNonNull a.providerInvoiceId b.providerInvoiceId = false := by
    rw [Bool.eq_false_iff, hnone]
    simp
  simp only [metadata, uniqueConflict, hinvoice, Bool.or_false, Bool.or_eq_false_iff,
    Bool.and_eq_false_iff, beq_eq_false_iff_ne]
  refine ⟨⟨hid, htag⟩, ?_⟩
  by_cases hbatch : a.batchId = b.batchId
  · exact .inr (hplace hbatch)
  · exact .inl hbatch

theorem tag_ne {a b : String} (h : a ≠ b) : "trial-draft:" ++ a ≠ "trial-draft:" ++ b :=
  fun heq => h ((String.append_right_inj _).mp heq)

/-- The drafts of a batch without drafts can be stored beside all others. -/
theorem built_valid (h : Fitting gen db) (htagged : Tagged db)
    (huuid : Function.Injective gen.uuid5) (hamount : ∀ id k, 0 < (gen.payer id k).amount)
    {batch : InvoiceBatch} (hfree : ∀ d ∈ db invoiceDrafts, d.batchId ≠ batch.id) (time : ℤ) :
    metadata.Valid invoiceDrafts
      (db invoiceDrafts ++ (buildInvoiceDrafts gen batch time).map draftRow) := by
  have hids : ∀ {b : BatchId} {j k : ℕ}, (b = batch.id → j ≠ k) →
      gen.uuid5 (b ++ ":draft:" ++ toString j) ≠ gen.uuid5 (batch.id ++ ":draft:" ++ toString k) := by
    intro b j k hne heq
    obtain ⟨hbatch, hordinal⟩ := draftName_inj (huuid heq)
    exact hne hbatch hordinal
  refine ⟨fun d hd => ?_, List.pairwise_append.mpr ⟨(h.consistent invoiceDrafts).2, ?_, ?_⟩⟩
  · rcases List.mem_append.mp hd with hd | hd
    · exact (h.consistent invoiceDrafts).1 d hd
    · obtain ⟨draft, hdraft, rfl⟩ := List.mem_map.mp hd
      obtain ⟨k, -, rfl⟩ := List.mem_map.mp hdraft
      exact decide_eq_true (hamount batch.id k)
  · unfold buildInvoiceDrafts
    rw [List.map_map]
    refine List.pairwise_map.mpr (List.nodup_range.imp fun {j k} hne => ?_)
    have hid := hids (b := batch.id) (j := j) (k := k) fun _ => hne
    exact unlike_draft hid (tag_ne hid) (fun _ heq => hne (Int.ofNat.inj heq)) rfl
  · intro d hd d' hd'
    obtain ⟨k, -, hbatch, -, hid', htag', -, hnone⟩ := mem_build hd'
    obtain ⟨b, hb, hbid, j, -, -, hid⟩ := h.placed.placed d hd
    have hne : d.id ≠ d'.id := by
      rw [hid, hid']
      exact hids fun heq => absurd (hbid.symm.trans heq) (hfree d hd)
    refine unlike_draft hne ?_ (fun heq => absurd (heq.trans hbatch) (hfree d hd)) hnone
    rw [htagged d hd, htag']
    exact tag_ne hne

/-- Their owned rows too. -/
theorem owners_valid (h : Fitting gen db) (hdrafted : ∀ o ∈ db ownedInvoices, o.draftId ≠ none)
    {new : List InvoiceDraftRow} (hnew : metadata.Valid invoiceDrafts (db invoiceDrafts ++ new)) :
    metadata.Valid ownedInvoices (db ownedInvoices ++ new.map trialOwner) := by
  have hunlike : ∀ a b : InvoiceDraftRow, metadata.clash invoiceDrafts a b = false →
      ∀ o : OwnedInvoiceRow, o.tag = a.tag → o.draftId = some a.id →
        metadata.clash ownedInvoices o (trialOwner b) = false := by
    intro a b hclash o htag hdraft
    simp only [metadata, uniqueConflict, Bool.or_eq_false_iff, beq_eq_false_iff_ne] at hclash ⊢
    refine ⟨⟨htag ▸ hclash.1.1.2, ?_⟩, ?_⟩
    · rw [Bool.eq_false_iff]
      simp [trialOwner]
    · rw [Bool.eq_false_iff, hdraft]
      intro hshared
      obtain ⟨id, hid, hid'⟩ := sameNonNull_iff.mp hshared
      exact hclash.1.1.1 ((Option.some.inj hid).trans (Option.some.inj hid').symm)
  obtain ⟨-, hpairwise, hcross⟩ := List.pairwise_append.mp hnew.2
  refine ⟨fun o ho => ?_, List.pairwise_append.mpr ⟨(h.consistent ownedInvoices).2, ?_, ?_⟩⟩
  · rcases List.mem_append.mp ho with ho | ho
    · exact (h.consistent ownedInvoices).1 o ho
    · obtain ⟨d, -, rfl⟩ := List.mem_map.mp ho
      rfl
  · exact List.pairwise_map.mpr (hpairwise.imp fun {a b} hclash => hunlike a b hclash _ rfl rfl)
  · intro o ho o' ho'
    obtain ⟨d', hd', rfl⟩ := List.mem_map.mp ho'
    obtain ⟨id, hdraft⟩ := Option.ne_none_iff_exists'.mp (hdrafted o ho)
    obtain ⟨d, hd, rfl, htag⟩ := h.paired.stored o ho id hdraft
    exact hunlike d d' (hcross d hd d' hd') o htag.symm hdraft

/-- The drafts of a claimed batch are saved. -/
theorem save_ok (h : Fitting gen db) (htagged : Tagged db)
    (hdrafted : ∀ o ∈ db ownedInvoices, o.draftId ≠ none)
    (huuid : Function.Injective gen.uuid5) (hamount : ∀ id k, 0 < (gen.payer id k).amount)
    {batch : InvoiceBatch} (hclaimed : Claimed batch db) (time : ℤ) :
    ∃ db', (StoreOp.invoices (.save batch.id (buildInvoiceDrafts gen batch time))).apply db =
        (.ok (), db') ∧
      db' invoiceDrafts = db invoiceDrafts ++
        newDrafts batch.id (buildInvoiceDrafts gen batch time) (db invoiceDrafts) := by
  obtain ⟨b, hb, hid, htarget, -⟩ := hclaimed
  have hcases := newDrafts_cases h.placed hb hid htarget time
  have hrun : ∃ db', (save batch.id (buildInvoiceDrafts gen batch time)).run (respond metadata) db =
      (.ok (), db') ∧ db' invoiceDrafts = db invoiceDrafts ++
        newDrafts batch.id (buildInvoiceDrafts gen batch time) (db invoiceDrafts) := by
    unfold save
    simp only [select_bind, run_call, respond_select]
    change ∃ db', (if (newDrafts batch.id (buildInvoiceDrafts gen batch time)
      (db invoiceDrafts)).isEmpty then pure () else (DatabaseSchema.insertRows invoiceDrafts
        (newDrafts batch.id (buildInvoiceDrafts gen batch time) (db invoiceDrafts)) >>= fun _ =>
          DatabaseSchema.insertRows ownedInvoices ((newDrafts batch.id
            (buildInvoiceDrafts gen batch time) (db invoiceDrafts)).map trialOwner)) :
              Txn Unit).run (respond metadata) db = _ ∧ _
    generalize newDrafts batch.id (buildInvoiceDrafts gen batch time) (db invoiceDrafts) = new
      at hcases ⊢
    split_ifs with hempty
    · exact ⟨db, rfl, by simp [List.isEmpty_iff.mp hempty]⟩
    · rcases hcases with rfl | ⟨hfree, rfl⟩
      · exact absurd rfl hempty
      · have hvalid := built_valid h htagged huuid hamount hfree time
        rw [run_insertRows hvalid fun row hrow ref href => ?_]
        · rw [← bind_pure (DatabaseSchema.insertRows ownedInvoices _), run_insertRows]
          · exact ⟨_, rfl, by rw [set_owned_drafts, Database.set_self]⟩
          · rw [set_drafts_owned]
            exact owners_valid h hdrafted hvalid
          · intro o ho ref href
            obtain ⟨d, hd, rfl⟩ := List.mem_map.mp ho
            obtain rfl : ref = (invoiceDrafts, d.id) := by
              simpa [metadata, foreignKeys, trialOwner] using href
            refine ⟨d, ?_, rfl⟩
            rw [Database.set_self]
            exact List.mem_append.mpr (.inr hd)
        · obtain ⟨k, -, hbatch, -⟩ := mem_build hrow
          obtain rfl : ref = (invoiceBatches, row.batchId) := by
            simpa [metadata, foreignKeys] using href
          exact ⟨b, hb, hid.trans hbatch.symm⟩
  obtain ⟨db', hrun, hdrafts⟩ := hrun
  exact ⟨db', atomically_of_run hrun, hdrafts⟩

/-- After its save a batch has drafts. -/
theorem saved_some (hc : metadata.Consistent db) {batch : InvoiceBatch} (hclaimed : Claimed batch db)
    {time : ℤ} (hdrafts : db' invoiceDrafts = db invoiceDrafts ++
      newDrafts batch.id (buildInvoiceDrafts gen batch time) (db invoiceDrafts)) :
    ∃ d ∈ db' invoiceDrafts, d.batchId = batch.id := by
  obtain ⟨b, hb, -, htarget, -⟩ := hclaimed
  have hpos := target_pos hc hb
  rw [hdrafts]
  by_cases hany : ∃ d ∈ db invoiceDrafts, d.batchId = batch.id
  · obtain ⟨d, hd, hbatch⟩ := hany
    exact ⟨d, List.mem_append.mpr (.inl hd), hbatch⟩
  · have hnone : (db invoiceDrafts).filter (fun d : InvoiceDraftRow => d.batchId == batch.id) = [] :=
      List.filter_eq_nil_iff.mpr fun d hd hbatch => hany ⟨d, hd, beq_iff_eq.mp hbatch⟩
    have hfirst : ∃ d ∈ (buildInvoiceDrafts gen batch time).map draftRow, d.batchId = batch.id ∧
        d.ordinal = ((0 : ℕ) : ℤ) := build_mem (by omega)
    obtain ⟨d, hd, hbatch, -⟩ := hfirst
    refine ⟨d, List.mem_append.mpr (.inr ?_), hbatch⟩
    simpa [newDrafts, hnone] using hd

/-! ### An invoice -/

/-- No other row has an invoice that is reported for the tag of a draft. -/
theorem created_ok {tagOf : InvoiceId → String} (h : Fitting gen db)
    (hdrafted : ∀ o ∈ db ownedInvoices, o.draftId ≠ none)
    (hbound : ∀ d ∈ db invoiceDrafts, ∀ id, d.providerInvoiceId = some id → tagOf id = d.tag)
    {d : InvoiceDraftRow} (hd : d ∈ db invoiceDrafts) {id : InvoiceId} (htag : tagOf id = d.tag)
    (time : ℤ) :
    ∃ db', (StoreOp.invoices (.created ⟨d.id, id, time⟩)).apply db = (.ok (), db') ∧
      db' invoiceDrafts = assignWhere (fun d' : InvoiceDraftRow => d'.id == d.id)
        (DraftTransition.created ⟨d.id, id, time⟩).apply (db invoiceDrafts) := by
  have hfree : ∀ {current : Option InvoiceId}, current ≠ some id →
      sameNonNull (some id) current = false := by
    intro current hne
    rw [Bool.eq_false_iff]
    intro hsame
    obtain ⟨x, hx, hcurrent⟩ := sameNonNull_iff.mp hsame
    exact hne (hx ▸ hcurrent)
  have honly : ∀ d' ∈ db invoiceDrafts, d'.providerInvoiceId = some id → d' = d := by
    intro d' hd' hinvoice
    have hsame : d'.tag = d.tag := (hbound d' hd' id hinvoice).symm.trans htag
    exact (h.consistent invoiceDrafts).eq_of_clash hd' hd (by simp [metadata, uniqueConflict, hsame])
  change ∃ db', atomically metadata (transition (.created ⟨d.id, id, time⟩)) db = _ ∧ _
  refine transition_ok h.consistent (fun d' hd' hne => ?_) fun o ho hne => ?_
  · exact hfree fun hinvoice => hne (honly d' hd' hinvoice ▸ rfl)
  · refine hfree fun hinvoice => hne ?_
    obtain ⟨id', hdraft⟩ := Option.ne_none_iff_exists'.mp (hdrafted o ho)
    obtain ⟨d', hd', rfl, -⟩ := h.paired.stored o ho id' hdraft
    have hsame := h.paired.agreed.same d' hd' o ho hdraft
    rw [honly d' hd' (hsame.symm.trans hinvoice)] at hdraft
    exact hdraft

end

end StarkbankTrial.AnsweredDrafts
