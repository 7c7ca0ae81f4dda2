import StarkbankTrial.ReadCommitted

/-!
# Rows that sessions claim

A claiming session locks the first due row that no other session holds and writes it so that
it is due for nobody any more. The other sessions may write what they like, as long as they
leave keys alone and free no taken row. Then no two claims return the same row, and a claim
never has to wait.
-/
namespace StarkbankTrial.RowClaims
open InteractivePrograms InterleavedRuns RelationalTables RowVersions ReadCommitted

section
variable {Table : Type} {Row : Table → Type} {Key ι E B : Type} {t : Table}

/-- Which rows of the table a session looks for, and what it makes of the row that it locks. -/
structure Claim (Row : Table → Type) (t : Table) where
  due : Row t → Bool
  before : Row t → Row t → Bool
  take : Row t → Row t → Row t

abbrev Claim.lock (c : Claim Row t) : Statement Row := .lockFirst t c.due c.before

abbrev Claim.write [DecidableEq Key] (S : Schema Row Key) (c : Claim Row t) (r : Row t) :
    Statement Row := .update t (fun r' => S.key t r' == S.key t r) (c.take r)

/-- What a session is there for: to claim a row, with something else to do where none is due,
or only for something else. -/
inductive Role (Row : Table → Type) (t : Table) (E B : Type) where
  | claims (claim : Claim Row t) (idle : Transaction Row E Unit) (value : Row t → B)
  | other (p : Transaction Row E Unit)

/-- A refused write raises. -/
def Role.txn [DecidableEq Key] (S : Schema Row Key) (refused : E) :
    Role Row t E B → Transaction Row E (Option B)
  | .claims c idle value => .call c.lock fun
      | none => idle >>= fun _ => pure none
      | some r => .call (c.write S r) fun
          | none => .raise refused
          | some _ => pure (some (value r))
  | .other p => p >>= fun _ => pure none

/-- A claim without anything else to do. -/
def Role.Quiet : Role Row t E B → Prop
  | .claims _ (.done _) _ => True
  | _ => False

/-! ### What the sessions may do to the table -/

variable (S : Schema Row Key) (taken : (u : Table) → Row u → Prop)

/-- A statement that leaves the keys of the table alone and frees no taken row of it. -/
def Harmless (t : Table) : Statement Row → Prop
  | .update u _ assign => u = t → ∀ r,
      S.key u (assign r) = S.key u r ∧ (taken u r → taken u (assign r))
  | _ => True

/-- A claim takes a row that was not taken, and changes nothing that constraints speak of. -/
structure Exclusive (c : Claim Row t) : Prop where
  due : ∀ r, c.due r = true → ¬ taken t r
  take : ∀ r a, taken t (c.take r a)
  key : ∀ r a, S.key t (c.take r a) = S.key t a
  clash : ∀ r a b, S.clash t (c.take r a) b = S.clash t a b
  check : ∀ r a, S.check t (c.take r a) = S.check t a

/-- A claim locks once. -/
def Role.Safe : Role Row t E B → Prop
  | .claims c idle _ => Exclusive S taken c ∧ idle.Issues fun st =>
      Harmless S taken t st ∧ ∀ c : Claim Row t, st ≠ c.lock
  | .other p => p.Issues (Harmless S taken t)

/-- A pending version keeps the key of its row, and a taken row stays taken. -/
def leases (ι : Type) (t : Table) : RowInvariant ι Row where
  version _ _ := True
  pending u _ committed r := u = t → ∀ q ∈ committed,
    S.key u r = S.key u q ∧ (taken u q → taken u r)

variable (roles : ι → Role Row t E B)

/-- The session has locked the row to claim it. -/
def Locked (l : Log ι (SessionOp Row) SessionOp.Answer) (i : ι) (r : Row t) : Prop :=
  ∃ c idle value, roles i = .claims c idle value ∧
    (⟨i, .statement c.lock, some r⟩ : Entry ι (SessionOp Row) SessionOp.Answer) ∈ l

variable {S taken roles} {i j : ι} {l l' : Log ι (SessionOp Row) SessionOp.Answer}
variable {s s' : Versions ι Row} {r r' : Row t} {e : Entry ι (SessionOp Row) SessionOp.Answer}

theorem locked_cons : Locked roles (e :: l) i r ↔ Locked roles l i r ∨
    ∃ c idle value, roles i = .claims c idle value ∧ e = ⟨i, .statement c.lock, some r⟩ := by
  constructor
  · rintro ⟨c, idle, value, hrole, hmem⟩
    rcases List.mem_cons.mp hmem with heq | hmem
    · exact .inr ⟨c, idle, value, hrole, heq.symm⟩
    · exact .inl ⟨c, idle, value, hrole, hmem⟩
  · rintro (⟨c, idle, value, hrole, hmem⟩ | ⟨c, idle, value, hrole, rfl⟩)
    · exact ⟨c, idle, value, hrole, List.mem_cons_of_mem _ hmem⟩
    · exact ⟨c, idle, value, hrole, List.mem_cons_self⟩

theorem locked_cons_other (h : e.process ≠ i) : Locked roles (e :: l) i r ↔ Locked roles l i r := by
  rw [locked_cons]
  refine ⟨fun hl => hl.resolve_right ?_, .inl⟩
  rintro ⟨c, idle, value, -, rfl⟩
  exact h rfl

/-- Only a statement that locks adds to what is locked. -/
theorem locked_cons_of_ne (h : ∀ c : Claim Row t, e.op ≠ .statement c.lock) :
    Locked roles (e :: l) i r ↔ Locked roles l i r := by
  rw [locked_cons]
  refine ⟨fun hl => hl.resolve_right ?_, .inl⟩
  rintro ⟨c, idle, value, -, rfl⟩
  exact h c rfl

end

/-! ### Rewriting rows that are free -/

section
variable {R ι : Type} [DecidableEq ι] {i : ι} {c d : Slot ι R} {a b : R}
variable {condition : R → Bool} {assign : R → R} {clash : R → R → Bool}

/-- The slot after a statement that skips what other sessions hold. -/
def rewrite (i : ι) (condition : R → Bool) (assign : R → R) (c : Slot ι R) : Slot ι R :=
  if c.heldByOther i then c else c.write i condition assign

theorem rewrite_held (h : c.heldByOther i = true) : rewrite i condition assign c = c := by
  simp [rewrite, h]

theorem rewrite_free (h : c.heldByOther i = false) :
    rewrite i condition assign c = c.write i condition assign := by
  simp [rewrite, h]

theorem rewrite_writes : Slot.Writes i c (rewrite i condition assign c) := by
  cases h : c.heldByOther i with
  | true => exact .inl (rewrite_held h)
  | false =>
      rw [rewrite_free h]
      exact Slot.write_writes fun hother => absurd hother (by simp [h])

theorem heldByOther_of_own (h : c.own i = some a) : c.heldByOther i = false :=
  Slot.heldByOther_eq_false.mpr fun _ hp =>
    congrArg Prod.fst (Option.some.inj (hp.symm.trans (Slot.own_eq_some.mp h)))

theorem write_heldByOther (h : c.heldByOther i = false) :
    (c.write i condition assign).heldByOther i = false := by
  rcases Slot.write_cases i c condition with ⟨r, hr, hc⟩ | hnone
  · rw [Slot.write_of_true hr hc]
    simp [Slot.heldByOther]
  · rwa [Slot.write_of_false hnone]

theorem visible_rewrite (h : (rewrite i condition assign c).visible i = some a)
    (hfree : c.heldByOther i = false) :
    ∃ a₀, c.visible i = some a₀ ∧ (a = a₀ ∨ a = assign a₀) := by
  rw [rewrite_free hfree, Slot.visible_write, Option.map_eq_some_iff] at h
  obtain ⟨a₀, ha₀, rfl⟩ := h
  refine ⟨a₀, ha₀, ?_⟩
  split_ifs
  · exact .inr rfl
  · exact .inl rfl

theorem visible_of_own (h : c.own i = some a) : c.visible i = some a := by
  rw [Slot.visible, h, Option.some_or]

/-- What the session has written after the rewrite came from what it saw. -/
theorem own_rewrite (h : (rewrite i condition assign c).own i = some a) :
    c.heldByOther i = false ∧ ∃ a₀, c.visible i = some a₀ ∧ (a = a₀ ∨ a = assign a₀) := by
  have hfree : c.heldByOther i = false := by
    cases hheld : c.heldByOther i with
    | false => rfl
    | true =>
        rw [rewrite_held hheld] at h
        exact hheld ▸ heldByOther_of_own h
  exact ⟨hfree, visible_rewrite (visible_of_own h) hfree⟩

theorem seen_of_free (h : c.heldByOther i = false) : c.seen i = (c.visible i).toList := by
  simp [Slot.seen, Slot.settled, Slot.unsettled, h]

/-- A version that nobody else holds clashes with none that may stay beside it. -/
theorem compatible_seen (h : Slot.Compatible clash c d) (ha : c.visible i = some a)
    (hfree : c.heldByOther i = false) (hb : b ∈ d.seen i) : clash a b = false := by
  cases hheld : d.heldByOther i with
  | false =>
      rw [seen_of_free hheld, Option.mem_toList] at hb
      exact h.visible ha hb
  | true =>
      have hother : ∀ q ∈ d.pending, q.1 ≠ i := by
        intro q hq
        simpa [Slot.heldByOther, show d.pending = some q from hq] using hheld
      have hmine : ∀ p ∈ c.pending, p.1 = i := Slot.heldByOther_eq_false.mp hfree
      have hb : b ∈ d.committed ∨ ∃ q ∈ d.pending, q.2 = b := by
        simpa [Slot.seen, Slot.settled, Slot.unsettled, hheld] using hb
      rcases Slot.visible_eq_some.mp ha with hown | ⟨hcommitted, hnot⟩
      · rcases hb with hb | ⟨q, hq, rfl⟩
        · exact h.left _ hown b hb hother
        · exact h.pending _ hown q hq
      · rcases hb with hb | ⟨q, hq, rfl⟩
        · exact h.committed a hcommitted b hb
        · exact h.right a hcommitted q hq fun p hp => absurd (hmine p hp) (hnot p hp)

/-- A rewrite that constraints do not notice keeps versions apart. -/
theorem rewrite_apart (h : Slot.Compatible clash c d) (hcomm : ∀ a b, clash a b = clash b a)
    (hclash : ∀ a b, clash (assign a) b = clash a b)
    (ha : (rewrite i condition assign c).own i = some a)
    (hb : b ∈ (rewrite i condition assign d).seen i) : clash a b = false := by
  obtain ⟨hfree, a₀, ha₀, hold⟩ := own_rewrite ha
  have hsame : ∀ x, clash a x = clash a₀ x := by
    rcases hold with rfl | rfl
    · exact fun _ => rfl
    · exact hclash a₀
  rw [hsame]
  cases hheld : d.heldByOther i with
  | true =>
      rw [rewrite_held hheld] at hb
      exact compatible_seen h ha₀ hfree hb
  | false =>
      have hfree' : (rewrite i condition assign d).heldByOther i = false := by
        rw [rewrite_free hheld]
        exact write_heldByOther hheld
      rw [seen_of_free hfree', Option.mem_toList] at hb
      obtain ⟨b₀, hb₀, hold'⟩ := visible_rewrite hb hheld
      have hapart := h.visible ha₀ hb₀
      rcases hold' with rfl | rfl
      · exact hapart
      · rw [hcomm, hclash, hcomm]
        exact hapart

end

/-! ### The statements of a claim -/

section
variable {Table : Type} {Row : Table → Type} {Key ι : Type}
variable [DecidableEq ι] [DecidableEq Table] [DecidableEq Key]
variable {S : Schema Row Key} {t : Table} {i : ι} {s s' : Versions ι Row} {r : Row t}
variable {condition : Row t → Bool} {assign : Row t → Row t}

omit [DecidableEq Table] [DecidableEq Key] in
theorem clear_rewritten {seen : Slot ι (Row t) → List (Row t)} (hs : Coherent S s)
    (hclash : ∀ a b, S.clash t (assign a) b = S.clash t a b)
    (hseen : ∀ c : Slot ι (Row t), ∀ b ∈ seen c, b ∈ c.seen i) :
    Clear S t i seen ((s t).map (rewrite i condition assign)) := by
  refine List.pairwise_map.mpr ((hs.apart t).imp fun {c d} hcd => ⟨fun a ha b hb => ?_, fun a ha b hb => ?_⟩)
  · exact rewrite_apart hcd (S.clash_comm t) hclash (Option.mem_toList.mp ha) (hseen _ b hb)
  · exact rewrite_apart (hcd.symm (S.clash_comm t)) (S.clash_comm t) hclash
      (Option.mem_toList.mp ha) (hseen _ b hb)

omit [DecidableEq Key] in
/-- Rewriting free rows neither fails nor waits, if constraints do not notice it. -/
theorem put_rewritten (hs : Coherent S s) (hclash : ∀ a b, S.clash t (assign a) b = S.clash t a b)
    (hcheck : ∀ a, S.check t (assign a) = S.check t a) :
    put S i t ((s t).map (rewrite i condition assign)) s =
      some (true, s.set t ((s t).map (rewrite i condition assign))) := by
  refine put_eq_some.mpr (.inl ⟨rfl, rfl, ⟨?_, ?_⟩, ?_⟩)
  · intro c' hc' a ha
    obtain ⟨c, hc, rfl⟩ := List.mem_map.mp hc'
    obtain ⟨-, a₀, ha₀, hold⟩ := own_rewrite (Option.mem_toList.mp ha)
    have hcheck₀ : S.check t a₀ = true := by
      refine hs.checks t c hc a₀ ?_
      rcases Slot.visible_eq_some.mp ha₀ with hown | ⟨hcommitted, -⟩
      · exact .inr ⟨i, hown⟩
      · exact .inl hcommitted
    rcases hold with rfl | rfl
    · exact hcheck₀
    · rw [hcheck, hcheck₀]
  · exact clear_rewritten hs hclash fun c b hb => List.mem_append_left _ hb
  · exact clear_rewritten hs hclash fun c b hb => List.mem_append_right _ hb

/-- A lock always has an answer. The row that it answers was free and due, and is held now. -/
theorem execute_lock (hs : Coherent S s) (due : Row t → Bool) (before : Row t → Row t → Bool) :
    ∃ (a : Option (Row t)) (s' : Versions ι Row),
      execute S i (.lockFirst t due before) s = some (a, s') ∧
      (a = none → s' = s) ∧
      ∀ r ∈ a, due r = true ∧ (∃ c ∈ s t, c.heldByOther i = false ∧ c.visible i = some r) ∧
        s' = s.set t ((s t).map (rewrite i (fun r' => S.key t r' == S.key t r) id)) := by
  simp only [execute]
  split
  · exact ⟨none, s, rfl, fun _ => rfl, by simp⟩
  · next r hr =>
      refine ⟨some r, _, congrArg (Option.map _) (put_rewritten hs (fun _ _ => rfl) fun _ => rfl),
        by simp, fun r' hr' => ?_⟩
      obtain rfl := Option.some.inj hr'
      obtain ⟨hmem, hdue⟩ := List.mem_filter.mp (firstBy_mem hr)
      obtain ⟨c, hc, hvisible⟩ := List.mem_filterMap.mp hmem
      obtain ⟨hc, hfree⟩ := List.mem_filter.mp hc
      exact ⟨hdue, ⟨c, hc, by simpa using hfree, hvisible⟩, rfl⟩

/-- What the session wrote before, it has written still, up to the rewrite. -/
theorem written_rewritten (h : r ∈ written i (s.set t ((s t).map (rewrite i condition assign))) t) :
    (∃ a ∈ view i s t, condition a = true ∧ assign a = r) ∨
      r ∈ written i s t ∧ condition r = false := by
  simp only [written, Versions.set_self, List.filterMap_map, List.mem_filterMap,
    Function.comp_apply] at h
  obtain ⟨c, hc, hown⟩ := h
  obtain ⟨hfree, -⟩ := own_rewrite hown
  rw [rewrite_free hfree] at hown
  rcases Slot.own_write.mp hown with ⟨a, ha, hcondition, rfl⟩ | ⟨hold, hcondition⟩
  · exact .inl ⟨a, List.mem_filterMap.mpr ⟨c, hc, ha⟩, hcondition, rfl⟩
  · exact .inr ⟨List.mem_filterMap.mpr ⟨c, hc, hold⟩, hcondition⟩

omit [DecidableEq Key] in
theorem mem_written_rewritten {c : Slot ι (Row t)} (hc : c ∈ s t) (hfree : c.heldByOther i = false)
    (hr : c.visible i = some r) (hcondition : condition r = true) :
    assign r ∈ written i (s.set t ((s t).map (rewrite i condition assign))) t := by
  simp only [written, Versions.set_self, List.filterMap_map, List.mem_filterMap,
    Function.comp_apply]
  refine ⟨c, hc, ?_⟩
  rw [rewrite_free hfree]
  exact Slot.own_write.mpr (.inl ⟨r, hr, hcondition, rfl⟩)

/-- The holder of a row writes it without waiting. -/
theorem execute_write_held (hs : Coherent S s) (hheld : ∃ q ∈ written i s t, S.key t q = S.key t r)
    (hclash : ∀ a b, S.clash t (assign a) b = S.clash t a b)
    (hcheck : ∀ a, S.check t (assign a) = S.check t a) :
    ∃ n, execute S i (.update t (fun r' => S.key t r' == S.key t r) assign) s = some (some n,
      s.set t ((s t).map (rewrite i (fun r' => S.key t r' == S.key t r) assign))) := by
  obtain ⟨q, hq, hkey⟩ := hheld
  have hfree : ∀ c ∈ s t, c.heldByOther i = true → ∀ a ∈ c.visible i,
      (S.key t a == S.key t r) = false := by
    intro c hc hother a ha
    by_contra hcondition
    have hsame : S.key t q = S.key t a := by
      rw [hkey]
      exact (beq_iff_eq.mp (by simpa using hcondition)).symm
    have hown := hs.own_of_key hq hc ha hsame
    rw [heldByOther_of_own hown] at hother
    cases hother
  have hslots : (s t).map (fun c => c.write i (fun r' => S.key t r' == S.key t r) assign) =
      (s t).map (rewrite i (fun r' => S.key t r' == S.key t r) assign) := by
    refine List.map_congr_left fun c hc => ?_
    cases hother : c.heldByOther i with
    | true => rw [rewrite_held hother, Slot.write_of_false (hfree c hc hother)]
    | false => rw [rewrite_free hother]
  simp only [execute]
  rw [if_neg, hslots, put_rewritten hs hclash hcheck]
  · exact ⟨_, rfl⟩
  · intro hany
    obtain ⟨c, hc, hboth⟩ := List.any_eq_true.mp hany
    obtain ⟨hother, hvisible⟩ := Bool.and_eq_true_iff.mp hboth
    cases ha : c.visible i with
    | none => simp [ha] at hvisible
    | some a =>
        rw [ha, Option.any_some, hfree c hc hother a ha] at hvisible
        cases hvisible

end

/-! ### The invariant -/

section
variable {Table : Type} {Row : Table → Type} {Key ι E B : Type} {t : Table}
variable [DecidableEq ι] [DecidableEq Table] [DecidableEq Key]

/-- The row is under the lock of its session, or committed as taken. -/
def Claimed (S : Schema Row Key) (taken : (u : Table) → Row u → Prop) (i : ι) (r : Row t)
    (s : Versions ι Row) : Prop :=
  (∃ q ∈ written i s t, S.key t q = S.key t r) ∨
    ∃ q ∈ committedRows s t, S.key t q = S.key t r ∧ taken t q

structure Inv (S : Schema Row Key) (taken : (u : Table) → Row u → Prop)
    (roles : ι → Role Row t E B) (l : Log ι (SessionOp Row) SessionOp.Answer)
    (s : Versions ι Row) : Prop where
  coherent : Coherent S s
  leases : (leases S taken ι t).Holds s
  claimed : ∀ i r, Locked roles l i r → Claimed S taken i r s
  apart : ∀ i j, i ≠ j → ∀ r r', Locked roles l i r → Locked roles l j r' →
    S.key t r ≠ S.key t r'

variable {S : Schema Row Key} {taken : (u : Table) → Row u → Prop} {roles : ι → Role Row t E B}
variable {i j : ι} {l : Log ι (SessionOp Row) SessionOp.Answer} {s s' : Versions ι Row}
variable {r : Row t} {op : SessionOp Row} {a : op.Answer}

/-- What one session has claimed, the steps of the others leave claimed. -/
theorem Claimed.other (h : Claimed S taken i r s) (hleases : (leases S taken ι t).Holds s)
    (hop : perform S j op s = some (a, s')) (hj : j ≠ i) : Claimed S taken i r s' := by
  rcases h with ⟨q, hq, hkey⟩ | ⟨q, hq, hkey, htaken⟩
  · exact .inl ⟨q, perform_written hop hj ▸ hq, hkey⟩
  · right
    cases op with
    | statement st =>
        rw [execute_committed hop]
        exact ⟨q, hq, hkey, htaken⟩
    | rollback =>
        obtain ⟨-, rfl⟩ := Prod.mk.inj (Option.some.inj hop)
        rw [committedRows_rollback]
        exact ⟨q, hq, hkey, htaken⟩
    | commit =>
        obtain ⟨-, rfl⟩ := Prod.mk.inj (Option.some.inj hop)
        rw [committedRows_commit]
        obtain ⟨c, hc, hcommitted⟩ := List.mem_filterMap.mp hq
        cases hown : c.own j with
        | none =>
            have hvisible : c.visible j = some q := by simp [Slot.visible, hown, hcommitted]
            exact ⟨q, List.mem_filterMap.mpr ⟨c, hc, hvisible⟩, hkey, htaken⟩
        | some q' =>
            obtain ⟨hsame, hstays⟩ :=
              hleases.pending t c hc j q' (Slot.own_eq_some.mp hown) rfl q hcommitted
            exact ⟨q', List.mem_filterMap.mpr ⟨c, hc, visible_of_own hown⟩, hsame.trans hkey,
              hstays htaken⟩

omit [DecidableEq Table] [DecidableEq Key] in
theorem leases_lock (h : (leases S taken ι t).Holds s) (u : Table) (condition : Row u → Bool)
    (before : Row u → Row u → Bool) :
    (leases S taken ι t).Permits i s (.lockFirst u condition before) := by
  intro c hc _ r hr
  rcases Slot.visible_eq_some.mp hr with hown | ⟨hcommitted, -⟩
  · exact h.pending u c hc i r hown
  · intro _ q hq
    obtain rfl := Option.some.inj (hcommitted.symm.trans hq)
    exact ⟨rfl, id⟩

omit [DecidableEq Table] [DecidableEq Key] in
theorem leases_harmless (h : (leases S taken ι t).Holds s) {st : Statement Row}
    (hst : Harmless S taken t st) : (leases S taken ι t).Permits i s st := by
  cases st with
  | select u condition => trivial
  | lockFirst u condition before => exact leases_lock h u condition before
  | insert u rows => exact fun _ _ => ⟨trivial, fun _ _ hq => by cases hq⟩
  | insertIfAbsent u row => exact ⟨trivial, fun _ _ hq => by cases hq⟩
  | update u condition assign =>
      intro c hc _ r hr _
      refine ⟨trivial, fun hu q hq => ?_⟩
      obtain ⟨hkey, hstays⟩ := hst hu r
      rcases Slot.visible_eq_some.mp hr with hown | ⟨hcommitted, -⟩
      · obtain ⟨hsame, htaken⟩ := h.pending u c hc i r hown hu q hq
        exact ⟨hkey.trans hsame, fun hq' => hstays (htaken hq')⟩
      · obtain rfl := Option.some.inj (hcommitted.symm.trans hq)
        exact ⟨hkey, hstays⟩

omit [DecidableEq Table] in
theorem leases_write {c : Claim Row t} (hc : Exclusive S taken c)
    (h : (leases S taken ι t).Holds s) (r : Row t) :
    (leases S taken ι t).Permits i s (c.write S r) := by
  intro c' hc' _ r' hr' _
  refine ⟨trivial, fun _ q hq => ⟨?_, fun _ => hc.take r r'⟩⟩
  rw [hc.key]
  rcases Slot.visible_eq_some.mp hr' with hown | ⟨hcommitted, -⟩
  · exact (h.pending t c' hc' i r' hown rfl q hq).1
  · rw [Option.some.inj (hcommitted.symm.trans hq)]

/-- A step keeps the invariant when what its session has claimed is claimed by nobody else. -/
theorem Inv.step (h : Inv S taken roles l s) (hop : perform S i op s = some (a, s'))
    (hpermits : ∀ st, op = .statement st → (RowClaims.leases S taken ι t).Permits i s st)
    (hclaimed : ∀ r, Locked roles (⟨i, op, a⟩ :: l) i r → Claimed S taken i r s')
    (hapart : ∀ j, j ≠ i → ∀ r r', Locked roles (⟨i, op, a⟩ :: l) i r → Locked roles l j r' →
      S.key t r ≠ S.key t r') : Inv S taken roles (⟨i, op, a⟩ :: l) s' where
  coherent := perform_coherent h.coherent hop
  leases := perform_holds h.leases hpermits hop
  claimed k r hk := by
    by_cases hki : k = i
    · subst hki
      exact hclaimed r hk
    · have hold := (locked_cons_other (e := ⟨i, op, a⟩) (Ne.symm hki)).mp hk
      exact (h.claimed k r hold).other h.leases hop (Ne.symm hki)
  apart k k' hne r r' hk hk' := by
    by_cases hki : k = i
    · subst hki
      exact hapart k' hne.symm r r' hk ((locked_cons_other hne).mp hk')
    · have hold := (locked_cons_other (e := ⟨i, op, a⟩) (Ne.symm hki)).mp hk
      by_cases hki' : k' = i
      · subst hki'
        exact (hapart k hki r' r hk' hold).symm
      · exact h.apart k k' hne r r' hold ((locked_cons_other (Ne.symm hki')).mp hk')

/-! ### What a session knows of itself -/

/-- No step of a session that claims and does nothing else has to wait. -/
def Waitless (S : Schema Row Key) (roles : ι → Role Row t E B) (i : ι) (op : SessionOp Row) :
    Fact ι Row := fun _ s => (roles i).Quiet → (perform S i op s).isSome = true

/-- A statement about the locks of the session and about what it has written. -/
abbrev Own (roles : ι → Role Row t E B) (i : ι) (fact : (Row t → Prop) → Database Row → Prop) :
    Fact ι Row := fun l s => fact (Locked roles l i) (written i s)

abbrev Unlocked (locked : Row t → Prop) (_ : Database Row) : Prop := ∀ r, ¬ locked r

abbrev Beginning (locked : Row t → Prop) (mine : Database Row) : Prop :=
  (∀ r, ¬ locked r) ∧ mine = fun _ => []

/-- The session has locked this row, and has written no other one. -/
structure Holding (S : Schema Row Key) (r : Row t) (locked : Row t → Prop) (mine : Database Row) :
    Prop where
  holds : locked r
  only : ∀ r', locked r' → r' = r
  wrote : ∃ q ∈ mine t, S.key t q = S.key t r
  wrote_only : ∀ q ∈ mine t, S.key t q = S.key t r

/-- The session has taken the row that it locked. -/
structure Taking (S : Schema Row Key) (taken : (u : Table) → Row u → Prop) (r : Row t)
    (locked : Row t → Prop) (mine : Database Row) : Prop where
  holds : locked r
  only : ∀ r', locked r' → r' = r
  wrote : ∃ q ∈ mine t, S.key t q = S.key t r ∧ taken t q

theorem persists_own {inv : Fact ι Row} (fact : (Row t → Prop) → Database Row → Prop) :
    Persists S inv i (Own roles i fact) := by
  intro l s l' s' hfact hstep
  obtain ⟨j, hj, op, a, hop, rfl⟩ := hstep.step
  have hlocked : Locked roles (⟨j, op, a⟩ :: l) i = Locked roles l i :=
    funext fun r => propext (locked_cons_other hj)
  unfold Own
  rw [hlocked, perform_written hop hj]
  exact hfact

/-! ### The steps of a session -/

variable {refused : E}

abbrev claiming (S : Schema Row Key) (refused : E) (taken : (u : Table) → Row u → Prop)
    (roles : ι → Role Row t E B) :
    Protocol ι (SessionOp Row) SessionOp.Answer E (Option B) (Versions ι Row) :=
  protocol S (fun i => (roles i).txn S refused) (fun _ _ _ _ => True) (Inv S taken roles)
    (Waitless S roles)

omit [DecidableEq Table] [DecidableEq Key] in
/-- A row that is free and due was not claimed by anybody before. -/
theorem due_unclaimed {c : Claim Row t} (hc : Exclusive S taken c) (h : Inv S taken roles l s)
    (hrest : AtRest i s) (hdue : c.due r = true)
    (hfree : ∃ c ∈ s t, c.heldByOther i = false ∧ c.visible i = some r) {r' : Row t} (hj : j ≠ i)
    (hlocked : Locked roles l j r') : S.key t r ≠ S.key t r' := by
  intro hsame
  obtain ⟨d, hd, hfree, hvisible⟩ := hfree
  rcases h.claimed j r' hlocked with ⟨q, hq, hkey⟩ | ⟨q, hq, hkey, htaken⟩
  · -- the other session still holds the row, in another slot
    obtain ⟨d', hd', hown⟩ := List.mem_filterMap.mp hq
    have hpending := Slot.own_eq_some.mp hown
    have hne : d ≠ d' := by
      rintro rfl
      exact hj (Slot.heldByOther_eq_false.mp hfree _ hpending)
    have : Std.Symm (Slot.Compatible (S.clash t) : Slot ι (Row t) → Slot ι (Row t) → Prop) :=
      ⟨fun _ _ hcd => hcd.symm (S.clash_comm t)⟩
    have hapart := compatible_seen ((h.coherent.apart t).forall hd hd' hne) hvisible hfree
      (Slot.mem_seen_of_pending hpending)
    rw [S.clash_of_key t r q (hsame.trans hkey.symm)] at hapart
    cases hapart
  · -- it has committed the row as taken, and this session sees that
    have hview : r ∈ view i s t := List.mem_filterMap.mpr ⟨d, hd, hvisible⟩
    rw [view_of_written_nil (congrFun hrest t)] at hview
    have heq := (h.coherent.committedRows t).eq_of_key hview hq (hsame.trans hkey.symm)
    exact hc.due r hdue (heq ▸ htaken)

theorem lock_triple {c : Claim Row t} {idle : Transaction Row E Unit} {value : Row t → B}
    (hrole : roles i = .claims c idle value) (hc : Exclusive S taken c) :
    (claiming S refused taken roles).Triple i (Own roles i Beginning) (.statement c.lock)
      fun a l s => (a = none → Own roles i Unlocked l s) ∧
        ∀ r ∈ a, Own roles i (Holding S r) l s := by
  refine triple (persists_own _) (fun l s hinv _ _ => ?_) fun l s a s' hinv hfact _ hop => ?_
  · obtain ⟨a, s', hop, -⟩ := execute_lock (i := i) hinv.coherent c.due c.before
    exact Option.isSome_of_eq_some hop
  · obtain ⟨hnone, hrest⟩ := hfact
    obtain ⟨a', u, hop', hidle, hsome⟩ := execute_lock (i := i) hinv.coherent c.due c.before
    obtain ⟨rfl, rfl⟩ := Prod.mk.inj (Option.some.inj (hop'.symm.trans hop))
    -- what is locked after the statement is what it answered
    have hlocked : ∀ r, Locked roles (⟨i, .statement c.lock, a'⟩ :: l) i r → a' = some r := by
      intro r hr
      rcases locked_cons.mp hr with hold | ⟨c', idle', value', hrole', heq⟩
      · exact absurd hold (hnone r)
      · obtain ⟨rfl, -, -⟩ := Role.claims.inj (hrole.symm.trans hrole')
        simpa using heq
    have hmine : ∀ r ∈ a', ∃ q ∈ written i u t, S.key t q = S.key t r := by
      intro r hr
      obtain ⟨-, ⟨d, hd, hfree, hvisible⟩, rfl⟩ := hsome r hr
      exact ⟨r, mem_written_rewritten hd hfree hvisible (by simp), rfl⟩
    refine ⟨hinv.step hop (fun st heq => ?_) (fun r hr => ?_) (fun j hj r r' hr hr' => ?_),
      fun ha r hr => ?_, fun r hr => ⟨?_, fun r' hr' => ?_, hmine r hr, fun q hq => ?_⟩⟩
    · obtain rfl := SessionOp.statement.inj heq
      exact leases_lock hinv.leases t c.due c.before
    · exact .inl (hmine r (hlocked r hr))
    · obtain ⟨hdue, hfree, -⟩ := hsome r (hlocked r hr)
      exact due_unclaimed hc hinv hrest hdue hfree hj hr'
    · subst ha
      cases hlocked r hr
    · obtain rfl : a' = some r := hr
      exact locked_cons.mpr (.inr ⟨c, idle, value, hrole, rfl⟩)
    · obtain rfl : a' = some r := hr
      exact (Option.some.inj (hlocked r' hr')).symm
    · obtain ⟨-, -, rfl⟩ := hsome r hr
      rcases written_rewritten hq with ⟨q', -, hkey, rfl⟩ | ⟨hold, -⟩
      · simpa using hkey
      · rw [show written i s t = [] from congrFun hrest t] at hold
        cases hold

omit [DecidableEq ι] [DecidableEq Table] [DecidableEq Key] in
/-- A statement of another kind leaves the locks as they are. -/
theorem locked_statement {st : Statement Row} {a : st.Answer}
    (h : ∀ c : Claim Row t, st ≠ c.lock) :
    Locked roles (⟨i, .statement st, a⟩ :: l) i = Locked roles l i :=
  funext fun _ => propext (locked_cons_of_ne fun c heq => h c (SessionOp.statement.inj heq))

omit [DecidableEq ι] [DecidableEq Table] [DecidableEq Key] in
theorem locked_end {op : SessionOp Row} {a : op.Answer} (hop : op.Ends) :
    Locked roles (⟨i, op, a⟩ :: l) i = Locked roles l i :=
  funext fun _ => propext (locked_cons_of_ne fun _ => hop.ne_statement _)

theorem write_triple {c : Claim Row t} (hc : Exclusive S taken c) (r : Row t) :
    (claiming S refused taken roles).Triple i (Own roles i (Holding S r))
      (.statement (c.write S r)) fun a l s => a ≠ none ∧ Own roles i (Taking S taken r) l s := by
  have hruns : ∀ {l s}, Inv S taken roles l s → Own roles i (Holding S r) l s →
      ∃ n, execute S i (c.write S r) s = some (some n,
        s.set t ((s t).map (rewrite i (fun r' => S.key t r' == S.key t r) (c.take r)))) :=
    fun hinv hfact => execute_write_held hinv.coherent hfact.wrote (hc.clash r) (hc.check r)
  refine triple (persists_own _) (fun l s hinv hfact _ => ?_) fun l s a s' hinv hfact _ hop => ?_
  · obtain ⟨n, hop⟩ := hruns hinv hfact
    exact Option.isSome_of_eq_some hop
  · obtain ⟨n, hop'⟩ := hruns hinv hfact
    obtain ⟨rfl, rfl⟩ := Prod.mk.inj (Option.some.inj (hop'.symm.trans hop))
    obtain ⟨hholds, honly, ⟨q, hq, hkey⟩, -⟩ := hfact
    have hlocked : Locked roles (⟨i, .statement (c.write S r), some n⟩ :: l) i = Locked roles l i :=
      locked_statement fun _ => by simp
    have hmine : ∃ q ∈ written i (s.set t ((s t).map
        (rewrite i (fun r' => S.key t r' == S.key t r) (c.take r)))) t,
        S.key t q = S.key t r ∧ taken t q := by
      obtain ⟨d, hd, hown⟩ := List.mem_filterMap.mp hq
      exact ⟨c.take r q, mem_written_rewritten hd (heldByOther_of_own hown) (visible_of_own hown)
        (by simp [hkey]), (hc.key r q).trans hkey, hc.take r q⟩
    refine ⟨hinv.step hop (fun st heq => ?_) (fun r' hr' => ?_) (fun j hj r₁ r₂ hr₁ hr₂ => ?_),
      by simp, ?_⟩
    · obtain rfl := SessionOp.statement.inj heq
      exact leases_write hc hinv.leases r
    · rw [hlocked] at hr'
      obtain rfl := honly r' hr'
      obtain ⟨q, hq, hkey, -⟩ := hmine
      exact .inl ⟨q, hq, hkey⟩
    · rw [hlocked] at hr₁
      exact hinv.apart i j hj.symm r₁ r₂ hr₁ hr₂
    · unfold Own
      rw [hlocked]
      exact ⟨hholds, honly, hmine⟩

omit [DecidableEq ι] [DecidableEq Table] [DecidableEq Key] in
theorem locked_role (h : Locked roles l i r) : ∃ c idle value, roles i = .claims c idle value := by
  obtain ⟨c, idle, value, hrole, -⟩ := h
  exact ⟨c, idle, value, hrole⟩

/-- The statement is not the lock of a claim. -/
def Silent (roles : ι → Role Row t E B) (i : ι) (st : Statement Row) : Prop :=
  ∀ (l : Log ι (SessionOp Row) SessionOp.Answer) (a : st.Answer) (r : Row t),
    Locked roles (⟨i, .statement st, a⟩ :: l) i r → Locked roles l i r

/-- A session that has locked nothing writes what it may. -/
theorem harmless_triple {st : Statement Row} (hst : Harmless S taken t st)
    (hsilent : Silent roles i st) (hquiet : ¬ (roles i).Quiet) :
    (claiming S refused taken roles).Triple i (Own roles i Unlocked) (.statement st)
      fun _ => Own roles i Unlocked := by
  refine triple (persists_own _) (fun _ _ _ _ h => absurd h hquiet)
    fun l s a s' hinv hfact _ hop => ?_
  have hnone : ∀ r, ¬ Locked roles (⟨i, .statement st, a⟩ :: l) i r :=
    fun r hr => hfact r (hsilent l a r hr)
  refine ⟨hinv.step hop (fun st' heq => ?_) (fun r hr => absurd hr (hnone r))
    (fun j hj r₁ r₂ hr₁ _ => absurd hr₁ (hnone r₁)), hnone⟩
  obtain rfl := SessionOp.statement.inj heq
  exact leases_harmless hinv.leases hst

omit [DecidableEq ι] [DecidableEq Table] [DecidableEq Key] in
/-- The row was locked by a claim that returns this. -/
def Role.Returns : Role Row t E B → Row t → B → Prop
  | .claims _ _ value, r, b => value r = b
  | .other _, _, _ => False

/-- What a session knows when it has returned. -/
def Returned (roles : ι → Role Row t E B) (i : ι) (o : Except E (Option B)) : Fact ι Row :=
  Own roles i fun locked mine =>
    (mine = fun _ => []) ∧ ∀ b, o = .ok (some b) → ∃ r, locked r ∧ (roles i).Returns r b

theorem persists_returned {inv : Fact ι Row} (o : Except E (Option B)) :
    Persists S inv i (Returned roles i o) :=
  persists_own fun locked mine =>
    (mine = fun _ => []) ∧ ∀ b, o = .ok (some b) → ∃ r, locked r ∧ (roles i).Returns r b

/-- What it knows before it commits. -/
def Committing (S : Schema Row Key) (taken : (u : Table) → Row u → Prop)
    (roles : ι → Role Row t E B) (i : ι) : Option B → Fact ι Row
  | none => Own roles i Unlocked
  | some b => Own roles i fun locked mine =>
      ∃ r, Taking S taken r locked mine ∧ (roles i).Returns r b

theorem persists_committing {inv : Fact ι Row} (v : Option B) :
    Persists S inv i (Committing S taken roles i v) := by
  cases v with
  | none => exact persists_own Unlocked
  | some b => exact persists_own fun locked mine =>
      ∃ r, Taking S taken r locked mine ∧ (roles i).Returns r b

/-- The end of a session that has locked nothing. -/
theorem end_triple {op : SessionOp Row} (hop : op.Ends) :
    (claiming S refused taken roles).Triple i (Own roles i Unlocked) op fun _ l s =>
      Own roles i Unlocked l s ∧ AtRest i s := by
  refine triple (persists_own _) (fun l s _ _ _ => ?_) fun l s a s' hinv hfact _ hperform => ?_
  · rcases hop with rfl | rfl <;> rfl
  · refine ⟨hinv.step hperform (fun st heq => absurd heq (hop.ne_statement st)) (fun r hr => ?_)
      (fun j hj r₁ r₂ hr₁ _ => ?_), ?_, perform_ends hop hperform⟩
    · rw [locked_end hop] at hr
      exact absurd hr (hfact r)
    · rw [locked_end hop] at hr₁
      exact absurd hr₁ (hfact r₁)
    · unfold Own
      rw [locked_end hop]
      exact hfact

/-- What a session has taken is committed as taken. -/
theorem commit_triple (v : Option B) :
    (claiming S refused taken roles).Triple i (Committing S taken roles i v) .commit fun _ =>
      Returned roles i (.ok v) := by
  cases v with
  | none =>
      refine (end_triple (.inl rfl)).mono fun _ l s h => ⟨h.2, fun b hb => ?_⟩
      cases hb
  | some b =>
      refine triple (persists_committing _) (fun l s _ _ _ => rfl)
        fun l s a s' hinv hfact _ hop => ?_
      obtain ⟨r, ⟨hholds, honly, q, hq, hkey, htaken⟩, hreturns⟩ := hfact
      have hrest : AtRest i s' := perform_ends (.inl rfl) hop
      have hcommitted : q ∈ committedRows s' t := by
        obtain ⟨-, rfl⟩ := Prod.mk.inj (Option.some.inj hop)
        rw [committedRows_commit]
        exact mem_written_view hq
      refine ⟨hinv.step hop (fun st heq => ?_) (fun r' hr' => ?_)
        (fun j hj r₁ r₂ hr₁ hr₂ => ?_), ?_⟩
      · cases heq
      · rw [locked_end (.inl rfl)] at hr'
        obtain rfl := honly r' hr'
        exact .inr ⟨q, hcommitted, hkey, htaken⟩
      · rw [locked_end (.inl rfl)] at hr₁
        exact hinv.apart i j hj.symm r₁ r₂ hr₁ hr₂
      · unfold Returned Own
        rw [locked_end (.inl rfl)]
        refine ⟨hrest, fun b' hb => ?_⟩
        obtain rfl := Option.some.inj (Except.ok.inj hb)
        exact ⟨r, hholds, hreturns⟩

/-! ### Whole sessions -/

theorem harmless_ensures {p : Transaction Row E Unit}
    (hp : p.Issues fun st => Harmless S taken t st ∧ Silent roles i st) (hquiet : ¬ (roles i).Quiet) (h : Own roles i Unlocked l s) :
    Ensures (claiming S refused taken roles) i (statements (p >>= fun _ => pure none))
      (Ends (Committing S taken roles i) (Own roles i Unlocked)) l s := by
  induction p generalizing l s with
  | done _ => exact .returned (persists_committing none).stable h
  | raise e => exact .raised h (persists_own _).stable
  | call st next ih =>
      refine .call h (harmless_triple hp.1.1 hp.1.2 hquiet) fun a l s h => ?_
      exact ih a (hp.2 a) h

theorem statements_ensures (hsafe : (roles i).Safe S taken) (h : Own roles i Beginning l s) :
    Ensures (claiming S refused taken roles) i (statements ((roles i).txn S refused))
      (Ends (Committing S taken roles i) (Own roles i Unlocked)) l s := by
  cases hrole : roles i with
  | other p =>
      rw [hrole] at hsafe
      refine harmless_ensures (hsafe.mono fun st hst => ⟨hst, fun l a r hr => ?_⟩)
        (by rw [hrole]; exact id) h.1
      obtain ⟨c, idle, value, hclaims⟩ := locked_role hr
      cases hrole.symm.trans hclaims
  | claims c idle value =>
      rw [hrole] at hsafe
      obtain ⟨hc, hidle⟩ := hsafe
      refine .call h (lock_triple hrole hc) fun a l s ⟨hnone, hsome⟩ => ?_
      cases a with
      | none =>
          cases idle with
          | done _ => exact .returned (persists_committing none).stable (hnone rfl)
          | raise e => exact .raised (hnone rfl) (persists_own _).stable
          | call st next =>
              refine harmless_ensures (hidle.mono fun st hst => ⟨hst.1, fun l a r hr => ?_⟩)
                (by rw [hrole]; exact id) (hnone rfl)
              rwa [locked_statement hst.2] at hr
      | some r =>
          refine .call (hsome r rfl) (write_triple hc r) fun n l s ⟨hn, htaking⟩ => ?_
          cases n with
          | none => exact absurd rfl hn
          | some n =>
              refine .returned (persists_committing (some (value r))).stable ⟨r, htaking, ?_⟩
              rw [hrole]
              exact rfl

theorem kept (refused : E) (hsafe : ∀ i, (roles i).Safe S taken) :
    (claiming S refused taken roles).Kept (fun i _ s => AtRest i s) (Returned roles) := by
  refine ReadCommitted.kept (fun i o l s h => h.1) fun i l s hinv hrest hnew => ?_
  refine session_ensures commit_triple ((end_triple (.inr rfl)).mono fun _ l s h e => ?_)
    persists_returned (statements_ensures (hsafe i) ⟨fun r hr => ?_, hrest⟩)
  · exact ⟨h.2, fun b hb => by cases hb⟩
  · obtain ⟨c, idle, value, -, hmem⟩ := hr
    exact hnew _ hmem rfl

omit [DecidableEq Table] [DecidableEq Key] in
theorem Inv.untouched {db : Database Row} (hdb : S.Consistent db) :
    Inv S taken roles [] (untouched db : Versions ι Row) where
  coherent := .untouched hdb
  leases := .untouched fun _ _ _ => trivial
  claimed := by
    rintro i r ⟨c, idle, value, -, hmem⟩
    cases hmem
  apart := by
    rintro i j - r r' ⟨c, idle, value, -, hmem⟩
    cases hmem

variable {c : Config ι (SessionOp Row) SessionOp.Answer E (Option B) (Versions ι Row)}

theorem reached {db : Database Row} (hdb : S.Consistent db) (hsafe : ∀ i, (roles i).Safe S taken)
    (h : Runs (system S fun i => (roles i).txn S refused) (.initial (untouched db)) c) :
    Inv S taken roles c.log c.state ∧ ∀ i v, returned c i = some v →
      Returned roles i (.ok v) c.log c.state := by
  obtain ⟨hinv, hstands⟩ := (kept refused hsafe).ensured (.untouched hdb)
    (runs_restricted_true h) fun i => atRest_untouched db
  refine ⟨hinv, fun i v hi => ?_⟩
  have hdone := hstands i
  rw [returned_eq_some hi] at hdone
  exact hdone _ _ .refl hinv

/-- Two sessions that returned rows returned different ones, however their statements were
interleaved. -/
theorem claims_apart {db : Database Row} (hdb : S.Consistent db)
    (hsafe : ∀ i, (roles i).Safe S taken)
    (h : Runs (system S fun i => (roles i).txn S refused) (.initial (untouched db)) c) (hij : i ≠ j)
    {a b : B} (hi : returned c i = some (some a)) (hj : returned c j = some (some b)) :
    ∃ r r', (roles i).Returns r a ∧ (roles j).Returns r' b ∧ S.key t r ≠ S.key t r' := by
  obtain ⟨hinv, hreturned⟩ := reached hdb hsafe h
  obtain ⟨r, hr, hvalue⟩ := (hreturned i _ hi).2 a rfl
  obtain ⟨r', hr', hvalue'⟩ := (hreturned j _ hj).2 b rfl
  exact ⟨r, r', hvalue, hvalue', hinv.apart i j hij r r' hr hr'⟩

/-- What a session returned is committed as taken. -/
theorem claims_taken {db : Database Row} (hdb : S.Consistent db)
    (hsafe : ∀ i, (roles i).Safe S taken)
    (h : Runs (system S fun i => (roles i).txn S refused) (.initial (untouched db)) c)
    {a : B} (hi : returned c i = some (some a)) :
    ∃ r, (roles i).Returns r a ∧
      ∃ q ∈ committedRows c.state t, S.key t q = S.key t r ∧ taken t q := by
  obtain ⟨hinv, hreturned⟩ := reached hdb hsafe h
  obtain ⟨hrest, hvalue⟩ := hreturned i _ hi
  obtain ⟨r, hr, hreturns⟩ := hvalue a rfl
  refine ⟨r, hreturns, (hinv.claimed i r hr).resolve_left ?_⟩
  rintro ⟨q, hq, -⟩
  rw [hrest] at hq
  cases hq

/-- A session that claims and does nothing else can take its next step at any time. -/
theorem claim_waitless {db : Database Row} (hdb : S.Consistent db)
    (hsafe : ∀ i, (roles i).Safe S taken)
    (h : Runs (system S fun i => (roles i).txn S refused) (.initial (untouched db)) c)
    (hquiet : (roles i).Quiet) {op : SessionOp Row}
    {next : op.Answer → Session Row E (Option B)} (hi : c.procs i = some (.call op next)) :
    ∃ a s', perform S i op c.state = some (a, s') := by
  have hdemand := (kept refused hsafe).demand (.untouched hdb)
    (runs_restricted_true h) hi fun i => atRest_untouched db
  obtain ⟨⟨a, s'⟩, hop⟩ := Option.isSome_iff_exists.mp (hdemand hquiet)
  exact ⟨a, s', hop⟩

end

end StarkbankTrial.RowClaims
