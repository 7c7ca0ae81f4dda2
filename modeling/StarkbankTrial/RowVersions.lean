import StarkbankTrial.RelationalTables

/-!
# Rows with uncommitted versions

While a transaction is open its writes are visible to its own session only. A row is kept
with its committed version and, under the lock of one session, the version that this session
has written. A statement reads the latest committed versions and the session's own; `execute`
has no result while the statement must wait, for a row lock or for a session that may still
write or give up a row with which the new one clashes.
-/
namespace StarkbankTrial.RowVersions
open RelationalTables

/-- A stored row. Its lock is held by the session that has a pending version of it. -/
structure Slot (ι R : Type) where
  committed : Option R
  pending : Option (ι × R)
deriving Repr, DecidableEq

namespace Slot
variable {ι R : Type} [DecidableEq ι] (i : ι) (c : Slot ι R)

/-- The version that the session has written. -/
def own : Option R := c.pending.bind fun p => if p.1 = i then some p.2 else none

def heldByOther : Bool := c.pending.any fun p => p.1 ≠ i

/-- What a statement of the session sees. -/
def visible : Option R := (c.own i).or c.committed

/-- What the session sees here stays, unless it changes it itself. -/
def settled : Option R := if c.heldByOther i then none else c.visible i

/-- Of two versions one will stay, depending on how another session ends. -/
def unsettled : List R :=
  if c.heldByOther i then c.committed.toList ++ (c.pending.map Prod.snd).toList else []

/-- The slot under the lock of the session, with a new version. -/
def write (condition : R → Bool) (assign : R → R) : Slot ι R :=
  match c.visible i with
  | some r => if condition r then { c with pending := some (i, assign r) } else c
  | none => c

/-- The slot without the lock of the session. -/
def released (committed : Option R) : Slot ι R :=
  ⟨committed, c.pending.filter fun p => p.1 ≠ i⟩

def commit : Slot ι R := c.released i (c.visible i)

def rollback : Slot ι R := c.released i c.committed

/-- A row that was inserted and given up is nowhere. -/
def stored : Bool := c.committed.isSome || c.pending.isSome

end Slot

/-- All rows of a database with their versions. -/
abbrev Versions {Table : Type} (ι : Type) (Row : Table → Type) :=
  (t : Table) → List (Slot ι (Row t))

section
variable {Table : Type} {Row : Table → Type} {Key : Type} {ι : Type}

/-- The versions of a database that no session has touched. -/
def untouched (db : Database Row) : Versions ι Row := fun t => (db t).map fun r => ⟨some r, none⟩

def committedRows (s : Versions ι Row) : Database Row := fun t => (s t).filterMap Slot.committed

variable [DecidableEq ι]

def view (i : ι) (s : Versions ι Row) : Database Row := fun t => (s t).filterMap (Slot.visible i)

/-- The rows that the session has written and holds. -/
def written (i : ι) (s : Versions ι Row) : Database Row := fun t => (s t).filterMap (Slot.own i)

/-! ### Constraints -/

/-- No version that the session has written clashes with what is seen of another row. -/
def Clear (S : Schema Row Key) (t : Table) (i : ι) (seen : Slot ι (Row t) → List (Row t))
    (slots : List (Slot ι (Row t))) : Prop :=
  slots.Pairwise fun c d =>
    (∀ a ∈ (c.own i).toList, ∀ b ∈ seen d, S.clash t a b = false) ∧
      ∀ a ∈ (d.own i).toList, ∀ b ∈ seen c, S.clash t a b = false

instance (S : Schema Row Key) (t : Table) (i : ι) (seen : Slot ι (Row t) → List (Row t))
    (slots : List (Slot ι (Row t))) : Decidable (Clear S t i seen slots) :=
  inferInstanceAs (Decidable (List.Pairwise _ _))

/-- The checks hold of every version that the session has written, and it clashes with
nothing that stays. -/
def Sound (S : Schema Row Key) (t : Table) (i : ι) (slots : List (Slot ι (Row t))) : Prop :=
  (∀ c ∈ slots, ∀ r ∈ (c.own i).toList, S.check t r = true) ∧
    Clear S t i (fun c => (c.settled i).toList) slots

instance (S : Schema Row Key) (t : Table) (i : ι) (slots : List (Slot ι (Row t))) :
    Decidable (Sound S t i slots) := inferInstanceAs (Decidable (_ ∧ _))

variable [DecidableEq Table]

/-- The versions with other slots in one table. -/
def Versions.set (s : Versions ι Row) (t : Table) (slots : List (Slot ι (Row t))) :
    Versions ι Row := Function.update s t slots

omit [DecidableEq ι] in
@[simp] theorem Versions.set_self (s : Versions ι Row) (t : Table)
    (slots : List (Slot ι (Row t))) : s.set t slots t = slots := Function.update_self _ _ _

omit [DecidableEq ι] in
theorem Versions.set_of_ne (s : Versions ι Row) {t u : Table} (h : u ≠ t)
    (slots : List (Slot ι (Row t))) : s.set t slots u = s u := Function.update_of_ne h _ _

/-- The session writes a table: `false` when a constraint is broken, nothing while it is
open whether one is. -/
def put (S : Schema Row Key) (i : ι) (t : Table) (slots : List (Slot ι (Row t)))
    (s : Versions ι Row) : Option (Bool × Versions ι Row) :=
  if Sound S t i slots then
    if Clear S t i (Slot.unsettled i) slots then some (true, s.set t slots) else none
  else some (false, s)

variable [DecidableEq Key]

/-- The references of a row are among the rows that the session sees. -/
def referenced (S : Schema Row Key) (i : ι) (t : Table) (s : Versions ι Row) (row : Row t) :
    Bool :=
  (S.refs t row).all fun ref => (view i s ref.1).any fun r => S.key ref.1 r == ref.2

def insertSlots (S : Schema Row Key) (i : ι) (t : Table) (rows : List (Row t))
    (s : Versions ι Row) : Option (Bool × Versions ι Row) :=
  if rows.all (referenced S i t s) then
    put S i t (s t ++ rows.map fun r => ⟨none, some (i, r)⟩) s
  else some (false, s)

/-- One statement of a session, when it does not have to wait. -/
def execute (S : Schema Row Key) (i : ι) :
    (st : Statement Row) → Versions ι Row → Option (st.Answer × Versions ι Row)
  | .select t condition, s => some ((view i s t).filter condition, s)
  | .lockFirst t condition before, s =>
      match firstBy before
        ((((s t).filter fun c => !c.heldByOther i).filterMap (Slot.visible i)).filter condition) with
      | none => some (none, s)
      | some r =>
          -- a lock is a write of the row as it is
          (put S i t ((s t).map fun c => if c.heldByOther i then c else
            c.write i (fun r' => S.key t r' == S.key t r) id) s).map fun p => (some r, p.2)
  | .insert t rows, s => insertSlots S i t rows s
  | .insertIfAbsent t row, s =>
      if (s t).any fun c => (c.settled i).any fun r => S.key t r == S.key t row then some (true, s)
      else if (s t).any fun c => (c.unsettled i).any fun r => S.key t r == S.key t row then none
      else insertSlots S i t [row] s
  | .update t condition assign, s =>
      if (s t).any fun c => c.heldByOther i && (c.visible i).any condition then none
      else
        (put S i t ((s t).map fun c => c.write i condition assign) s).map fun p =>
          (if p.1 then some ((view i s t).filter condition).length else none, p.2)

def commit (i : ι) (s : Versions ι Row) : Versions ι Row := fun t => (s t).map (Slot.commit i)

def rollback (i : ι) (s : Versions ι Row) : Versions ι Row :=
  fun t => ((s t).map (Slot.rollback i)).filter Slot.stored

/-! ### One slot -/

namespace Slot
variable {R : Type} {i j : ι} {c c' d d' : Slot ι R} {r : R}

theorem own_eq_some : c.own i = some r ↔ c.pending = some (i, r) := by
  cases hp : c.pending with
  | none => simp [own, hp]
  | some p =>
      obtain ⟨k, q⟩ := p
      simp [own, hp]

theorem heldByOther_eq_false : c.heldByOther i = false ↔ ∀ p ∈ c.pending, p.1 = i := by
  cases hp : c.pending <;> simp [heldByOther, hp]

/-- What a statement of the session does to a slot. -/
def Writes (i : ι) (c c' : Slot ι R) : Prop :=
  c' = c ∨ c.heldByOther i = false ∧ ∃ r, c' = ⟨c.committed, some (i, r)⟩

theorem Writes.committed_eq (h : Writes i c c') : c'.committed = c.committed := by
  rcases h with rfl | ⟨-, r, rfl⟩ <;> rfl

/-- The versions of other sessions stay. -/
theorem Writes.own_eq (h : Writes i c c') (hij : j ≠ i) : c'.own j = c.own j := by
  rcases h with rfl | ⟨hfree, r, rfl⟩
  · rfl
  · have hother : c.own j = none := by
      cases hown : c.own j with
      | none => rfl
      | some q => exact absurd (heldByOther_eq_false.mp hfree _ (own_eq_some.mp hown)) hij
    rw [hother]
    simp [own, hij.symm]

theorem Writes.visible_eq (h : Writes i c c') (hij : j ≠ i) : c'.visible j = c.visible j := by
  rw [visible, visible, h.own_eq hij, h.committed_eq]

section
variable {condition : R → Bool} {assign : R → R}

theorem write_of_true (hr : c.visible i = some r) (hc : condition r = true) :
    c.write i condition assign = ⟨c.committed, some (i, assign r)⟩ := by
  simp [write, hr, hc]

theorem write_of_false (h : ∀ r ∈ c.visible i, condition r = false) :
    c.write i condition assign = c := by
  unfold write
  split
  · next r hr => simp [h r hr]
  · rfl

theorem write_cases (i : ι) (c : Slot ι R) (condition : R → Bool) :
    (∃ r, c.visible i = some r ∧ condition r = true) ∨
      ∀ r ∈ c.visible i, condition r = false := by
  by_cases h : ∃ r, c.visible i = some r ∧ condition r = true
  · exact .inl h
  · exact .inr fun r hr => by simpa using fun hc => h ⟨r, hr, hc⟩

theorem write_writes (h : c.heldByOther i = true → ∀ r ∈ c.visible i, condition r = false) :
    Writes i c (c.write i condition assign) := by
  rcases write_cases i c condition with ⟨r, hr, hc⟩ | hnone
  · refine .inr ⟨?_, _, write_of_true hr hc⟩
    by_contra hheld
    have hnot := h (by simpa using hheld) r hr
    rw [hc] at hnot
    exact Bool.noConfusion hnot
  · exact .inl (write_of_false hnone)

/-- The session sees its write. -/
theorem visible_write : (c.write i condition assign).visible i =
    (c.visible i).map fun r => if condition r then assign r else r := by
  rcases write_cases i c condition with ⟨r, hr, hc⟩ | hnone
  · rw [write_of_true hr hc, hr]
    simp [visible, own, hc]
  · rw [write_of_false hnone]
    cases hv : c.visible i with
    | none => rfl
    | some r => simp [hnone r hv]

theorem own_write : (c.write i condition assign).own i = some r ↔
    (∃ a, c.visible i = some a ∧ condition a = true ∧ assign a = r) ∨
      c.own i = some r ∧ condition r = false := by
  have hvisible : c.own i = some r → c.visible i = some r := fun hown => by simp [visible, hown]
  rcases write_cases i c condition with ⟨a, ha, hc⟩ | hnone
  · rw [write_of_true ha hc]
    constructor
    · intro hown
      exact .inl ⟨a, ha, hc, by simpa [own] using hown⟩
    · rintro (⟨a', ha', -, rfl⟩ | ⟨hown, hr⟩)
      · obtain rfl := Option.some.inj (ha'.symm.trans ha)
        simp [own]
      · obtain rfl := Option.some.inj ((hvisible hown).symm.trans ha)
        rw [hc] at hr
        exact Bool.noConfusion hr
  · rw [write_of_false hnone]
    constructor
    · intro hown
      exact .inr ⟨hown, hnone r (hvisible hown)⟩
    · rintro (⟨a, ha, hc, -⟩ | ⟨hown, -⟩)
      · rw [hnone a ha] at hc
        exact Bool.noConfusion hc
      · exact hown

end

/-! ### The end of a session -/

theorem own_eq_none : c.own i = none ↔ ∀ p ∈ c.pending, p.1 ≠ i := by
  constructor
  · intro h p hp hpi
    rw [own_eq_some.mpr (hpi ▸ hp : c.pending = some (i, p.2))] at h
    cases h
  · intro h
    cases hown : c.own i with
    | none => rfl
    | some q => exact absurd rfl (h _ (own_eq_some.mp hown))

theorem visible_eq_some : c.visible i = some r ↔
    c.pending = some (i, r) ∨ c.committed = some r ∧ ∀ p ∈ c.pending, p.1 ≠ i := by
  rw [← own_eq_none, ← own_eq_some]
  cases hown : c.own i <;> simp [visible, hown]

theorem mem_pending_commit {p : ι × R} :
    p ∈ (c.commit i).pending ↔ p ∈ c.pending ∧ p.1 ≠ i := by
  simp [commit, released, Option.filter_eq_some_iff]

theorem mem_pending_rollback {p : ι × R} :
    p ∈ (c.rollback i).pending ↔ p ∈ c.pending ∧ p.1 ≠ i := by
  simp [rollback, released, Option.filter_eq_some_iff]

theorem own_commit : (c.commit i).own j = some r ↔ c.own j = some r ∧ j ≠ i := by
  rw [own_eq_some, own_eq_some]
  exact mem_pending_commit

theorem own_rollback : (c.rollback i).own j = some r ↔ c.own j = some r ∧ j ≠ i := by
  rw [own_eq_some, own_eq_some]
  exact mem_pending_rollback

/-! ### Two slots -/

/-- The versions of two rows that can come to stand beside each other do not clash. A
committed version under a pending one of the same session can not. -/
structure Compatible (clash : R → R → Bool) (c d : Slot ι R) : Prop where
  committed : ∀ a ∈ c.committed, ∀ b ∈ d.committed, clash a b = false
  left : ∀ p ∈ c.pending, ∀ b ∈ d.committed, (∀ q ∈ d.pending, q.1 ≠ p.1) → clash p.2 b = false
  right : ∀ a ∈ c.committed, ∀ q ∈ d.pending, (∀ p ∈ c.pending, p.1 ≠ q.1) → clash a q.2 = false
  pending : ∀ p ∈ c.pending, ∀ q ∈ d.pending, clash p.2 q.2 = false

/-- What the session's own version is compared with. -/
def seen (i : ι) (c : Slot ι R) : List R := (c.settled i).toList ++ c.unsettled i

theorem mem_seen_of_pending {p : ι × R} (h : p ∈ c.pending) : p.2 ∈ c.seen i := by
  by_cases hp : p.1 = i
  · have hown : c.own i = some p.2 := own_eq_some.mpr (hp ▸ h)
    have hfree : c.heldByOther i = false := heldByOther_eq_false.mpr fun q hq =>
      Option.some.inj (hq.symm.trans h) ▸ hp
    simp [seen, settled, hfree, visible, hown]
  · have hheld : c.heldByOther i = true := by
      by_contra hnot
      exact hp (heldByOther_eq_false.mp (by simpa using hnot) p h)
    have hpending : c.pending = some p := h
    simp [seen, unsettled, hheld, hpending]

theorem mem_seen_of_committed (h : r ∈ c.committed) (hfree : ∀ p ∈ c.pending, p.1 ≠ i) :
    r ∈ c.seen i := by
  have hcommitted : c.committed = some r := h
  have hown : c.own i = none := by
    cases hown : c.own i with
    | none => rfl
    | some q => exact absurd rfl (hfree _ (own_eq_some.mp hown))
  by_cases hheld : c.heldByOther i = true
  · simp [seen, unsettled, hheld, hcommitted]
  · simp [seen, settled, hheld, visible, hown, hcommitted]

namespace Compatible
variable {clash : R → R → Bool}

/-- A write that was compared with what is seen of the other row. -/
theorem writes (h : Compatible clash c d) (hcomm : ∀ a b, clash a b = clash b a)
    (hc : Writes i c c') (hd : Writes i d d')
    (hleft : ∀ a ∈ c'.own i, ∀ b ∈ d'.seen i, clash a b = false)
    (hright : ∀ b ∈ d'.own i, ∀ a ∈ c'.seen i, clash b a = false) : Compatible clash c' d' := by
  have hold : ∀ {c c' : Slot ι R}, Writes i c c' → ∀ p ∈ c'.pending, p.1 ≠ i →
      c' = c := by
    intro c c' hw p hp hne
    rcases hw with rfl | ⟨-, r, rfl⟩
    · rfl
    · obtain rfl := Option.some.inj hp
      exact absurd rfl hne
  have hfree : ∀ {c c' : Slot ι R}, Writes i c c' → ∀ k, k ≠ i → (∀ p ∈ c'.pending, p.1 ≠ k) →
      ∀ p ∈ c.pending, p.1 ≠ k := by
    intro c c' hw k hk hnot p hp
    rcases hw with rfl | ⟨hfree, r, rfl⟩
    · exact hnot p hp
    · exact heldByOther_eq_false.mp hfree p hp ▸ hk.symm
  constructor
  · rw [hc.committed_eq, hd.committed_eq]
    exact h.committed
  · intro p hp b hb hnot
    by_cases hpi : p.1 = i
    · exact hleft p.2 (own_eq_some.mpr (hpi ▸ hp)) b
        (mem_seen_of_committed hb fun q hq => hpi ▸ hnot q hq)
    · obtain rfl := hold hc p hp hpi
      exact h.left p hp b (hd.committed_eq ▸ hb) (hfree hd p.1 hpi hnot)
  · intro a ha q hq hnot
    by_cases hqi : q.1 = i
    · exact (hcomm _ _).trans (hright q.2 (own_eq_some.mpr (hqi ▸ hq)) a
        (mem_seen_of_committed ha fun p hp => hqi ▸ hnot p hp))
    · obtain rfl := hold hd q hq hqi
      exact h.right a (hc.committed_eq ▸ ha) q hq (hfree hc q.1 hqi hnot)
  · intro p hp q hq
    by_cases hpi : p.1 = i
    · exact hleft p.2 (own_eq_some.mpr (hpi ▸ hp)) q.2 (mem_seen_of_pending hq)
    · by_cases hqi : q.1 = i
      · exact (hcomm _ _).trans
          (hright q.2 (own_eq_some.mpr (hqi ▸ hq)) p.2 (mem_seen_of_pending hp))
      · obtain rfl := hold hc p hp hpi
        obtain rfl := hold hd q hq hqi
        exact h.pending p hp q hq

omit [DecidableEq ι] in
theorem empty_left : Compatible clash ⟨none, none⟩ d := by constructor <;> simp

omit [DecidableEq ι] in
theorem empty_right : Compatible clash c ⟨none, none⟩ := by constructor <;> simp

omit [DecidableEq ι] in
theorem symm (h : Compatible clash c d) (hcomm : ∀ a b, clash a b = clash b a) :
    Compatible clash d c where
  committed a ha b hb := (hcomm a b).trans (h.committed b hb a ha)
  left p hp b hb hfree := (hcomm p.2 b).trans (h.right b hb p hp hfree)
  right a ha q hq hfree := (hcomm a q.2).trans (h.left q hq a ha hfree)
  pending p hp q hq := (hcomm p.2 q.2).trans (h.pending q hq p hp)

theorem visible (h : Compatible clash c d) {a b : R} (ha : c.visible i = some a)
    (hb : d.visible i = some b) : clash a b = false := by
  rcases visible_eq_some.mp ha with ha | ⟨ha, hc⟩ <;>
    rcases visible_eq_some.mp hb with hb | ⟨hb, hd⟩
  · exact h.pending _ ha _ hb
  · exact h.left _ ha _ hb hd
  · exact h.right _ ha _ hb hc
  · exact h.committed _ ha _ hb

/-- Without the pending version of the session, what a third one compares with stays. -/
theorem others_pending (i : ι) {k : ι} (hk : k ≠ i)
    (h : ∀ p ∈ d.pending, p.1 ≠ i → p.1 ≠ k) : ∀ p ∈ d.pending, p.1 ≠ k := by
  intro p hp
  by_cases hpi : p.1 = i
  · exact hpi ▸ hk.symm
  · exact h p hp hpi

theorem commit (h : Compatible clash c d) (i : ι) :
    Compatible clash (c.commit i) (d.commit i) := by
  constructor
  · intro a ha b hb
    exact h.visible ha hb
  · intro p hp b hb hnot
    obtain ⟨hp, hpi⟩ := mem_pending_commit.mp hp
    rcases visible_eq_some.mp hb with hb | ⟨hb, -⟩
    · exact h.pending p hp _ hb
    · exact h.left p hp b hb
        (others_pending i hpi fun q hq hqi => hnot q (mem_pending_commit.mpr ⟨hq, hqi⟩))
  · intro a ha q hq hnot
    obtain ⟨hq, hqi⟩ := mem_pending_commit.mp hq
    rcases visible_eq_some.mp ha with ha | ⟨ha, -⟩
    · exact h.pending _ ha q hq
    · exact h.right a ha q hq
        (others_pending i hqi fun p hp hpi => hnot p (mem_pending_commit.mpr ⟨hp, hpi⟩))
  · intro p hp q hq
    exact h.pending p (mem_pending_commit.mp hp).1 q (mem_pending_commit.mp hq).1

theorem rollback (h : Compatible clash c d) (i : ι) :
    Compatible clash (c.rollback i) (d.rollback i) := by
  constructor
  · exact h.committed
  · intro p hp b hb hnot
    obtain ⟨hp, hpi⟩ := mem_pending_rollback.mp hp
    exact h.left p hp b hb
      (others_pending i hpi fun q hq hqi => hnot q (mem_pending_rollback.mpr ⟨hq, hqi⟩))
  · intro a ha q hq hnot
    obtain ⟨hq, hqi⟩ := mem_pending_rollback.mp hq
    exact h.right a ha q hq
      (others_pending i hqi fun p hp hpi => hnot p (mem_pending_rollback.mpr ⟨hp, hpi⟩))
  · intro p hp q hq
    exact h.pending p (mem_pending_rollback.mp hp).1 q (mem_pending_rollback.mp hq).1

end Compatible

end Slot

/-! ### One table -/

section
variable {R : Type} {i j : ι} {slots slots' : List (Slot ι R)}

/-- A table as a statement of the session leaves it: some slots written, some new. -/
def Wrote (i : ι) (slots slots' : List (Slot ι R)) : Prop :=
  ∃ n, List.Forall₂ (Slot.Writes i) (slots ++ List.replicate n ⟨none, none⟩) slots'

theorem wrote_map {f : Slot ι R → Slot ι R} (h : ∀ c ∈ slots, Slot.Writes i c (f c)) :
    Wrote i slots (slots.map f) := by
  refine ⟨0, ?_⟩
  rw [List.replicate_zero, List.append_nil, List.forall₂_map_right_iff, List.forall₂_same]
  exact h

theorem wrote_append (slots : List (Slot ι R)) (rows : List R) :
    Wrote i slots (slots ++ rows.map fun r => ⟨none, some (i, r)⟩) := by
  refine ⟨rows.length, List.rel_append ?_ ?_⟩
  · exact List.forall₂_same.mpr fun c _ => .inl rfl
  · induction rows with
    | nil => exact .nil
    | cons r rows ih => exact .cons (.inr ⟨rfl, r, rfl⟩) ih

/-- What a write does not change of a slot, it does not change of the table. -/
theorem Wrote.filterMap_eq {B : Type} {f : Slot ι R → Option B} (h : Wrote i slots slots')
    (hempty : f ⟨none, none⟩ = none) (hf : ∀ c c', Slot.Writes i c c' → f c' = f c) :
    slots'.filterMap f = slots.filterMap f := by
  have hsame : ∀ {l l' : List (Slot ι R)}, List.Forall₂ (Slot.Writes i) l l' →
      l'.filterMap f = l.filterMap f := by
    intro l l' h
    induction h with
    | nil => rfl
    | cons hw _ ih => rw [List.filterMap_cons, List.filterMap_cons, hf _ _ hw, ih]
  obtain ⟨n, h⟩ := h
  rw [hsame h, List.filterMap_append, List.filterMap_replicate, hempty, List.append_nil]

theorem Wrote.exists_of_mem (h : Wrote i slots slots') {c' : Slot ι R} (hc : c' ∈ slots') :
    ∃ c, (c ∈ slots ∨ c = ⟨none, none⟩) ∧ Slot.Writes i c c' := by
  obtain ⟨n, h⟩ := h
  obtain ⟨hlength, hget⟩ := List.forall₂_iff_get.mp h
  obtain ⟨k, hk, rfl⟩ := List.mem_iff_getElem.mp hc
  refine ⟨_, ?_, hget k (hlength ▸ hk) hk⟩
  rcases List.mem_append.mp (List.getElem_mem (hlength ▸ hk)) with hold | hnew
  · exact .inl hold
  · exact .inr (List.eq_of_mem_replicate hnew)

theorem Wrote.pairwise {P K Q : Slot ι R → Slot ι R → Prop} (h : Wrote i slots slots')
    (hP : slots.Pairwise P) (hempty : ∀ c d, c = ⟨none, none⟩ ∨ d = ⟨none, none⟩ → P c d)
    (hK : slots'.Pairwise K) (hQ : ∀ c d c' d', P c d → Slot.Writes i c c' →
      Slot.Writes i d d' → K c' d' → Q c' d') : slots'.Pairwise Q := by
  obtain ⟨n, h⟩ := h
  have hpadded : (slots ++ List.replicate n (⟨none, none⟩ : Slot ι R)).Pairwise P := by
    refine List.pairwise_append.mpr ⟨hP, ?_, fun c _ d hd =>
      hempty c d (.inr (List.eq_of_mem_replicate hd))⟩
    exact List.pairwise_of_forall_mem_list fun c hc d _ =>
      hempty c d (.inl (List.eq_of_mem_replicate hc))
  obtain ⟨hlength, hget⟩ := List.forall₂_iff_get.mp h
  rw [List.pairwise_iff_getElem] at hpadded hK ⊢
  intro k l hk hl hkl
  have hk' := hlength.symm ▸ hk
  have hl' := hlength.symm ▸ hl
  exact hQ _ _ _ _ (hpadded k l hk' hl' hkl) (hget k hk' hk) (hget l hl' hl) (hK k l hk hl hkl)

end

/-! ### One statement -/

variable {S : Schema Row Key} {i j : ι} {s s' : Versions ι Row}

omit [DecidableEq Key] in
theorem put_eq_some {t : Table} {slots : List (Slot ι (Row t))} {b : Bool} :
    put S i t slots s = some (b, s') ↔
      (b = true ∧ s' = s.set t slots ∧ Sound S t i slots ∧ Clear S t i (Slot.unsettled i) slots) ∨
        (b = false ∧ s' = s ∧ ¬ Sound S t i slots) := by
  unfold put
  split_ifs with hsound hclear
  · simp [hsound, hclear, eq_comm]
  · simp [hsound, hclear]
  · simp [hsound, eq_comm]

/-- The table that the statement is about. -/
def tableOf : Statement Row → Table
  | .select t _ => t
  | .lockFirst t _ _ => t
  | .insert t _ => t
  | .insertIfAbsent t _ => t
  | .update t _ _ => t

/-- A statement leaves everything, or writes some slots of its table within the constraints. -/
theorem execute_cases {st : Statement Row} {a : st.Answer}
    (h : execute S i st s = some (a, s')) : s' = s ∨ ∃ slots, s' = s.set (tableOf st) slots ∧
      Wrote i (s (tableOf st)) slots ∧ Sound S (tableOf st) i slots ∧
        Clear S (tableOf st) i (Slot.unsettled i) slots := by
  have hput : ∀ {t : Table} {slots : List (Slot ι (Row t))} {b : Bool},
      put S i t slots s = some (b, s') → Wrote i (s t) slots → s' = s ∨ ∃ slots,
        s' = s.set t slots ∧ Wrote i (s t) slots ∧ Sound S t i slots ∧
          Clear S t i (Slot.unsettled i) slots := by
    intro t slots b hput hw
    rcases put_eq_some.mp hput with ⟨-, hs, hsound, hclear⟩ | ⟨-, hs, -⟩
    · exact .inr ⟨slots, hs, hw, hsound, hclear⟩
    · exact .inl hs
  have hinsert : ∀ {t : Table} {rows : List (Row t)} {b : Bool},
      insertSlots S i t rows s = some (b, s') → s' = s ∨ ∃ slots,
        s' = s.set t slots ∧ Wrote i (s t) slots ∧ Sound S t i slots ∧
          Clear S t i (Slot.unsettled i) slots := by
    intro t rows b hins
    unfold insertSlots at hins
    split_ifs at hins
    · exact hput hins (wrote_append _ _)
    · exact .inl (Prod.mk.inj (Option.some.inj hins)).2.symm
  cases st with
  | select t condition => exact .inl (Prod.mk.inj (Option.some.inj h)).2.symm
  | lockFirst t condition before =>
      simp only [execute] at h
      split at h
      · exact .inl (Prod.mk.inj (Option.some.inj h)).2.symm
      · obtain ⟨p, hp, hs⟩ := Option.map_eq_some_iff.mp h
        obtain ⟨-, rfl⟩ := Prod.mk.inj hs
        refine hput (t := t) (b := p.1) hp (wrote_map fun c _ => ?_)
        split_ifs with hheld
        · exact .inl rfl
        · exact Slot.write_writes fun hother => absurd hother hheld
  | insert t rows => exact hinsert h
  | insertIfAbsent t row =>
      simp only [execute] at h
      split_ifs at h
      · exact .inl (Prod.mk.inj (Option.some.inj h)).2.symm
      · exact hinsert h
  | update t condition assign =>
      simp only [execute] at h
      split_ifs at h with hwait
      obtain ⟨p, hp, hs⟩ := Option.map_eq_some_iff.mp h
      obtain ⟨-, rfl⟩ := Prod.mk.inj hs
      refine hput (t := t) (b := p.1) hp (wrote_map fun c hc => Slot.write_writes fun hother r hr => ?_)
      by_contra hcondition
      exact hwait (List.any_eq_true.mpr ⟨c, hc, by
        simp [hother, show c.visible i = some r from hr,
          (by simpa using hcondition : condition r = true)]⟩)

/-- What no write of the session changes of a slot, no statement of it changes. -/
theorem execute_filterMap {B : Type} {st : Statement Row} {a : st.Answer}
    (h : execute S i st s = some (a, s')) {t : Table} {f : Slot ι (Row t) → Option B}
    (hempty : f ⟨none, none⟩ = none) (hf : ∀ c c', Slot.Writes i c c' → f c' = f c) :
    (s' t).filterMap f = (s t).filterMap f := by
  rcases execute_cases h with rfl | ⟨slots, rfl, hw, -⟩
  · rfl
  · by_cases htu : t = tableOf st
    · subst htu
      rw [Versions.set_self]
      exact hw.filterMap_eq hempty hf
    · rw [Versions.set_of_ne _ htu]

theorem execute_frame {st : Statement Row} {a : st.Answer} (h : execute S i st s = some (a, s'))
    {t : Table} (ht : t ≠ tableOf st) : s' t = s t := by
  rcases execute_cases h with rfl | ⟨slots, rfl, -⟩
  · rfl
  · rw [Versions.set_of_ne _ ht]

theorem execute_committed {st : Statement Row} {a : st.Answer}
    (h : execute S i st s = some (a, s')) : committedRows s' = committedRows s :=
  funext fun _ => execute_filterMap h rfl fun _ _ hw => hw.committed_eq

theorem execute_written {st : Statement Row} {a : st.Answer}
    (h : execute S i st s = some (a, s')) (hij : j ≠ i) : written j s' = written j s :=
  funext fun _ => execute_filterMap h rfl fun _ _ hw => hw.own_eq hij

/-- A statement that reads, or is about another table. -/
def Leaves (st : Statement Row) (t : Table) : Prop :=
  (∃ u condition, st = .select u condition) ∨ t ≠ tableOf st

theorem execute_leaves {st : Statement Row} {a : st.Answer} {t : Table} (hst : Leaves st t)
    (h : execute S i st s = some (a, s')) : s' t = s t := by
  rcases hst with ⟨u, condition, rfl⟩ | ht
  · obtain ⟨-, rfl⟩ := Prod.mk.inj (Option.some.inj h)
    rfl
  · exact execute_frame h ht

/-- The statements of one session are nothing to the others. -/
theorem execute_view {st : Statement Row} {a : st.Answer}
    (h : execute S i st s = some (a, s')) (hij : j ≠ i) : view j s' = view j s :=
  funext fun _ => execute_filterMap h rfl fun _ _ hw => hw.visible_eq hij

/-- What an update that found its rows free does. -/
structure Updated (i : ι) {t : Table} (condition : Row t → Bool) (assign : Row t → Row t)
    (s s' : Versions ι Row) : Prop where
  frame : ∀ u, u ≠ t → s' u = s u
  slots : s' t = (s t).map fun c => c.write i condition assign
  free : ∀ c ∈ s t, c.heldByOther i = true → ∀ r ∈ c.visible i, condition r = false

section
variable {t : Table} {condition : Row t → Bool} {assign : Row t → Row t}

theorem execute_update {a : Option ℕ}
    (h : execute S i (.update t condition assign) s = some (a, s')) :
    a = none ∧ s' = s ∨ Updated i condition assign s s' := by
  simp only [execute] at h
  split_ifs at h with hwait
  obtain ⟨⟨b, u⟩, hp, hs⟩ := Option.map_eq_some_iff.mp h
  obtain ⟨ha, hu⟩ := Prod.mk.inj hs
  simp only at ha hu
  rw [← hu]
  rcases put_eq_some.mp hp with ⟨-, rfl, -, -⟩ | ⟨hb, rfl, -⟩
  · refine .inr ⟨fun u hu => ?_, ?_, fun c hc hother r hr => ?_⟩
    · rw [Versions.set_of_ne _ hu]
    · rw [Versions.set_self]
    · by_contra hcondition
      exact hwait (List.any_eq_true.mpr ⟨c, hc, by
        simp [hother, show c.visible i = some r from hr,
          (by simpa using hcondition : condition r = true)]⟩)
  · exact .inl ⟨by simpa [hb] using ha.symm, rfl⟩

omit [DecidableEq Table] [DecidableEq Key] in
theorem visible_map_write (slots : List (Slot ι (Row t))) :
    (slots.map fun c => c.write i condition assign).filterMap (Slot.visible i) =
      assignWhere condition assign (slots.filterMap (Slot.visible i)) := by
  simp only [assignWhere, List.filterMap_map, List.map_filterMap]
  exact List.filterMap_congr fun c _ => Slot.visible_write

omit [DecidableEq Table] [DecidableEq Key] in
/-- It is enough that the session sees rows that meet the constraints. -/
theorem sound_of_valid {slots : List (Slot ι (Row t))}
    (h : S.Valid t (slots.filterMap (Slot.visible i))) : Sound S t i slots := by
  have hown : ∀ c : Slot ι (Row t), ∀ r ∈ (c.own i).toList, c.visible i = some r := by
    intro c r hr
    rw [Slot.visible, Option.mem_toList.mp hr, Option.some_or]
  have hsettled : ∀ c : Slot ι (Row t), ∀ r ∈ (c.settled i).toList, c.visible i = some r := by
    intro c r hr
    have hr := Option.mem_toList.mp hr
    unfold Slot.settled at hr
    split_ifs at hr
    exact hr
  refine ⟨fun c hc r hr => h.1 r (List.mem_filterMap.mpr ⟨c, hc, hown c r hr⟩), ?_⟩
  refine (List.pairwise_filterMap.mp h.2).imp fun {c d} hcd => ⟨fun a ha b hb => ?_, fun a ha b hb => ?_⟩
  · exact hcd a (hown c a ha) b (hsettled d b hb)
  · exact (S.clash_comm t a b).trans (hcd b (hsettled c b hb) a (hown d a ha))

/-- Why an update of free rows was refused. -/
theorem execute_update_none (h : execute S i (.update t condition assign) s = some (none, s')) :
    s' = s ∧ ¬ S.Valid t (assignWhere condition assign (view i s t)) := by
  simp only [execute] at h
  split_ifs at h
  obtain ⟨⟨b, u⟩, hp, hs⟩ := Option.map_eq_some_iff.mp h
  obtain ⟨hb, rfl⟩ := Prod.mk.inj hs
  rcases put_eq_some.mp hp with ⟨rfl, -⟩ | ⟨-, rfl, hunsound⟩
  · cases hb
  · refine ⟨rfl, fun hvalid => hunsound (sound_of_valid ?_)⟩
    rw [visible_map_write]
    exact hvalid

omit [DecidableEq Table] [DecidableEq Key] in
theorem Updated.view_eq (h : Updated i condition assign s s') :
    view i s' t = assignWhere condition assign (view i s t) := by
  rw [view, h.slots, visible_map_write]
  rfl

omit [DecidableEq Table] [DecidableEq Key] in
theorem Updated.mem_written (h : Updated i condition assign s s') {r : Row t} :
    r ∈ written i s' t ↔ (∃ a ∈ view i s t, condition a = true ∧ assign a = r) ∨
      r ∈ written i s t ∧ condition r = false := by
  simp only [written, view, h.slots, List.filterMap_map, List.mem_filterMap,
    Function.comp_apply, Slot.own_write]
  constructor
  · rintro ⟨c, hc, ⟨a, ha, hcondition, hassign⟩ | ⟨hown, hcondition⟩⟩
    · exact .inl ⟨a, ⟨c, hc, ha⟩, hcondition, hassign⟩
    · exact .inr ⟨⟨c, hc, hown⟩, hcondition⟩
  · rintro (⟨a, ⟨c, hc, ha⟩, hcondition, hassign⟩ | ⟨⟨c, hc, hown⟩, hcondition⟩)
    · exact ⟨c, hc, .inl ⟨a, ha, hcondition, hassign⟩⟩
    · exact ⟨c, hc, .inr ⟨hown, hcondition⟩⟩

theorem execute_insert_true {row : Row t} (h : execute S i (.insert t [row]) s = some (true, s')) :
    s' = s.set t (s t ++ [⟨none, some (i, row)⟩]) := by
  simp only [execute, insertSlots] at h
  split_ifs at h
  · rcases put_eq_some.mp h with ⟨-, hs, -, -⟩ | ⟨hfalse, -, -⟩
    · exact hs
    · cases hfalse
  · cases h

omit [DecidableEq Table] [DecidableEq Key] in
/-- A row that meets its check and clashes with no committed row is sound. -/
theorem sound_append {row : Row t} (hwritten : written i s t = [])
    (hcheck : S.check t row = true)
    (hclash : ∀ r ∈ committedRows s t, S.clash t row r = false) :
    Sound S t i (s t ++ [⟨none, some (i, row)⟩]) := by
  have hown : ∀ c ∈ s t, c.own i = none := List.filterMap_eq_nil_iff.mp hwritten
  constructor
  · intro c hc r hr
    rcases List.mem_append.mp hc with hc | hc
    · simp [hown c hc] at hr
    · obtain rfl := List.mem_singleton.mp hc
      obtain rfl : r = row := by simpa [Slot.own] using hr
      exact hcheck
  · refine List.pairwise_append.mpr ⟨?_, List.pairwise_singleton _ _, ?_⟩
    · refine List.pairwise_of_forall_mem_list fun c hc d hd => ⟨?_, ?_⟩
      · simp [hown c hc]
      · simp [hown d hd]
    · intro c hc d hd
      obtain rfl := List.mem_singleton.mp hd
      refine ⟨by simp [hown c hc], fun r hr b hb => ?_⟩
      obtain rfl : r = row := by simpa [Slot.own] using hr
      refine hclash b (List.mem_filterMap.mpr ⟨c, hc, ?_⟩)
      have hsettled := Option.mem_toList.mp hb
      simp only [Slot.settled, Slot.visible, hown c hc, Option.none_or] at hsettled
      split_ifs at hsettled
      exact hsettled

/-- Why a session that has written nothing to the table could not insert a row. -/
theorem execute_insert_false {row : Row t} (hwritten : written i s t = [])
    (h : execute S i (.insert t [row]) s = some (false, s')) : s' = s ∧
      (referenced S i t s row = false ∨ S.check t row = false ∨
        ∃ r ∈ committedRows s t, S.clash t row r = true) := by
  simp only [execute, insertSlots] at h
  split_ifs at h with href
  · rcases put_eq_some.mp h with ⟨hfalse, -⟩ | ⟨-, hs, hunsound⟩
    · cases hfalse
    · refine ⟨hs, .inr ?_⟩
      by_contra hnone
      obtain ⟨hcheck, hclash⟩ := not_or.mp hnone
      refine hunsound (sound_append hwritten (by simpa using hcheck) fun r hr => ?_)
      exact Bool.eq_false_iff.mpr fun htrue => hclash ⟨r, hr, htrue⟩
  · obtain ⟨-, rfl⟩ := Prod.mk.inj (Option.some.inj h)
    exact ⟨rfl, .inl (by simpa using href)⟩

end

/-! ### Commit and rollback -/

omit [DecidableEq Table] [DecidableEq Key]

omit [DecidableEq ι] in
theorem committedRows_untouched (db : Database Row) :
    committedRows (untouched db : Versions ι Row) = db := by
  funext t
  simp [committedRows, untouched, List.filterMap_map]

/-- A commit shows everybody what its session saw. -/
theorem committedRows_commit : committedRows (commit i s) = view i s := by
  funext t
  simp only [committedRows, commit, view, List.filterMap_map]
  rfl

theorem written_commit (hij : j ≠ i) : written j (commit i s) = written j s := by
  funext t
  simp only [written, commit, List.filterMap_map]
  refine List.filterMap_congr fun c _ => Option.ext fun r => ?_
  simp [Slot.own_commit, hij]

theorem written_commit_self : written i (commit i s) = fun _ => [] := by
  funext t
  simp only [written, commit, List.filterMap_map, List.filterMap_eq_nil_iff]
  intro c _
  refine Option.eq_none_iff_forall_ne_some.mpr fun r hr => ?_
  exact (Slot.own_commit.mp hr).2 rfl

omit [DecidableEq ι] in
/-- Rows that are nowhere can be left out. -/
theorem filterMap_stored {R B : Type} {f : Slot ι R → Option B} (hempty : f ⟨none, none⟩ = none)
    (slots : List (Slot ι R)) : (slots.filter Slot.stored).filterMap f = slots.filterMap f := by
  rw [List.filterMap_filter]
  refine List.filterMap_congr fun c _ => ?_
  split_ifs with hstored
  · rfl
  · obtain ⟨committed, pending⟩ := c
    cases committed with
    | some r => exact absurd rfl hstored
    | none =>
        cases pending with
        | some p => exact absurd rfl hstored
        | none => exact hempty.symm

theorem committedRows_rollback : committedRows (rollback i s) = committedRows s := by
  funext t
  simp only [committedRows, rollback]
  rw [filterMap_stored rfl, List.filterMap_map]
  rfl

theorem written_rollback (hij : j ≠ i) : written j (rollback i s) = written j s := by
  funext t
  simp only [written, rollback]
  rw [filterMap_stored rfl, List.filterMap_map]
  refine List.filterMap_congr fun c _ => Option.ext fun r => ?_
  simp [Slot.own_rollback, hij]

theorem written_rollback_self : written i (rollback i s) = fun _ => [] := by
  funext t
  simp only [written, rollback]
  rw [filterMap_stored rfl, List.filterMap_map, List.filterMap_eq_nil_iff]
  intro c _
  refine Option.eq_none_iff_forall_ne_some.mpr fun r hr => ?_
  exact (Slot.own_rollback.mp hr).2 rfl

theorem view_rollback (hij : j ≠ i) : view j (rollback i s) = view j s := by
  funext t
  simp only [view, rollback]
  rw [filterMap_stored rfl, List.filterMap_map]
  refine List.filterMap_congr fun c _ => ?_
  have hown : (c.rollback i).own j = c.own j := Option.ext fun r => by
    simp [Slot.own_rollback, hij]
  change (c.rollback i).visible j = c.visible j
  rw [Slot.visible, Slot.visible, hown]
  rfl

theorem view_congr {t : Table} (h : s' t = s t) : view i s' t = view i s t :=
  congrArg (List.filterMap (Slot.visible i)) h

theorem written_congr {t : Table} (h : s' t = s t) : written i s' t = written i s t :=
  congrArg (List.filterMap (Slot.own i)) h

omit [DecidableEq ι] in
theorem committedRows_congr {t : Table} (h : s' t = s t) :
    committedRows s' t = committedRows s t := congrArg (List.filterMap Slot.committed) h

/-- A session that has written nothing sees what is committed. -/
theorem view_of_written_nil {t : Table} (h : written i s t = []) :
    view i s t = committedRows s t := by
  refine List.filterMap_congr fun c hc => ?_
  have hown : c.own i = none := List.filterMap_eq_nil_iff.mp h c hc
  rw [Slot.visible, hown, Option.none_or]

theorem mem_written_view {t : Table} {r : Row t} (h : r ∈ written i s t) : r ∈ view i s t := by
  obtain ⟨c, hc, hown⟩ := List.mem_filterMap.mp h
  exact List.mem_filterMap.mpr ⟨c, hc, by rw [Slot.visible, hown, Option.some_or]⟩

/-- What a session sees is its own or committed. -/
theorem mem_view {t : Table} {r : Row t} (h : r ∈ view i s t) :
    r ∈ written i s t ∨ r ∈ committedRows s t := by
  obtain ⟨c, hc, hr⟩ := List.mem_filterMap.mp h
  rcases Option.or_eq_some_iff.mp hr with hown | ⟨-, hcommitted⟩
  · exact .inl (List.mem_filterMap.mpr ⟨c, hc, hown⟩)
  · exact .inr (List.mem_filterMap.mpr ⟨c, hc, hcommitted⟩)

theorem mem_view_of_committed {t : Table} {r : Row t} (hr : r ∈ committedRows s t)
    (hlast : ∀ c ∈ s t, c.committed = some r → c.pending = none) : r ∈ view i s t := by
  obtain ⟨c, hc, hcommitted⟩ := List.mem_filterMap.mp hr
  refine List.mem_filterMap.mpr ⟨c, hc, Slot.visible_eq_some.mpr (.inr ⟨hcommitted, ?_⟩)⟩
  simp [hlast c hc hcommitted]

/-- A row stays in the sight of a session when no other one has a new version of it. -/
theorem mem_view_commit {t : Table} {r : Row t} (hij : j ≠ i) (hr : r ∈ view j s t)
    (hlast : ∀ c ∈ s t, c.committed = some r → c.pending = none) :
    r ∈ view j (commit i s) t := by
  obtain ⟨c, hc, hvisible⟩ := List.mem_filterMap.mp hr
  refine List.mem_filterMap.mpr ⟨c.commit i, List.mem_map_of_mem hc, ?_⟩
  rcases Slot.visible_eq_some.mp hvisible with hpending | ⟨hcommitted, -⟩
  · exact Slot.visible_eq_some.mpr (.inl (Slot.mem_pending_commit.mpr ⟨hpending, hij⟩))
  · have hnone := hlast c hc hcommitted
    refine Slot.visible_eq_some.mpr (.inr ⟨?_, fun p hp => ?_⟩)
    · exact Slot.visible_eq_some.mpr (.inr ⟨hcommitted, by simp [hnone]⟩)
    · have hpending := (Slot.mem_pending_commit.mp hp).1
      rw [hnone] at hpending
      cases hpending

/-! ### Invariants of single rows -/

/-- What is so of every version of a row, and of a pending one beside the committed one. -/
structure RowInvariant (ι : Type) {Table : Type} (Row : Table → Type) where
  version : (t : Table) → Row t → Prop
  pending : (t : Table) → ι → Option (Row t) → Row t → Prop

structure RowInvariant.Holds (R : RowInvariant ι Row) (s : Versions ι Row) : Prop where
  version : ∀ t, ∀ c ∈ s t, ∀ r, (c.committed = some r ∨ ∃ k, c.pending = some (k, r)) →
    R.version t r
  pending : ∀ t, ∀ c ∈ s t, ∀ k r, c.pending = some (k, r) → R.pending t k c.committed r

/-- The versions that the statement can write meet the invariant. -/
def RowInvariant.Permits (R : RowInvariant ι Row) (i : ι) (s : Versions ι Row) :
    Statement Row → Prop
  | .select _ _ => True
  | .lockFirst t _ _ => ∀ c ∈ s t, c.heldByOther i = false → ∀ r ∈ c.visible i,
      R.pending t i c.committed r
  | .insert t rows => ∀ r ∈ rows, R.version t r ∧ R.pending t i none r
  | .insertIfAbsent t row => R.version t row ∧ R.pending t i none row
  | .update t condition assign => ∀ c ∈ s t, c.heldByOther i = false → ∀ r ∈ c.visible i,
      condition r = true → R.version t (assign r) ∧ R.pending t i c.committed (assign r)

namespace RowInvariant.Holds
variable {R : RowInvariant ι Row} {t : Table} {r : Row t}

omit [DecidableEq ι] in
theorem untouched {db : Database Row} (h : ∀ t, ∀ r ∈ db t, R.version t r) :
    R.Holds (untouched db) := by
  constructor
  · intro t c hc r hr
    obtain ⟨r', hr', rfl⟩ := List.mem_map.mp hc
    rcases hr with hr | ⟨k, hk⟩
    · exact Option.some.inj hr ▸ h t r' hr'
    · cases hk
  · intro t c hc k r hr
    obtain ⟨r', -, rfl⟩ := List.mem_map.mp hc
    cases hr

omit [DecidableEq ι] in
theorem of_committed (h : R.Holds s) (hr : r ∈ RowVersions.committedRows s t) :
    R.version t r := by
  obtain ⟨c, hc, hcommitted⟩ := List.mem_filterMap.mp hr
  exact h.version t c hc r (.inl hcommitted)

theorem of_written (h : R.Holds s) (hr : r ∈ written i s t) : R.version t r := by
  obtain ⟨c, hc, hown⟩ := List.mem_filterMap.mp hr
  exact h.version t c hc r (.inr ⟨i, Slot.own_eq_some.mp hown⟩)

theorem of_view (h : R.Holds s) (hr : r ∈ view i s t) : R.version t r :=
  (mem_view hr).elim h.of_written h.of_committed

omit [DecidableEq ι] in
/-- A committed row that no pending version may replace stays. -/
theorem lasts (h : R.Holds s) (hr : ∀ k q, ¬ R.pending t k (some r) q) :
    ∀ c ∈ s t, c.committed = some r → c.pending = none := by
  intro c hc hcommitted
  refine Option.eq_none_iff_forall_ne_some.mpr fun p hp => ?_
  exact hr p.1 p.2 (hcommitted ▸ h.pending t c hc p.1 p.2 hp)

theorem commit (h : R.Holds s) : R.Holds (commit i s) := by
  constructor
  · intro t c' hc' r hr
    obtain ⟨c, hc, rfl⟩ := List.mem_map.mp hc'
    rcases hr with hr | ⟨k, hk⟩
    · rcases Slot.visible_eq_some.mp hr with hpending | ⟨hcommitted, -⟩
      · exact h.version t c hc r (.inr ⟨i, hpending⟩)
      · exact h.version t c hc r (.inl hcommitted)
    · exact h.version t c hc r (.inr ⟨k, (Slot.mem_pending_commit.mp hk).1⟩)
  · intro t c' hc' k r hr
    obtain ⟨c, hc, rfl⟩ := List.mem_map.mp hc'
    obtain ⟨hpending, hki⟩ := Slot.mem_pending_commit.mp hr
    have hown : c.own i = none := Slot.own_eq_none.mpr fun p hp =>
      Option.some.inj (hp.symm.trans hpending) ▸ hki
    have hcommitted : (c.commit i).committed = c.committed := by
      change c.visible i = c.committed
      rw [Slot.visible, hown, Option.none_or]
    rw [hcommitted]
    exact h.pending t c hc k r hpending

theorem rollback (h : R.Holds s) : R.Holds (rollback i s) := by
  constructor
  · intro t c' hc' r hr
    obtain ⟨c, hc, rfl⟩ := List.mem_map.mp (List.mem_of_mem_filter hc')
    rcases hr with hr | ⟨k, hk⟩
    · exact h.version t c hc r (.inl hr)
    · exact h.version t c hc r (.inr ⟨k, (Slot.mem_pending_rollback.mp hk).1⟩)
  · intro t c' hc' k r hr
    obtain ⟨c, hc, rfl⟩ := List.mem_map.mp (List.mem_of_mem_filter hc')
    exact h.pending t c hc k r (Slot.mem_pending_rollback.mp hr).1

variable [DecidableEq Table]

omit [DecidableEq ι] in
/-- Slots that are as before, or written with a version that meets the invariant. -/
theorem set (h : R.Holds s) {slots : List (Slot ι (Row t))}
    (hslots : ∀ c ∈ slots, c ∈ s t ∨ ∃ c₀ r, (c₀ ∈ s t ∨ c₀.committed = none) ∧
      c = ⟨c₀.committed, some (i, r)⟩ ∧ R.version t r ∧ R.pending t i c₀.committed r) :
    R.Holds (s.set t slots) := by
  constructor
  · intro u
    by_cases hu : u = t
    · subst hu
      rw [Versions.set_self]
      intro c hc r hr
      rcases hslots c hc with hold | ⟨c₀, q, hc₀, rfl, hversion, -⟩
      · exact h.version u c hold r hr
      · rcases hr with hcommitted | ⟨k, hk⟩
        · rcases hc₀ with hc₀ | hnone
          · exact h.version u c₀ hc₀ r (.inl hcommitted)
          · cases hnone.symm.trans hcommitted
        · obtain ⟨-, rfl⟩ := Prod.mk.inj (Option.some.inj hk)
          exact hversion
    · rw [Versions.set_of_ne _ hu]
      exact h.version u
  · intro u
    by_cases hu : u = t
    · subst hu
      rw [Versions.set_self]
      intro c hc k r hr
      rcases hslots c hc with hold | ⟨c₀, q, -, rfl, -, hpending⟩
      · exact h.pending u c hold k r hr
      · obtain ⟨rfl, rfl⟩ := Prod.mk.inj (Option.some.inj hr)
        exact hpending
    · rw [Versions.set_of_ne _ hu]
      exact h.pending u

variable [DecidableEq Key]

theorem execute (h : R.Holds s) {st : Statement Row} {a : st.Answer} (hst : R.Permits i s st)
    (he : execute S i st s = some (a, s')) : R.Holds s' := by
  have hput : ∀ {t : Table} {slots : List (Slot ι (Row t))} {b : Bool},
      put S i t slots s = some (b, s') → (∀ c ∈ slots, c ∈ s t ∨ ∃ c₀ r,
        (c₀ ∈ s t ∨ c₀.committed = none) ∧ c = ⟨c₀.committed, some (i, r)⟩ ∧ R.version t r ∧
          R.pending t i c₀.committed r) → R.Holds s' := by
    intro t slots b hput hslots
    rcases put_eq_some.mp hput with ⟨-, rfl, -, -⟩ | ⟨-, rfl, -⟩
    · exact h.set hslots
    · exact h
  have hinsert : ∀ {t : Table} {rows : List (Row t)} {b : Bool},
      insertSlots S i t rows s = some (b, s') →
      (∀ r ∈ rows, R.version t r ∧ R.pending t i none r) → R.Holds s' := by
    intro t rows b hins hrows
    unfold insertSlots at hins
    split_ifs at hins
    · refine hput hins fun c hc => ?_
      rcases List.mem_append.mp hc with hold | hnew
      · exact .inl hold
      · obtain ⟨r, hr, rfl⟩ := List.mem_map.mp hnew
        exact .inr ⟨⟨none, none⟩, r, .inr rfl, rfl, hrows r hr⟩
    · exact (Prod.mk.inj (Option.some.inj hins)).2 ▸ h
  cases st with
  | select t condition => exact (Prod.mk.inj (Option.some.inj he)).2 ▸ h
  | lockFirst t condition before =>
      simp only [RowVersions.execute] at he
      split at he
      · exact (Prod.mk.inj (Option.some.inj he)).2 ▸ h
      · obtain ⟨p, hp, hs⟩ := Option.map_eq_some_iff.mp he
        obtain ⟨-, rfl⟩ := Prod.mk.inj hs
        refine hput (b := p.1) hp fun c' hc' => ?_
        obtain ⟨c, hc, rfl⟩ := List.mem_map.mp hc'
        split_ifs with hheld
        · exact .inl hc
        · have hfree : c.heldByOther i = false := by simpa using hheld
          rcases Slot.write_cases i c (fun r' => S.key t r' == S.key t _) with
            ⟨r, hr, hkey⟩ | hnone
          · rw [Slot.write_of_true hr hkey]
            refine .inr ⟨c, r, .inl hc, rfl, h.version t c hc r ?_, hst c hc hfree r hr⟩
            rcases Slot.visible_eq_some.mp hr with hpending | ⟨hcommitted, -⟩
            · exact .inr ⟨i, hpending⟩
            · exact .inl hcommitted
          · rw [Slot.write_of_false hnone]
            exact .inl hc
  | insert t rows => exact hinsert he hst
  | insertIfAbsent t row =>
      simp only [RowVersions.execute] at he
      split_ifs at he
      · exact (Prod.mk.inj (Option.some.inj he)).2 ▸ h
      · exact hinsert he fun r hr => List.mem_singleton.mp hr ▸ hst
  | update t condition assign =>
      rcases execute_update he with ⟨-, rfl⟩ | hupdated
      · exact h
      · have hs' : s' = s.set t ((s t).map fun c => c.write i condition assign) := by
          funext u
          by_cases hu : u = t
          · subst hu
            rw [Versions.set_self, hupdated.slots]
          · rw [Versions.set_of_ne _ hu, hupdated.frame u hu]
        rw [hs']
        refine h.set (i := i) fun c' hc' => ?_
        obtain ⟨c, hc, rfl⟩ := List.mem_map.mp hc'
        rcases Slot.write_cases i c condition with ⟨r, hr, hcondition⟩ | hnone
        · have hfree : c.heldByOther i = false := by
            by_contra hheld
            have hnot := hupdated.free c hc (by simpa using hheld) r hr
            rw [hcondition] at hnot
            cases hnot
          rw [Slot.write_of_true hr hcondition]
          exact .inr ⟨c, assign r, .inl hc, rfl, hst c hc hfree r hr hcondition⟩
        · rw [Slot.write_of_false hnone]
          exact .inl hc

end RowInvariant.Holds

/-! ### Databases that keep their constraints -/

variable [DecidableEq Table] [DecidableEq Key]

/-- Checks hold of every version, and versions that can come to stand beside each other do
not clash. -/
structure Coherent (S : Schema Row Key) (s : Versions ι Row) : Prop where
  checks : ∀ t, ∀ c ∈ s t, ∀ r, (c.committed = some r ∨ ∃ k, c.pending = some (k, r)) →
    S.check t r = true
  apart : ∀ t, (s t).Pairwise (Slot.Compatible (S.clash t))

namespace Coherent

omit [DecidableEq ι] [DecidableEq Table] [DecidableEq Key] in
theorem untouched {db : Database Row} (h : S.Consistent db) :
    Coherent S (untouched db : Versions ι Row) := by
  constructor
  · intro t c hc r hr
    obtain ⟨r', hr', rfl⟩ := List.mem_map.mp hc
    rcases hr with hr | ⟨k, hk⟩
    · exact Option.some.inj hr ▸ (h t).1 r' hr'
    · cases hk
  · intro t
    refine List.pairwise_map.mpr ((h t).2.imp fun {a b} hab => ?_)
    constructor <;> simp [hab]

omit [DecidableEq Key] in
theorem write (h : Coherent S s) {t : Table} {slots : List (Slot ι (Row t))}
    (hw : Wrote i (s t) slots) (hsound : Sound S t i slots)
    (hclear : Clear S t i (Slot.unsettled i) slots) : Coherent S (s.set t slots) := by
  constructor
  · intro u
    by_cases hu : u = t
    · subst hu
      rw [Versions.set_self]
      intro c' hc' r hr
      obtain ⟨c, hc, hwrites⟩ := hw.exists_of_mem hc'
      have hold : ∀ r, (c.committed = some r ∨ ∃ k, c.pending = some (k, r)) →
          S.check u r = true := by
        rcases hc with hc | rfl
        · exact h.checks u c hc
        · simp
      rcases hwrites with rfl | ⟨-, q, rfl⟩
      · exact hold r hr
      · rcases hr with hcommitted | ⟨k, hpending⟩
        · exact hold r (.inl hcommitted)
        · obtain ⟨rfl, rfl⟩ := Prod.mk.inj (Option.some.inj hpending)
          exact hsound.1 _ hc' _ (by simp [Slot.own])
    · rw [Versions.set_of_ne _ hu]
      exact h.checks u
  · intro u
    by_cases hu : u = t
    · subst hu
      rw [Versions.set_self]
      refine hw.pairwise (h.apart u) ?_ (hsound.2.and hclear) ?_
      · rintro c d (rfl | rfl)
        · exact .empty_left
        · exact .empty_right
      · intro c d c' d' hcd hc hd hclear
        obtain ⟨⟨hleft, hright⟩, hleft', hright'⟩ := hclear
        refine hcd.writes (S.clash_comm u) hc hd (fun a ha b hb => ?_) fun b hb a ha => ?_
        · exact (List.mem_append.mp hb).elim (hleft a (Option.mem_toList.mpr ha) b)
            (hleft' a (Option.mem_toList.mpr ha) b)
        · exact (List.mem_append.mp ha).elim (hright b (Option.mem_toList.mpr hb) a)
            (hright' b (Option.mem_toList.mpr hb) a)
    · rw [Versions.set_of_ne _ hu]
      exact h.apart u

theorem execute (h : Coherent S s) {st : Statement Row} {a : st.Answer}
    (he : execute S i st s = some (a, s')) : Coherent S s' := by
  rcases execute_cases he with rfl | ⟨slots, rfl, hw, hsound, hclear⟩
  · exact h
  · exact h.write hw hsound hclear

omit [DecidableEq Table] [DecidableEq Key]

theorem commit (h : Coherent S s) : Coherent S (commit i s) := by
  constructor
  · intro t c' hc' r hr
    obtain ⟨c, hc, rfl⟩ := List.mem_map.mp hc'
    rcases hr with hr | ⟨k, hk⟩
    · rcases Slot.visible_eq_some.mp hr with hpending | ⟨hcommitted, -⟩
      · exact h.checks t c hc r (.inr ⟨i, hpending⟩)
      · exact h.checks t c hc r (.inl hcommitted)
    · exact h.checks t c hc r (.inr ⟨k, (Slot.mem_pending_commit.mp hk).1⟩)
  · exact fun t => List.pairwise_map.mpr ((h.apart t).imp fun hcd => hcd.commit i)

theorem rollback (h : Coherent S s) : Coherent S (rollback i s) := by
  constructor
  · intro t c' hc' r hr
    obtain ⟨c, hc, rfl⟩ := List.mem_map.mp (List.mem_of_mem_filter hc')
    rcases hr with hr | ⟨k, hk⟩
    · exact h.checks t c hc r (.inl hr)
    · exact h.checks t c hc r (.inr ⟨k, (Slot.mem_pending_rollback.mp hk).1⟩)
  · exact fun t => (List.pairwise_map.mpr ((h.apart t).imp fun hcd => hcd.rollback i)).filter _

/-- Every session sees a database that meets the constraints. -/
theorem view (h : Coherent S s) (i : ι) : S.Consistent (view i s) := by
  refine fun t => ⟨fun r hr => ?_, ?_⟩
  · obtain ⟨c, hc, hvisible⟩ := List.mem_filterMap.mp hr
    rcases Slot.visible_eq_some.mp hvisible with hpending | ⟨hcommitted, -⟩
    · exact h.checks t c hc r (.inr ⟨i, hpending⟩)
    · exact h.checks t c hc r (.inl hcommitted)
  · refine List.pairwise_filterMap.mpr ((h.apart t).imp ?_)
    intro c d hcd a ha b hb
    exact hcd.visible ha hb

/-- A row that the session sees under the key of a row that it has written is that row. -/
theorem own_of_key (h : Coherent S s) {t : Table} {r r' : Row t} (hr : r ∈ written i s t)
    {c : Slot ι (Row t)} (hc : c ∈ s t) (hr' : c.visible i = some r')
    (hkey : S.key t r = S.key t r') : c.own i = some r' := by
  obtain ⟨c₀, hc₀, hown⟩ := List.mem_filterMap.mp hr
  by_cases hsame : c₀ = c
  · subst hsame
    rw [Slot.visible, hown, Option.some_or] at hr'
    rw [hown, hr']
  · have : Std.Symm (Slot.Compatible (ι := ι) (S.clash t)) :=
      ⟨fun _ _ hcd => hcd.symm (S.clash_comm t)⟩
    have hcd := (h.apart t).forall hc₀ hc hsame
    have hclash := hcd.visible (show c₀.visible i = some r by simp [Slot.visible, hown]) hr'
    rw [S.clash_of_key t r r' hkey] at hclash
    cases hclash

/-- Two sessions never have written rows that clash. -/
theorem written_apart (h : Coherent S s) (hij : i ≠ j) {t : Table} {r r' : Row t}
    (hr : r ∈ written i s t) (hr' : r' ∈ written j s t) : S.clash t r r' = false := by
  obtain ⟨c, hc, hown⟩ := List.mem_filterMap.mp hr
  obtain ⟨d, hd, hown'⟩ := List.mem_filterMap.mp hr'
  have hpending := Slot.own_eq_some.mp hown
  have hpending' := Slot.own_eq_some.mp hown'
  have hne : c ≠ d := by
    rintro rfl
    exact hij (Prod.mk.inj (Option.some.inj (hpending.symm.trans hpending'))).1
  have : Std.Symm (Slot.Compatible (S.clash t) : Slot ι (Row t) → Slot ι (Row t) → Prop) :=
    ⟨fun _ _ hcd => hcd.symm (S.clash_comm t)⟩
  exact ((h.apart t).forall hc hd hne).pending _ hpending _ hpending'

omit [DecidableEq ι] in
theorem committedRows (h : Coherent S s) : S.Consistent (committedRows s) := by
  refine fun t => ⟨fun r hr => ?_, ?_⟩
  · obtain ⟨c, hc, hcommitted⟩ := List.mem_filterMap.mp hr
    exact h.checks t c hc r (.inl hcommitted)
  · refine List.pairwise_filterMap.mpr ((h.apart t).imp ?_)
    intro c d hcd
    exact hcd.committed

end Coherent

end

end StarkbankTrial.RowVersions
