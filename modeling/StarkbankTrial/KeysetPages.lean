import Mathlib.Data.List.Sort
import Mathlib.Order.Defs.LinearOrder
import Mathlib.Tactic.SplitIfs
import Mathlib.Tactic.Ring

/-!
# Pages behind a key

A reader asks for the rows of a table in descending order of a key, `limit` rows at
a time. A fetch selects the rows behind a cursor and asks for one row more than it
shows: that row tells whether another page follows, and the key of the last row
shown is the next cursor. The table may grow between two fetches; what matters is
that the new rows sort before the cursor.
-/
namespace StarkbankTrial.KeysetPages

section
variable {R K : Type} [LinearOrder K]

/-- `ORDER BY key DESC`. -/
def descending (key : R → K) (rows : List R) : List R :=
  rows.insertionSort fun a b => key b ≤ key a

/-- The rows that a cursor leaves to be read. -/
def behind (key : R → K) (cursor : Option K) (rows : List R) : List R :=
  rows.filter fun r => cursor.all fun c => key r < c

structure Page (R K : Type) where
  items : List R
  next : Option K

def fetch (key : R → K) (limit : ℕ) (rows : List R) (cursor : Option K) : Page R K :=
  let found := (descending key (behind key cursor rows)).take (limit + 1)
  { items := found.take limit
    next := if limit < found.length then (found[limit - 1]?).map key else none }

/-- The k-th fetch of a reader who follows the cursors, while there is one. -/
def reading {P C : Type} (fetch : ℕ → Option C → P) (next : P → Option C) : ℕ → Option P
  | 0 => some (fetch 0 none)
  | k + 1 =>
      (reading fetch next k).bind fun page => (next page).map fun c => fetch (k + 1) (some c)

/-- Rows were only added, and all of them before the cursor. -/
def Extends (key : R → K) (cursor : K) (rows rows' : List R) : Prop :=
  (∀ r ∈ rows, r ∈ rows') ∧ ∀ r ∈ rows', r ∉ rows → cursor < key r

section
variable {P C : Type} {fetch : ℕ → Option C → P} {next : P → Option C} {k : ℕ} {page : P}

theorem reading_succ {c : C} (h : reading fetch next k = some page) (hc : next page = some c) :
    reading fetch next (k + 1) = some (fetch (k + 1) (some c)) := by
  simp [reading, h, hc]

theorem reading_last (h : ∀ page ∈ reading fetch next k, next page = none) :
    reading fetch next (k + 1) = none := by
  cases hk : reading fetch next k with
  | none => simp [reading, hk]
  | some page => simp [reading, hk, h page hk]

end

/-! ### The order of the rows -/

variable {key : R → K} {rows rows' : List R} {cursor : Option K} {c : K} {limit : ℕ}

@[simp] theorem mem_descending {r : R} : r ∈ descending key rows ↔ r ∈ rows :=
  List.mem_insertionSort _

theorem descending_perm : (descending key rows).Perm rows := List.perm_insertionSort _ rows

@[simp] theorem mem_behind {r : R} :
    r ∈ behind key cursor rows ↔ r ∈ rows ∧ ∀ c ∈ cursor, key r < c := by
  simp [behind, Option.all_eq_true]

/-- Different rows have different keys. -/
abbrev Keyed (key : R → K) (rows : List R) : Prop := (rows.map key).Nodup

theorem Keyed.behind (h : Keyed key rows) : Keyed key (behind key cursor rows) :=
  h.sublist ((List.filter_sublist).map key)

theorem Keyed.descending (h : Keyed key rows) :
    (descending key rows).Pairwise fun a b => key b < key a := by
  have hsorted : (KeysetPages.descending key rows).Pairwise fun a b => key b ≤ key a := by
    have : Std.Total fun a b : R => key b ≤ key a := ⟨fun a b => le_total (key b) (key a)⟩
    have : IsTrans R fun a b : R => key b ≤ key a := ⟨fun a b c hab hbc => hbc.trans hab⟩
    exact List.pairwise_insertionSort _ rows
  have hdistinct : (KeysetPages.descending key rows).Pairwise fun a b => key a ≠ key b :=
    List.pairwise_map.mp ((descending_perm.map key).nodup_iff.mpr h)
  refine (hsorted.and hdistinct).imp ?_
  intro a b hab
  exact lt_of_le_of_ne hab.1 (Ne.symm hab.2)

/-- A strictly descending list is fixed by its members. -/
theorem eq_of_descending (h : rows.Pairwise fun a b => key b < key a)
    (h' : rows'.Pairwise fun a b => key b < key a) (hmem : ∀ r, r ∈ rows ↔ r ∈ rows') :
    rows = rows' := by
  have : Std.Antisymm fun a b : R => key b < key a :=
    ⟨fun a b hab hba => absurd hab (lt_asymm hba)⟩
  have : Std.Irrefl fun a b : R => key b < key a := ⟨fun a => lt_irrefl (key a)⟩
  exact List.Pairwise.eq_of_mem_iff h h' hmem

/-- In a strictly descending list the rows behind one of its keys are the rest. -/
theorem filter_behind {i : ℕ} {r : R} (h : rows.Pairwise fun a b => key b < key a)
    (hr : rows[i]? = some r) : rows.filter (fun x => key x < key r) = rows.drop (i + 1) := by
  induction rows generalizing i with
  | nil => simp at hr
  | cons a rows ih =>
      obtain ⟨ha, hrows⟩ := List.pairwise_cons.mp h
      cases i with
      | zero =>
          obtain rfl : a = r := by simpa using hr
          rw [List.filter_cons_of_neg (by simp)]
          simpa [List.filter_eq_self] using ha
      | succ i =>
          have hr' : rows[i]? = some r := by simpa using hr
          have hlt := ha r (List.mem_of_getElem? hr')
          rw [List.filter_cons_of_neg (by simpa using hlt.le), ih hrows hr', List.drop_succ_cons]

/-! ### One fetch -/

theorem fetch_items : (fetch key limit rows cursor).items =
    (descending key (behind key cursor rows)).take limit := by
  simp [fetch, List.take_take]

/-- Rows that fit on one page are all on the first. -/
theorem fetch_full (h : rows.length ≤ limit) :
    (fetch key limit rows none).items = descending key rows := by
  have hall : behind key none rows = rows := by simp [behind]
  rw [fetch_items, hall, List.take_of_length_le (descending_perm.length_eq.trans_le h)]

theorem fetch_next (hlimit : 0 < limit) : (fetch key limit rows cursor).next =
    if limit < (descending key (behind key cursor rows)).length then
      ((descending key (behind key cursor rows))[limit - 1]?).map key else none := by
  have hlast : limit - 1 < limit + 1 := by omega
  simp only [fetch, List.length_take, lt_min_iff, Nat.lt_succ_self, true_and,
    List.getElem?_take_of_lt hlast]

theorem mem_of_items {r : R} (h : r ∈ (fetch key limit rows cursor).items) : r ∈ rows := by
  rw [fetch_items] at h
  exact (mem_behind.mp (mem_descending.mp (List.mem_of_mem_take h))).1

/-- The next cursor is the key of a row of the table. -/
theorem mem_of_next (h : (fetch key limit rows cursor).next = some c) :
    ∃ r ∈ rows, key r = c := by
  simp only [fetch] at h
  split_ifs at h with hmore
  obtain ⟨r, hr, hc⟩ := Option.map_eq_some_iff.mp h
  have hfound := List.mem_of_mem_take (List.mem_of_getElem? hr)
  exact ⟨r, (mem_behind.mp (mem_descending.mp hfound)).1, hc⟩

/-- What a page leaves is what the next fetch lists, also after rows were added. -/
theorem behind_next (hlimit : 0 < limit) (h : Keyed key rows) (h' : Keyed key rows')
    (hnext : (fetch key limit rows cursor).next = some c) (hext : Extends key c rows rows') :
    descending key (behind key (some c) rows') =
      (descending key (behind key cursor rows)).drop limit := by
  rw [fetch_next hlimit] at hnext
  split_ifs at hnext with hmore
  obtain ⟨last, hlast, rfl⟩ := Option.map_eq_some_iff.mp hnext
  have hbehind := mem_behind.mp (mem_descending.mp (List.mem_of_getElem? hlast))
  have hdrop := filter_behind h.behind.descending hlast
  rw [Nat.sub_add_cancel hlimit] at hdrop
  rw [← hdrop]
  have hsub : ((descending key (behind key cursor rows)).filter
      fun x => key x < key last).Pairwise fun a b => key b < key a :=
    h.behind.descending.sublist List.filter_sublist
  refine eq_of_descending h'.behind.descending hsub ?_
  intro r
  simp only [mem_descending, mem_behind, List.mem_filter, Option.mem_def, Option.some.injEq,
    forall_eq', decide_eq_true_eq]
  constructor
  · rintro ⟨hr, hlt⟩
    have hold : r ∈ rows := by
      by_contra hnew
      exact lt_asymm hlt (hext.2 r hr hnew)
    exact ⟨⟨hold, fun d hd => hlt.trans (hbehind.2 d hd)⟩, hlt⟩
  · rintro ⟨⟨hr, -⟩, hlt⟩
    exact ⟨hext.1 r hr, hlt⟩

/-- Rows that stand for others under the same keys are fetched in the same way. -/
theorem fetch_map {J : Type} (f : J → R) (rows : List J) :
    fetch key limit (rows.map f) cursor =
      { items := (fetch (key ∘ f) limit rows cursor).items.map f
        next := (fetch (key ∘ f) limit rows cursor).next } := by
  have hbehind : behind key cursor (rows.map f) = (behind (key ∘ f) cursor rows).map f := by
    simp only [behind, List.filter_map]
    rfl
  have hsorted : ∀ rows : List J,
      descending key (rows.map f) = (descending (key ∘ f) rows).map f :=
    fun rows => (List.map_insertionSort _ _ f rows fun a _ b _ => Iff.rfl).symm
  simp only [fetch, hbehind, hsorted, ← List.map_take, List.length_map, List.getElem?_map,
    Option.map_map, Function.comp_def]

/-! ### A whole reading -/

section
variable {P P' C C' : Type}

/-- Two readers stay together when their fetches answer related pages, with the same next
cursor written differently. -/
theorem reading_related (fetch : ℕ → Option C → P) (fetch' : ℕ → Option C' → P')
    (next : P → Option C) (next' : P' → Option C') (text : C → C') (good : C → Prop)
    (related : ℕ → P → P' → Prop)
    (hfetch : ∀ k cursor, (∀ c ∈ cursor, good c) →
      related k (fetch k cursor) (fetch' k (cursor.map text)))
    (hgood : ∀ k cursor c, next (fetch k cursor) = some c → good c)
    (hnext : ∀ k p p', related k p p' → next' p' = (next p).map text) (k : ℕ) :
    (reading fetch next k = none ∧ reading fetch' next' k = none) ∨
      ∃ cursor p', reading fetch next k = some (fetch k cursor) ∧
        reading fetch' next' k = some p' ∧ related k (fetch k cursor) p' := by
  induction k with
  | zero => exact .inr ⟨none, _, rfl, rfl, hfetch 0 none (by simp)⟩
  | succ k ih =>
      rcases ih with ⟨h, h'⟩ | ⟨cursor, p', h, h', hrel⟩
      · exact .inl ⟨reading_last (by simp [h]), reading_last (by simp [h'])⟩
      · have hp' := hnext k _ _ hrel
        cases hc : next (fetch k cursor) with
        | none =>
            rw [hc] at hp'
            refine .inl ⟨reading_last ?_, reading_last ?_⟩
            · simpa [h] using hc
            · simpa [h'] using hp'
        | some c =>
            rw [hc] at hp'
            have hg : ∀ d ∈ some c, good d := by simpa using hgood k cursor c hc
            exact .inr ⟨some c, _, reading_succ h hc, reading_succ h' hp',
              hfetch (k + 1) (some c) hg⟩

/-- The pages of two readers who stay together, side by side. -/
theorem exists_pairs (pages : List P) (answers : ℕ → Option P') (related : ℕ → P → P' → Prop)
    (h : ∀ k, (pages[k]? = none ∧ answers k = none) ∨
      ∃ p p', pages[k]? = some p ∧ answers k = some p' ∧ related k p p') :
    ∃ pairs : List (P × P'), pairs.map Prod.fst = pages ∧
      (∀ k, answers k = (pairs[k]?).map Prod.snd) ∧
      ∀ k p p', pairs[k]? = some (p, p') → related k p p' := by
  induction pages generalizing answers related with
  | nil =>
      have hnone : ∀ k, answers k = none := fun k => (h k).elim (·.2) fun ⟨p, _, hp, _⟩ => by
        simp at hp
      exact ⟨[], rfl, by simpa using hnone, by simp⟩
  | cons p pages ih =>
      obtain ⟨pairs, hpairs, hanswers, hrel⟩ := ih (fun k => answers (k + 1))
        (fun k => related (k + 1)) fun k => by simpa using h (k + 1)
      rcases h 0 with ⟨h0, -⟩ | ⟨q, p', hq, hp', hrel'⟩
      · simp at h0
      · obtain rfl : p = q := by simpa using hq
        refine ⟨(p, p') :: pairs, by rw [List.map_cons, hpairs], ?_, ?_⟩
        · intro k
          cases k with
          | zero => simpa using hp'
          | succ k => simpa using hanswers k
        · intro k a b hk
          cases k with
          | zero =>
              obtain ⟨rfl, rfl⟩ : p = a ∧ p' = b := by simpa using hk
              exact hrel'
          | succ k => exact hrel k a b (by simpa using hk)

end

/-- The k-th page of a list that nobody else changes. -/
def window (key : R → K) (limit : ℕ) (listed : List R) (k : ℕ) : Page R K where
  items := (listed.drop (k * limit)).take limit
  next :=
    if (k + 1) * limit < listed.length then (listed[(k + 1) * limit - 1]?).map key else none

theorem fetch_window {listed : List R} {k : ℕ} (hlimit : 0 < limit)
    (h : descending key (behind key cursor rows) = listed.drop (k * limit)) :
    fetch key limit rows cursor = window key limit listed k := by
  have hnext : (fetch key limit rows cursor).next = _ := fetch_next hlimit
  have hitems : (fetch key limit rows cursor).items = _ := fetch_items
  have hmul : (k + 1) * limit = k * limit + limit := by ring
  have hlast : k * limit + (limit - 1) = k * limit + limit - 1 := by omega
  have hmore : limit < listed.length - k * limit ↔ k * limit + limit < listed.length := by omega
  rw [h] at hnext hitems
  rw [List.length_drop, List.getElem?_drop, hlast] at hnext
  cases hf : fetch key limit rows cursor with
  | mk items next =>
      rw [hf] at hnext hitems
      simp only [window, Page.mk.injEq, hmul]
      exact ⟨hitems, by simpa only [hmore] using hnext⟩

variable {tables : ℕ → List R}

/-- The reading of a table that grows before the cursors only. -/
abbrev pagesOf (key : R → K) (limit : ℕ) (tables : ℕ → List R) : ℕ → Option (Page R K) :=
  reading (fun k => fetch key limit (tables k)) Page.next

/-- Every page is a window of the first table: rows added later are not seen. -/
theorem reading_at (hlimit : 0 < limit) (hkeys : ∀ k, Keyed key (tables k))
    (hext : ∀ k page c, pagesOf key limit tables k = some page → page.next = some c →
      Extends key c (tables k) (tables (k + 1)))
    (k : ℕ) (hk : k = 0 ∨ k * limit < (tables 0).length) :
    ∃ cursor, pagesOf key limit tables k = some (fetch key limit (tables k) cursor) ∧
      descending key (behind key cursor (tables k)) =
        (descending key (tables 0)).drop (k * limit) := by
  induction k with
  | zero =>
      refine ⟨none, rfl, ?_⟩
      simp [behind]
  | succ k ih =>
      have hmul : (k + 1) * limit = k * limit + limit := by ring
      have hmore : (k + 1) * limit < (tables 0).length := hk.resolve_left (Nat.succ_ne_zero k)
      obtain ⟨cursor, hread, hlisted⟩ := ih (.inr (by omega))
      have hlen : (descending key (tables 0)).length = (tables 0).length :=
        descending_perm.length_eq
      have hlast : (k + 1) * limit - 1 < (descending key (tables 0)).length := by omega
      have hnext : (fetch key limit (tables k) cursor).next =
          some (key (descending key (tables 0))[(k + 1) * limit - 1]) := by
        rw [fetch_window hlimit hlisted, window, if_pos (by omega),
          List.getElem?_eq_getElem hlast, Option.map_some]
      refine ⟨_, reading_succ hread hnext, ?_⟩
      rw [behind_next hlimit (hkeys k) (hkeys (k + 1)) hnext (hext k _ _ hread hnext), hlisted,
        List.drop_drop, hmul]

theorem reading_eq (hlimit : 0 < limit) (hkeys : ∀ k, Keyed key (tables k))
    (hext : ∀ k page c, pagesOf key limit tables k = some page → page.next = some c →
      Extends key c (tables k) (tables (k + 1))) (k : ℕ) :
    pagesOf key limit tables k = if k = 0 ∨ k * limit < (tables 0).length then
      some (window key limit (descending key (tables 0)) k) else none := by
  split_ifs with hk
  · obtain ⟨cursor, hread, hlisted⟩ := reading_at hlimit hkeys hext k hk
    rw [hread, fetch_window hlimit hlisted]
  · induction k with
    | zero => simp at hk
    | succ k ih =>
        simp only [not_or] at hk
        refine reading_last fun page hpage => ?_
        by_cases hlast : k = 0 ∨ k * limit < (tables 0).length
        · obtain ⟨cursor, hread, hlisted⟩ := reading_at hlimit hkeys hext k hlast
          obtain rfl := Option.some.inj (hread.symm.trans hpage)
          rw [fetch_window hlimit hlisted, window, if_neg]
          rw [descending_perm.length_eq]
          exact hk.2
        · exact absurd hpage (by simp [ih hlast])

omit [LinearOrder K] in
/-- The windows of a list, put together, are the list. -/
theorem flatMap_window {listed : List R} (n : ℕ) :
    ((List.range n).map (window key limit listed)).flatMap (·.items) =
      listed.take (n * limit) := by
  induction n with
  | zero => simp
  | succ n ih =>
      have hmul : (n + 1) * limit = n * limit + limit := by ring
      rw [List.range_succ, List.map_append, List.flatMap_append, ih, hmul, List.take_add]
      simp [window]

/-- A reading ends. All its pages but the last are full, and together they list the rows
of the first table in descending order. -/
theorem reading_complete (hlimit : 0 < limit) (hkeys : ∀ k, Keyed key (tables k))
    (hext : ∀ k page c, pagesOf key limit tables k = some page → page.next = some c →
      Extends key c (tables k) (tables (k + 1))) :
    ∃ pages : List (Page R K), pages ≠ [] ∧
      (∀ k, pagesOf key limit tables k = pages[k]?) ∧
      (∀ page ∈ pages.dropLast, page.items.length = limit) ∧
      pages.flatMap (·.items) = descending key (tables 0) := by
  have hlen : (descending key (tables 0)).length = (tables 0).length := descending_perm.length_eq
  generalize hn : ((tables 0).length - 1) / limit = n
  have hiff : ∀ k, (k = 0 ∨ k * limit < (tables 0).length) ↔ k < n + 1 := by
    intro k
    rw [← hn, Nat.lt_succ_iff, Nat.le_div_iff_mul_le hlimit]
    rcases k.eq_zero_or_pos with rfl | hk
    · simp
    · have : 0 < k * limit := Nat.mul_pos hk hlimit
      omega
  refine ⟨(List.range (n + 1)).map (window key limit (descending key (tables 0))), by simp,
    ?_, ?_, ?_⟩
  · intro k
    simp only [reading_eq hlimit hkeys hext, hiff, List.getElem?_map]
    split_ifs with hk
    · simp [List.getElem?_range hk]
    · rw [List.getElem?_eq_none (by simpa using Nat.not_lt.mp hk)]
      rfl
  · intro page hpage
    rw [List.range_succ, List.map_append, List.map_singleton, List.dropLast_concat] at hpage
    obtain ⟨k, hk, rfl⟩ := List.mem_map.mp hpage
    have hfull := (hiff (k + 1)).mpr (Nat.succ_lt_succ (List.mem_range.mp hk))
    have hmul : (k + 1) * limit = k * limit + limit := by ring
    simp only [window, List.length_take, List.length_drop, hlen]
    omega
  · rw [flatMap_window]
    refine List.take_of_length_le ?_
    have hend := (hiff (n + 1)).not.mpr (Nat.lt_irrefl (n + 1))
    omega

end

end StarkbankTrial.KeysetPages
