import StarkbankTrial.RowHistories

/-!
# Migrations from one schema to another

A migration takes the rows of one schema to the rows of the next, or fails, and has a way back.
It carries what makes it safe to run: from intact rows it succeeds, what it leaves is intact,
and the way back restores what was there. So a chain of migrations is one.
-/
namespace StarkbankTrial.DataMigrations
open RelationalTables RowHistories

section
variable {T T' T'' K K' K'' : Type}
variable {Row : T → Type} {Row' : T' → Type} {Row'' : T'' → Type}

/-- Constraints and references are met. -/
structure Intact (S : Schema Row K) (db : Database Row) : Prop where
  consistent : S.Consistent db
  referenced : Referenced S db

structure Migration (S : Schema Row K) (S' : Schema Row' K') where
  upgrade : Database Row → Option (Database Row')
  downgrade : Database Row' → Database Row
  upgraded : ∀ db, Intact S db → ∃ db', upgrade db = some db' ∧ Intact S' db'
  downgraded : ∀ db', Intact S' db' → Intact S (downgrade db')
  undone : ∀ db db', upgrade db = some db' → downgrade db' = db

namespace Migration

/-- A migration that succeeds on intact rows leaves intact ones. -/
theorem intact_of_upgrade {S : Schema Row K} {S' : Schema Row' K'} (m : Migration S S')
    {db : Database Row} {db' : Database Row'} (h : Intact S db) (hup : m.upgrade db = some db') :
    Intact S' db' := by
  obtain ⟨db'', hup', h''⟩ := m.upgraded db h
  obtain rfl := Option.some.inj (hup.symm.trans hup')
  exact h''

def refl (S : Schema Row K) : Migration S S where
  upgrade := some
  downgrade := id
  upgraded db h := ⟨db, rfl, h⟩
  downgraded _ h := h
  undone _ _ h := (Option.some.inj h).symm

variable {S : Schema Row K} {S' : Schema Row' K'} {S'' : Schema Row'' K''}

def trans (m : Migration S S') (m' : Migration S' S'') : Migration S S'' where
  upgrade db := (m.upgrade db).bind m'.upgrade
  downgrade db := m.downgrade (m'.downgrade db)
  upgraded db h := by
    obtain ⟨db', hdb', h'⟩ := m.upgraded db h
    obtain ⟨db'', hdb'', h''⟩ := m'.upgraded db' h'
    exact ⟨db'', by rw [hdb', Option.bind_some, hdb''], h''⟩
  downgraded db h := m.downgraded _ (m'.downgraded db h)
  undone db db'' h := by
    obtain ⟨db', hdb', hdb''⟩ := Option.bind_eq_some_iff.mp h
    rw [m'.undone db' db'' hdb'', m.undone db db' hdb']

theorem trans_upgrade {m : Migration S S'} {m' : Migration S' S''} {db : Database Row}
    {db'' : Database Row''} : (m.trans m').upgrade db = some db'' ↔
      ∃ db', m.upgrade db = some db' ∧ m'.upgrade db' = some db'' := Option.bind_eq_some_iff

@[simp] theorem trans_downgrade {m : Migration S S'} {m' : Migration S' S''} {db : Database Row''} :
    (m.trans m').downgrade db = m.downgrade (m'.downgrade db) := rfl

end Migration

/-! ### Columns -/

variable {Wide : T → Type}

/-- The constraints of rows that have more columns, none of which a constraint names. -/
def widened (S : Schema Row K) (drop : (t : T) → Wide t → Row t) : Schema Wide K where
  key t r := S.key t (drop t r)
  clash t a b := S.clash t (drop t a) (drop t b)
  check t r := S.check t (drop t r)
  refs t r := S.refs t (drop t r)
  clash_comm t _ _ := S.clash_comm t _ _
  clash_of_key t _ _ h := S.clash_of_key t _ _ h

/-- Every row rewritten in its place. -/
def mapRows (f : (t : T) → Row t → Wide t) (db : Database Row) : Database Wide :=
  fun t => (db t).map (f t)

theorem mapRows_mapRows {f : (t : T) → Row t → Wide t} {g : (t : T) → Wide t → Row t}
    (h : ∀ t r, g t (f t r) = r) (db : Database Row) :
    mapRows g (mapRows f db) = db := by
  funext t
  unfold mapRows
  rw [List.map_map]
  exact List.map_id'' (h t) (db t)

variable {S : Schema Row K} {drop : (t : T) → Wide t → Row t} {db : Database Wide}

theorem widened_consistent :
    (widened S drop).Consistent db ↔ S.Consistent (mapRows drop db) := by
  refine forall_congr' fun t => and_congr ?_ ?_
  · simp [widened, mapRows]
  · simp [widened, mapRows, List.pairwise_map]

theorem widened_referenced :
    Referenced (widened S drop) db ↔ Referenced S (mapRows drop db) := by
  simp [Referenced, widened, mapRows]

theorem widened_intact : Intact (widened S drop) db ↔ Intact S (mapRows drop db) :=
  ⟨fun h => ⟨widened_consistent.mp h.consistent, widened_referenced.mp h.referenced⟩,
    fun h => ⟨widened_consistent.mpr h.consistent, widened_referenced.mpr h.referenced⟩⟩

/-- New columns, filled from the old ones, and dropped on the way back. -/
def Migration.addColumns (S : Schema Row K) (drop : (t : T) → Wide t → Row t)
    (fill : (t : T) → Row t → Wide t) (h : ∀ t r, drop t (fill t r) = r) :
    Migration S (widened S drop) where
  upgrade db := some (mapRows fill db)
  downgrade := mapRows drop
  upgraded db hdb := ⟨_, rfl, widened_intact.mpr (by rwa [mapRows_mapRows h])⟩
  downgraded _ hdb := widened_intact.mp hdb
  undone db db' hdb := by
    obtain rfl := Option.some.inj hdb
    exact mapRows_mapRows h db

/-- A migration by other statements with the same effect. -/
def Migration.withUpgrade {S : Schema Row K} {S' : Schema Row' K'} (m : Migration S S')
    (upgrade : Database Row → Option (Database Row')) (h : ∀ db, upgrade db = m.upgrade db) :
    Migration S S' where
  upgrade := upgrade
  downgrade := m.downgrade
  upgraded db hdb := by
    rw [h]
    exact m.upgraded db hdb
  downgraded := m.downgraded
  undone db db' hdb := m.undone db db' (h db ▸ hdb)

end
end StarkbankTrial.DataMigrations
