import Mathlib.Data.List.Induction
import Mathlib.Order.Basic
import Mathlib.Order.Lattice
import Mathlib.Tactic.SplitIfs

/-!
# Registers that keep the latest write

A write carries its own instant and takes effect only when it is later than the write that
the register holds. The outcome of a sequence of writes is the latest of them, so it depends
neither on their order nor on repetitions, as long as one instant stands for one write.
-/
namespace StarkbankTrial.LatestRegisters

structure Register (T A : Type) where
  time : Option T
  value : A

section
variable {T A : Type} [LinearOrder T]

/-- Everything is later than a register that was never written. -/
def Register.Before (r : Register T A) (t : T) : Prop := ∀ u ∈ r.time, u < t

instance (r : Register T A) (t : T) : Decidable (r.Before t) :=
  inferInstanceAs (Decidable (∀ u ∈ r.time, u < t))

def write (r : Register T A) (w : T × A) : Register T A :=
  if r.Before w.1 then ⟨some w.1, w.2⟩ else r

def writeAll (r : Register T A) (ws : List (T × A)) : Register T A := ws.foldl write r

variable {r : Register T A} {w : T × A} {ws ws' : List (T × A)}

@[simp] theorem writeAll_nil : writeAll r [] = r := rfl

theorem writeAll_append : writeAll r (ws ++ [w]) = write (writeAll r ws) w := by
  simp [writeAll]

theorem write_of_before (h : r.Before w.1) : write r w = ⟨some w.1, w.2⟩ := if_pos h

theorem write_of_not_before (h : ¬ r.Before w.1) : write r w = r := if_neg h

theorem not_before_iff {t : T} : ¬ r.Before t ↔ ∃ u, r.time = some u ∧ t ≤ u := by
  simp [Register.Before]

/-- A register that was not written keeps its first content; otherwise it holds a write that
is later than the first content, and than all other writes. -/
inductive Latest (r : Register T A) (ws : List (T × A)) : Register T A → Prop
  | kept : (∀ w ∈ ws, ¬ r.Before w.1) → Latest r ws r
  | written {w : T × A} : w ∈ ws → r.Before w.1 → (∀ w' ∈ ws, w'.1 ≤ w.1) →
      Latest r ws ⟨some w.1, w.2⟩

theorem Latest.write {s : Register T A} (h : Latest r ws s) (w : T × A) :
    Latest r (ws ++ [w]) (write s w) := by
  cases h with
  | kept hkept =>
      by_cases hbefore : r.Before w.1
      · rw [write_of_before hbefore]
        refine .written (by simp) hbefore fun w' hw' => ?_
        rcases List.mem_append.mp hw' with hold | hnew
        · obtain ⟨u, hu, hle⟩ := not_before_iff.mp (hkept w' hold)
          exact hle.trans (hbefore u hu).le
        · exact (List.mem_singleton.mp hnew) ▸ le_refl _
      · rw [write_of_not_before hbefore]
        refine .kept fun w' hw' => ?_
        rcases List.mem_append.mp hw' with hold | hnew
        · exact hkept w' hold
        · exact (List.mem_singleton.mp hnew) ▸ hbefore
  | @written v hv hbefore hmax =>
      by_cases hlater : v.1 < w.1
      · have hw : Register.Before (⟨some v.1, v.2⟩ : Register T A) w.1 := by
          simpa [Register.Before] using hlater
        rw [write_of_before hw]
        refine .written (by simp) (fun u hu => (hbefore u hu).trans hlater) fun w' hw' => ?_
        rcases List.mem_append.mp hw' with hold | hnew
        · exact (hmax w' hold).trans hlater.le
        · exact (List.mem_singleton.mp hnew) ▸ le_refl _
      · have hw : ¬ Register.Before (⟨some v.1, v.2⟩ : Register T A) w.1 := by
          simpa [Register.Before] using hlater
        rw [write_of_not_before hw]
        refine .written (List.mem_append_left _ hv) hbefore fun w' hw' => ?_
        rcases List.mem_append.mp hw' with hold | hnew
        · exact hmax w' hold
        · exact (List.mem_singleton.mp hnew) ▸ not_lt.mp hlater

/-- The outcome of a sequence of writes. -/
theorem writeAll_latest (r : Register T A) (ws : List (T × A)) :
    Latest r ws (writeAll r ws) := by
  induction ws using List.reverseRecOn with
  | nil => exact .kept (by simp)
  | append_singleton ws w ih =>
      rw [writeAll_append]
      exact ih.write w

/-- No write is later than the outcome. -/
theorem Latest.not_before {s : Register T A} (h : Latest r ws s) (hw : w ∈ ws) :
    ¬ s.Before w.1 := by
  cases h with
  | kept hkept => exact hkept w hw
  | @written v _ _ hmax => exact not_before_iff.mpr ⟨v.1, rfl, hmax w hw⟩

/-- Only one outcome is the latest when one instant stands for one write. -/
theorem Latest.unique {s s' : Register T A} (h : Latest r ws s) (h' : Latest r ws' s')
    (hmem : ∀ w, w ∈ ws ↔ w ∈ ws') (hone : ∀ w ∈ ws, ∀ w' ∈ ws, w.1 = w'.1 → w = w') :
    s = s' := by
  cases h with
  | kept hkept =>
      cases h' with
      | kept => rfl
      | written hw hbefore => exact absurd hbefore (hkept _ ((hmem _).mpr hw))
  | written hw hbefore hmax =>
      cases h' with
      | kept hkept => exact absurd hbefore (hkept _ ((hmem _).mp hw))
      | written hw' _ hmax' =>
          have hle := hmax _ ((hmem _).mpr hw')
          have hle' := hmax' _ ((hmem _).mp hw)
          rw [hone _ hw _ ((hmem _).mpr hw') (le_antisymm hle' hle)]

/-- Writes may come in any order and any number of times. -/
theorem writeAll_congr (hmem : ∀ w, w ∈ ws ↔ w ∈ ws')
    (hone : ∀ w ∈ ws, ∀ w' ∈ ws, w.1 = w'.1 → w = w') : writeAll r ws = writeAll r ws' :=
  (writeAll_latest r ws).unique (writeAll_latest r ws') hmem hone

end

end StarkbankTrial.LatestRegisters
