import Mathlib.Logic.Function.Basic
import Mathlib.Tactic.SplitIfs

/-!
# Programs that talk to an outside world

A program either ends with a value, ends by raising, or performs one operation
and continues with its answer. The operations and their answer types are
parameters. Nothing here fixes who answers: `Program.run` gives every operation
to one deterministic responder, and the interleaved semantics gives it to a
shared state that other programs change between two operations.
-/
namespace StarkbankTrial.InteractivePrograms

/-- A finite tree of operations. Loops unfold over data that the program already
holds, so that every run of a program ends. -/
inductive Program (Op : Type) (Res : Op → Type) (E A : Type) : Type where
  | done (a : A)
  | raise (e : E)
  | call (op : Op) (next : Res op → Program Op Res E A)

namespace Program
variable {Op : Type} {Res : Op → Type} {E A B C : Type}

def bind : Program Op Res E A → (A → Program Op Res E B) → Program Op Res E B
  | .done a, f => f a
  | .raise e, _ => .raise e
  | .call op next, f => .call op fun r => (next r).bind f

instance : Monad (Program Op Res E) where
  pure := .done
  bind := .bind

@[simp] theorem pure_eq (a : A) : (pure a : Program Op Res E A) = .done a := rfl

@[simp] theorem done_bind (a : A) (f : A → Program Op Res E B) :
    (Program.done a : Program Op Res E A) >>= f = f a := rfl

@[simp] theorem raise_bind (e : E) (f : A → Program Op Res E B) :
    (Program.raise e : Program Op Res E A) >>= f = .raise e := rfl

@[simp] theorem call_bind (op : Op) (next : Res op → Program Op Res E A)
    (f : A → Program Op Res E B) :
    (Program.call op next) >>= f = .call op fun r => next r >>= f := rfl

theorem bind_done (p : Program Op Res E A) : p.bind .done = p := by
  induction p with
  | done a => rfl
  | raise e => rfl
  | call op next ih => exact congrArg (Program.call op) (funext ih)

theorem bind_bind (p : Program Op Res E A) (f : A → Program Op Res E B)
    (g : B → Program Op Res E C) : (p.bind f).bind g = p.bind fun a => (f a).bind g := by
  induction p with
  | done a => rfl
  | raise e => rfl
  | call op next ih => exact congrArg (Program.call op) (funext ih)

instance : LawfulMonad (Program Op Res E) :=
  LawfulMonad.mk' _ bind_done (fun _ _ => rfl) bind_bind

/-- One operation, with its answer as the value. -/
def perform (op : Op) : Program Op Res E (Res op) := .call op .done

@[simp] theorem perform_bind (op : Op) (f : Res op → Program Op Res E B) :
    (perform op : Program Op Res E (Res op)) >>= f = .call op f := rfl

/-- The loop `for x in xs: f x`; a raise in the body leaves the loop. -/
def forEach (f : A → Program Op Res E Unit) : List A → Program Op Res E Unit
  | [] => .done ()
  | a :: as => do
      f a
      forEach f as

/-- `try` around the program: what it raises becomes a value. -/
def attempt : Program Op Res E A → Program Op Res E (Except E A)
  | .done a => .done (.ok a)
  | .raise e => .done (.error e)
  | .call op next => .call op fun r => (next r).attempt

/-- The program runs for its effects and its value is dropped. -/
def discard (p : Program Op Res E A) : Program Op Res E Unit := p.bind fun _ => .done ()

section Sequential
variable {S : Type}

/-- All operations are answered in order by one responder with a state. -/
def run (respond : (op : Op) → S → Res op × S) : Program Op Res E A → S → Except E A × S
  | .done a, s => (.ok a, s)
  | .raise e, s => (.error e, s)
  | .call op next, s => (next (respond op s).1).run respond (respond op s).2

/-- A raise gives the entering state back, as a transaction does. -/
def atomically (respond : (op : Op) → S → Res op × S) (p : Program Op Res E A) (s : S) :
    Except E A × S :=
  match p.run respond s with
  | (.ok a, t) => (.ok a, t)
  | (.error e, _) => (.error e, s)

variable (respond : (op : Op) → S → Res op × S)

@[simp] theorem run_done (a : A) (s : S) :
    (Program.done a : Program Op Res E A).run respond s = (.ok a, s) := rfl

@[simp] theorem run_raise (e : E) (s : S) :
    (Program.raise e : Program Op Res E A).run respond s = (.error e, s) := rfl

@[simp] theorem run_call (op : Op) (next : Res op → Program Op Res E A) (s : S) :
    (Program.call op next).run respond s =
      (next (respond op s).1).run respond (respond op s).2 := rfl

theorem run_bind (p : Program Op Res E A) (f : A → Program Op Res E B) (s : S) :
    (p >>= f).run respond s =
      match p.run respond s with
      | (.ok a, t) => (f a).run respond t
      | (.error e, t) => (.error e, t) := by
  induction p generalizing s with
  | done a => rfl
  | raise e => rfl
  | call op next ih => exact ih _ _

/-- A finished run of a sequence is a finished run of each part. -/
theorem run_bind_ok {p : Program Op Res E A} {f : A → Program Op Res E B} {s u : S} {b : B}
    (h : (p >>= f).run respond s = (.ok b, u)) :
    ∃ a t, p.run respond s = (.ok a, t) ∧ (f a).run respond t = (.ok b, u) := by
  rw [run_bind] at h
  match hp : p.run respond s with
  | (.ok a, t) =>
      rw [hp] at h
      exact ⟨a, t, rfl, h⟩
  | (.error e, t) =>
      rw [hp] at h
      simp at h

theorem atomically_ok {p : Program Op Res E A} {s t : S} {a : A} :
    p.atomically respond s = (.ok a, t) ↔ p.run respond s = (.ok a, t) := by
  unfold atomically
  split
  · next h => rw [h]
  · next h => simp [h]

/-- Either the transaction returned and its run is the whole effect, or it
raised and nothing changed. -/
theorem atomically_cases (p : Program Op Res E A) (s : S) :
    (∃ a t, p.run respond s = (.ok a, t) ∧ p.atomically respond s = (.ok a, t)) ∨
      ∃ e, p.atomically respond s = (.error e, s) := by
  unfold atomically
  split
  · next a t h => exact .inl ⟨a, t, h, rfl⟩
  · next e t h => exact .inr ⟨e, rfl⟩

/-- If the run returns, its value and state satisfy the postcondition. -/
def Establishes (p : Program Op Res E A) (post : A → S → Prop) (s : S) : Prop :=
  ∀ a t, p.run respond s = (.ok a, t) → post a t

@[simp] theorem establishes_done {a : A} {post : A → S → Prop} {s : S} :
    Establishes respond (.done a : Program Op Res E A) post s ↔ post a s := by
  simp [Establishes]

@[simp] theorem establishes_raise {e : E} {post : A → S → Prop} {s : S} :
    Establishes respond (.raise e : Program Op Res E A) post s ↔ True := by
  simp [Establishes]

@[simp] theorem establishes_call {op : Op} {next : Res op → Program Op Res E A}
    {post : A → S → Prop} {s : S} :
    Establishes respond (.call op next) post s ↔
      Establishes respond (next (respond op s).1) post (respond op s).2 := Iff.rfl

theorem establishes_ite {c : Prop} [Decidable c] {p q : Program Op Res E A}
    {post : A → S → Prop} {s : S} (hp : c → Establishes respond p post s)
    (hq : ¬ c → Establishes respond q post s) :
    Establishes respond (if c then p else q) post s := by
  split_ifs with hc
  · exact hp hc
  · exact hq hc

namespace Establishes
variable {respond} {p : Program Op Res E A} {post post' : A → S → Prop} {s : S}

theorem mono (h : Establishes respond p post s) (himp : ∀ a t, post a t → post' a t) :
    Establishes respond p post' s := fun a t hr => himp a t (h a t hr)

theorem bind {f : A → Program Op Res E B} {post : B → S → Prop}
    (h : Establishes respond p (fun a t => Establishes respond (f a) post t) s) :
    Establishes respond (p >>= f) post s := by
  intro b u hr
  obtain ⟨a, t, hp, hf⟩ := run_bind_ok respond hr
  exact h a t hp b u hf

/-- A loop whose body keeps the invariant. -/
theorem forEach {f : A → Program Op Res E Unit} {as : List A} {inv : S → Prop} (hs : inv s)
    (hbody : ∀ a ∈ as, ∀ t, inv t → Establishes respond (f a) (fun _ u => inv u) t) :
    Establishes respond (Program.forEach f as) (fun _ t => inv t) s := by
  induction as generalizing s with
  | nil => exact (establishes_done respond).mpr hs
  | cons a as ih =>
      refine bind ((hbody a (by simp) s hs).mono fun _ t ht => ?_)
      exact ih ht fun b hb => hbody b (by simp [hb])

/-- A transaction that raises changes nothing, so only its returns matter. -/
theorem atomically {inv : S → Prop} (h : Establishes respond p (fun _ t => inv t) s)
    (hs : inv s) : inv (p.atomically respond s).2 := by
  rcases p.atomically_cases respond s with ⟨a, t, hr, ha⟩ | ⟨e, ha⟩
  · rw [ha]
    exact h a t hr
  · rw [ha]
    exact hs

end Establishes
end Sequential

/-- Every operation that the program can perform satisfies the predicate,
whatever the answers are. -/
def Issues (allowed : Op → Prop) : Program Op Res E A → Prop
  | .done _ => True
  | .raise _ => True
  | .call op next => allowed op ∧ ∀ r, (next r).Issues allowed

@[simp] theorem issues_done {allowed : Op → Prop} {a : A} :
    (Program.done a : Program Op Res E A).Issues allowed ↔ True := Iff.rfl

@[simp] theorem issues_raise {allowed : Op → Prop} {e : E} :
    (Program.raise e : Program Op Res E A).Issues allowed ↔ True := Iff.rfl

@[simp] theorem issues_call {allowed : Op → Prop} {op : Op}
    {next : Res op → Program Op Res E A} :
    (Program.call op next).Issues allowed ↔ allowed op ∧ ∀ r, (next r).Issues allowed := Iff.rfl

@[simp] theorem issues_ite {allowed : Op → Prop} {c : Prop} [Decidable c]
    {p q : Program Op Res E A} : (if c then p else q).Issues allowed ↔
      (c → p.Issues allowed) ∧ (¬ c → q.Issues allowed) := by
  split_ifs with h <;> simp [h]

theorem Issues.bind {allowed : Op → Prop} {p : Program Op Res E A}
    {f : A → Program Op Res E B} (hp : p.Issues allowed) (hf : ∀ a, (f a).Issues allowed) :
    (p >>= f).Issues allowed := by
  induction p with
  | done a => exact hf a
  | raise e => trivial
  | call op next ih => exact ⟨hp.1, fun r => ih r (hp.2 r)⟩

theorem Issues.forEach {allowed : Op → Prop} {f : A → Program Op Res E Unit} {as : List A}
    (h : ∀ a ∈ as, (f a).Issues allowed) : (Program.forEach f as).Issues allowed := by
  induction as with
  | nil => trivial
  | cons a as ih => exact .bind (h a (by simp)) fun _ => ih fun b hb => h b (by simp [hb])

theorem Issues.mono {allowed allowed' : Op → Prop} {p : Program Op Res E A}
    (h : p.Issues allowed) (himp : ∀ op, allowed op → allowed' op) : p.Issues allowed' := by
  induction p with
  | done a => trivial
  | raise e => trivial
  | call op next ih => exact ⟨himp op h.1, fun r => ih r (h.2 r)⟩

/-- What each issued operation does to the state, the whole run does, for every
reflexive and transitive relation between states. -/
theorem Issues.run_rel {S : Type} {respond : (op : Op) → S → Res op × S}
    {allowed : Op → Prop} (rel : S → S → Prop) (hrefl : ∀ s, rel s s)
    (htrans : ∀ s t u, rel s t → rel t u → rel s u)
    (hop : ∀ op s, allowed op → rel s (respond op s).2)
    {p : Program Op Res E A} (h : p.Issues allowed) (s : S) :
    rel s (p.run respond s).2 := by
  induction p generalizing s with
  | done a => exact hrefl s
  | raise e => exact hrefl s
  | call op next ih => exact htrans _ _ _ (hop op s h.1) (ih _ (h.2 _) _)

theorem Issues.atomically_rel {S : Type} {respond : (op : Op) → S → Res op × S}
    {allowed : Op → Prop} (rel : S → S → Prop) (hrefl : ∀ s, rel s s)
    (htrans : ∀ s t u, rel s t → rel t u → rel s u)
    (hop : ∀ op s, allowed op → rel s (respond op s).2)
    {p : Program Op Res E A} (h : p.Issues allowed) (s : S) :
    rel s (p.atomically respond s).2 := by
  rcases p.atomically_cases respond s with ⟨a, t, hr, ha⟩ | ⟨e, ha⟩
  · simpa only [ha, hr] using h.run_rel rel hrefl htrans hop s
  · simpa only [ha] using hrefl s

/-- Every error that the program can raise satisfies the predicate, whatever the answers
are. -/
def Raises (allowed : E → Prop) : Program Op Res E A → Prop
  | .done _ => True
  | .raise e => allowed e
  | .call _ next => ∀ r, (next r).Raises allowed

@[simp] theorem raises_done {allowed : E → Prop} {a : A} :
    (Program.done a : Program Op Res E A).Raises allowed ↔ True := Iff.rfl

@[simp] theorem raises_raise {allowed : E → Prop} {e : E} :
    (Program.raise e : Program Op Res E A).Raises allowed ↔ allowed e := Iff.rfl

@[simp] theorem raises_call {allowed : E → Prop} {op : Op}
    {next : Res op → Program Op Res E A} :
    (Program.call op next).Raises allowed ↔ ∀ r, (next r).Raises allowed := Iff.rfl

@[simp] theorem raises_ite {allowed : E → Prop} {c : Prop} [Decidable c]
    {p q : Program Op Res E A} : (if c then p else q).Raises allowed ↔
      (c → p.Raises allowed) ∧ (¬ c → q.Raises allowed) := by
  split_ifs with h <;> simp [h]

theorem Raises.bind {allowed : E → Prop} {p : Program Op Res E A}
    {f : A → Program Op Res E B} (hp : p.Raises allowed) (hf : ∀ a, (f a).Raises allowed) :
    (p >>= f).Raises allowed := by
  induction p with
  | done a => exact hf a
  | raise e => exact hp
  | call op next ih => exact fun r => ih r (hp r)

/-- A run ends with a result or with such an error. -/
theorem Raises.run {S : Type} {respond : (op : Op) → S → Res op × S} {allowed : E → Prop}
    {p : Program Op Res E A} (h : p.Raises allowed) (s : S) :
    ∀ e, (p.run respond s).1 = .error e → allowed e := by
  induction p generalizing s with
  | done a =>
      intro e herror
      cases herror
  | raise e =>
      intro e' herror
      obtain rfl := Except.error.inj herror
      exact h
  | call op next ih => exact ih _ (h _) _

theorem Raises.atomically {S : Type} {respond : (op : Op) → S → Res op × S} {allowed : E → Prop}
    {p : Program Op Res E A} (h : p.Raises allowed) (s : S) :
    ∀ e, (p.atomically respond s).1 = .error e → allowed e := by
  intro e herror
  have hrun : ∀ e, (p.run respond s).1 = .error e → allowed e := h.run s
  unfold Program.atomically at herror
  split at herror
  · cases herror
  · next heq =>
      obtain rfl := Except.error.inj herror
      exact hrun _ (congrArg Prod.fst heq)

end Program
end StarkbankTrial.InteractivePrograms
