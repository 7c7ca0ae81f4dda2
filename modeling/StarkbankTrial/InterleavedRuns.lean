import StarkbankTrial.InteractivePrograms
import Mathlib.Logic.Relation

/-!
# Interleaved runs of interactive programs

Processes are named by an index type and each runs one program at a time over a
shared state. One step begins a program in an idle process, performs the next
operation of one process, lets the surroundings move, or ends a process between
two of its operations. The log keeps every performed operation with its answer,
latest first, so that a property of a whole run is a property of its last log
and state.

`Ensures` is the proof rule. It follows the program and asks, at every operation,
that the invariant is kept and that the step stays within what every other
process relies on. `Protocol.Kept` turns the rules for the single processes into
an invariant of every interleaving.
-/
namespace StarkbankTrial.InterleavedRuns
open InteractivePrograms

/-- One performed operation. -/
structure Entry (ι Op : Type) (Res : Op → Type) where
  process : ι
  op : Op
  answer : Res op

abbrev Log (ι Op : Type) (Res : Op → Type) := List (Entry ι Op Res)

/-- Who may begin what, how the shared state answers, how it moves by itself
and what the end of a process in the middle of its program does to it. -/
structure System (ι Op : Type) (Res : Op → Type) (E A S : Type) where
  admits : Log ι Op Res → S → ι → Program Op Res E A → Prop
  exec : Log ι Op Res → S → ι → (op : Op) → Res op → S → Prop
  drift : Log ι Op Res → S → S → Prop
  dies : Log ι Op Res → S → ι → S → Prop

structure Config (ι Op : Type) (Res : Op → Type) (E A S : Type) where
  log : Log ι Op Res
  state : S
  procs : ι → Option (Program Op Res E A)

section
variable {ι Op : Type} {Res : Op → Type} {E A S : Type}

/-- Nothing has run yet. -/
def Config.initial (s : S) : Config ι Op Res E A S := ⟨[], s, fun _ => none⟩

/-- No operation of the process is outstanding. -/
def Config.Idle (c : Config ι Op Res E A S) (i : ι) : Prop :=
  ∀ op next, c.procs i ≠ some (.call op next)

/-- The same, to be evaluated. -/
def Config.isIdle (c : Config ι Op Res E A S) (i : ι) : Bool :=
  match c.procs i with
  | some (.call _ _) => false
  | _ => true

theorem Config.idle_of_isIdle {c : Config ι Op Res E A S} {i : ι} (h : c.isIdle i = true) :
    c.Idle i := by
  intro op next hproc
  simp [Config.isIdle, hproc] at h

/-! ### The rule for programs -/

/-- What a proof about a system fixes once: the invariant, what each process may
count on from the steps of all others, and what must hold whenever a process is
about to perform an operation. -/
structure Protocol (ι Op : Type) (Res : Op → Type) (E A S : Type)
    extends System ι Op Res E A S where
  inv : Log ι Op Res → S → Prop
  rely : ι → Log ι Op Res → S → Log ι Op Res → S → Prop
  demand : ι → Op → Log ι Op Res → S → Prop

/-- The rely relations are reflexive and transitive, and the steps that belong
to no program stay within the invariant and every rely relation. -/
structure Protocol.Sound (P : Protocol ι Op Res E A S) : Prop where
  rely_refl : ∀ i l s, P.rely i l s l s
  rely_trans : ∀ i l s l' s' l'' s'',
    P.rely i l s l' s' → P.rely i l' s' l'' s'' → P.rely i l s l'' s''
  drift_keeps : ∀ l s t, P.inv l s → P.drift l s t → P.inv l t ∧ ∀ i, P.rely i l s l t
  dies_keeps : ∀ l s i t, P.inv l s → P.dies l s i t →
    P.inv l t ∧ ∀ j, j ≠ i → P.rely j l s l t

/-- The steps of the others leave the fact alone, as far as the protocol says. -/
def Protocol.Stable (P : Protocol ι Op Res E A S) (i : ι) (fact : Log ι Op Res → S → Prop) :
    Prop :=
  ∀ l s l' s', fact l s → P.rely i l s l' s' → P.inv l' s' → fact l' s'

/-- One operation, entered with a fact that the others leave alone: what is demanded
holds, and however it is answered, the invariant holds again, no other process is
disturbed and the result is as said. -/
structure Protocol.Triple (P : Protocol ι Op Res E A S) (i : ι) (pre : Log ι Op Res → S → Prop)
    (op : Op) (result : Res op → Log ι Op Res → S → Prop) : Prop where
  stable : P.Stable i pre
  demand : ∀ l s, pre l s → P.inv l s → P.demand i op l s
  keeps : ∀ l s r t, pre l s → P.inv l s → P.exec l s i op r t →
    P.inv (⟨i, op, r⟩ :: l) t ∧ ∀ j, j ≠ i → P.rely j l s (⟨i, op, r⟩ :: l) t
  result : ∀ l s r t, pre l s → P.inv l s → P.exec l s i op r t → result r (⟨i, op, r⟩ :: l) t

theorem Protocol.Triple.mono {P : Protocol ι Op Res E A S} {i : ι}
    {pre : Log ι Op Res → S → Prop} {op : Op} {result result' : Res op → Log ι Op Res → S → Prop}
    (h : P.Triple i pre op result) (himp : ∀ r l s, result r l s → result' r l s) :
    P.Triple i pre op result' :=
  ⟨h.stable, h.demand, h.keeps, fun l s r t hpre hi he => himp _ _ _ (h.result l s r t hpre hi he)⟩

/-- One fact for the returned value, one for where a program raises. -/
def Ends {E B : Type} (fact : B → Log ι Op Res → S → Prop) (fails : Log ι Op Res → S → Prop) :
    Except E B → Log ι Op Res → S → Prop
  | .ok b, l, s => fact b l s
  | .error _, l, s => fails l s

/-- Nothing is asked where a program raises. -/
abbrev Returns {E B : Type} (fact : B → Log ι Op Res → S → Prop) :
    Except E B → Log ι Op Res → S → Prop := Ends fact fun _ _ => True

/-- What is so in any case. -/
theorem ends_of {E B : Type} {fact : B → Log ι Op Res → S → Prop} {fails : Log ι Op Res → S → Prop}
    {l : Log ι Op Res} {s : S} (h : ∀ b, fact b l s) (hfails : fails l s) (r : Except E B) :
    Ends fact fails r l s := by
  cases r with
  | ok b => exact h b
  | error e => exact hfails

/-- From this log and state, and after any steps of the others, the rest of the
program keeps the protocol and ends as the postcondition says. -/
def Ensures {B : Type} (P : Protocol ι Op Res E A S) (i : ι) :
    Program Op Res E B → (Except E B → Log ι Op Res → S → Prop) → Log ι Op Res → S → Prop
  | .done b, post, l, s => ∀ l' s', P.rely i l s l' s' → P.inv l' s' → post (.ok b) l' s'
  | .raise e, post, l, s => ∀ l' s', P.rely i l s l' s' → P.inv l' s' → post (.error e) l' s'
  | .call op next, post, l, s => ∀ l' s', P.rely i l s l' s' → P.inv l' s' →
      P.demand i op l' s' ∧ ∀ r t, P.exec l' s' i op r t →
        P.inv (⟨i, op, r⟩ :: l') t ∧
        (∀ j, j ≠ i → P.rely j l' s' (⟨i, op, r⟩ :: l') t) ∧
        Ensures P i (next r) post (⟨i, op, r⟩ :: l') t

namespace Ensures
variable {P : Protocol ι Op Res E A S} {i : ι} {B C : Type}
variable {post post' : Except E B → Log ι Op Res → S → Prop}
variable {l l' : Log ι Op Res} {s s' : S}

/-- The statement survives the steps of all other processes. -/
theorem rely (hP : P.Sound) {p : Program Op Res E B} (h : Ensures P i p post l s)
    (hr : P.rely i l s l' s') : Ensures P i p post l' s' := by
  cases p with
  | done b => exact fun l'' s'' h' => h l'' s'' (hP.rely_trans _ _ _ _ _ _ _ hr h')
  | raise e => exact fun l'' s'' h' => h l'' s'' (hP.rely_trans _ _ _ _ _ _ _ hr h')
  | call op next => exact fun l'' s'' h' => h l'' s'' (hP.rely_trans _ _ _ _ _ _ _ hr h')

/-- It is enough to prove the statement where the invariant holds. -/
theorem of_future (hP : P.Sound) {p : Program Op Res E B}
    (h : ∀ l' s', P.rely i l s l' s' → P.inv l' s' → Ensures P i p post l' s') :
    Ensures P i p post l s := by
  cases p with
  | done b => exact fun l' s' hr hi => h l' s' hr hi l' s' (hP.rely_refl _ _ _) hi
  | raise e => exact fun l' s' hr hi => h l' s' hr hi l' s' (hP.rely_refl _ _ _) hi
  | call op next => exact fun l' s' hr hi => h l' s' hr hi l' s' (hP.rely_refl _ _ _) hi

theorem mono {p : Program Op Res E B} (h : Ensures P i p post l s)
    (himp : ∀ o l s, post o l s → post' o l s) : Ensures P i p post' l s := by
  induction p generalizing l s with
  | done b => exact fun l' s' hr hi => himp _ _ _ (h l' s' hr hi)
  | raise e => exact fun l' s' hr hi => himp _ _ _ (h l' s' hr hi)
  | call op next ih =>
      intro l' s' hr hi
      obtain ⟨hd, hstep⟩ := h l' s' hr hi
      refine ⟨hd, fun r t he => ?_⟩
      obtain ⟨hinv, hrely, hnext⟩ := hstep r t he
      exact ⟨hinv, hrely, ih r hnext⟩

/-- A finished program: the postcondition must survive the other processes. -/
theorem done {b : B} (hs : ∀ l' s', P.rely i l s l' s' → P.inv l' s' → post (.ok b) l' s') :
    Ensures P i (.done b) post l s := hs

theorem bind (hP : P.Sound) {p : Program Op Res E B} {f : B → Program Op Res E C}
    {post : Except E C → Log ι Op Res → S → Prop}
    (h : Ensures P i p (fun o l s => match o with
      | .ok b => Ensures P i (f b) post l s
      | .error e => ∀ l' s', P.rely i l s l' s' → P.inv l' s' → post (.error e) l' s') l s) :
    Ensures P i (p >>= f) post l s := by
  induction p generalizing l s with
  | done b => exact of_future hP h
  | raise e => exact fun l' s' hr hi => h l' s' hr hi l' s' (hP.rely_refl _ _ _) hi
  | call op next ih =>
      intro l' s' hr hi
      obtain ⟨hd, hstep⟩ := h l' s' hr hi
      refine ⟨hd, fun r t he => ?_⟩
      obtain ⟨hinv, hrely, hnext⟩ := hstep r t he
      exact ⟨hinv, hrely, ih r hnext⟩

/-- A program that is caught ends as it would, in a value. -/
theorem attempt {p : Program Op Res E B} {post : Except E B → Log ι Op Res → S → Prop}
    (h : Ensures P i p post l s) : Ensures P i p.attempt
      (fun o l s => ∃ a, o = .ok a ∧ post a l s) l s := by
  induction p generalizing l s with
  | done b => exact fun l' s' hr hi => ⟨.ok b, rfl, h l' s' hr hi⟩
  | raise e => exact fun l' s' hr hi => ⟨.error e, rfl, h l' s' hr hi⟩
  | call op next ih =>
      intro l' s' hr hi
      obtain ⟨hd, hstep⟩ := h l' s' hr hi
      refine ⟨hd, fun r t he => ?_⟩
      obtain ⟨hinv, hrely, hnext⟩ := hstep r t he
      exact ⟨hinv, hrely, ih r hnext⟩

theorem call {op : Op} {next : Res op → Program Op Res E B}
    {pre : Log ι Op Res → S → Prop} {result : Res op → Log ι Op Res → S → Prop} (hpre : pre l s)
    (hop : P.Triple i pre op result)
    (hnext : ∀ r l s, result r l s → Ensures P i (next r) post l s) :
    Ensures P i (.call op next) post l s := by
  intro l' s' hr hi
  have hpre' := hop.stable l s l' s' hpre hr hi
  refine ⟨hop.demand l' s' hpre' hi, fun r t he => ?_⟩
  obtain ⟨hinv, hrely⟩ := hop.keeps l' s' r t hpre' hi he
  exact ⟨hinv, hrely, hnext r _ _ (hop.result l' s' r t hpre' hi he)⟩

/-- What every call of a program keeps of the log holds where the program ends. -/
theorem along {p : Program Op Res E B} {allowed : Op → Prop} {fact : Log ι Op Res → Prop}
    (h : Ensures P i p post l s) (hissues : p.Issues allowed)
    (hrely : ∀ l s l' s', P.rely i l s l' s' → fact l → fact l')
    (hcall : ∀ l op r, allowed op → fact l → fact (⟨i, op, r⟩ :: l)) (hl : fact l) :
    Ensures P i p (fun o l s => post o l s ∧ fact l) l s := by
  induction p generalizing l s with
  | done b => exact fun l' s' hr hi => ⟨h l' s' hr hi, hrely l s l' s' hr hl⟩
  | raise e => exact fun l' s' hr hi => ⟨h l' s' hr hi, hrely l s l' s' hr hl⟩
  | call op next ih =>
      obtain ⟨hop, hnext⟩ := hissues
      intro l' s' hr hi
      obtain ⟨hd, hstep⟩ := h l' s' hr hi
      refine ⟨hd, fun r t he => ?_⟩
      obtain ⟨hinv, hothers, hrest⟩ := hstep r t he
      exact ⟨hinv, hothers, ih r hrest (hnext r) (hcall l' op r hop (hrely l s l' s' hr hl))⟩

/-! The rules for `Ends`. Where nothing is asked of a raise, nothing is to be shown. -/

variable {fails : Log ι Op Res → S → Prop}

theorem returned {b : B} {fact : B → Log ι Op Res → S → Prop} (hstable : P.Stable i (fact b))
    (h : fact b l s) : Ensures P i (.done b) (Ends fact fails) l s :=
  fun l' s' hr hi => hstable l s l' s' h hr hi

theorem raised {e : E} {fact : B → Log ι Op Res → S → Prop}
    (h : fails l s := by exact trivial)
    (hfails : P.Stable i fails := by exact fun _ _ _ _ _ _ _ => trivial) :
    Ensures P i (.raise e) (Ends fact fails) l s :=
  fun l' s' hr hi => hfails l s l' s' h hr hi

theorem seq (hP : P.Sound) {p : Program Op Res E B} {f : B → Program Op Res E C}
    {fact : B → Log ι Op Res → S → Prop} {fact' : C → Log ι Op Res → S → Prop}
    (h : Ensures P i p (Ends fact fails) l s)
    (hnext : ∀ b l s, fact b l s → Ensures P i (f b) (Ends fact' fails) l s)
    (hfails : P.Stable i fails := by exact fun _ _ _ _ _ _ _ => trivial) :
    Ensures P i (p >>= f) (Ends fact' fails) l s := by
  refine bind hP (h.mono fun o l s ho => ?_)
  cases o with
  | ok b => exact hnext b l s ho
  | error e => exact fun l' s' hr hi => hfails l s l' s' ho hr hi

/-- A loop, with a fact about the elements that remain. -/
theorem forEach {D : Type} (hP : P.Sound) {f : D → Program Op Res E Unit}
    {fact : List D → Log ι Op Res → S → Prop} (hstable : P.Stable i (fact []))
    (hbody : ∀ d ds l s, fact (d :: ds) l s →
      Ensures P i (f d) (Ends (fun _ => fact ds) fails) l s) {ds : List D} (hfact : fact ds l s)
    (hfails : P.Stable i fails := by exact fun _ _ _ _ _ _ _ => trivial) :
    Ensures P i (Program.forEach f ds) (Ends (fun _ => fact []) fails) l s := by
  induction ds generalizing l s with
  | nil => exact returned hstable hfact
  | cons d ds ih => exact seq hP (hbody d ds l s hfact) (fun _ l s h => ih h) hfails

/-- A loop whose body keeps a fact. -/
theorem forEach_const {D : Type} (hP : P.Sound) {f : D → Program Op Res E Unit}
    {fact : Log ι Op Res → S → Prop} (hstable : P.Stable i fact)
    (hbody : ∀ d l s, fact l s → Ensures P i (f d) (Ends (fun _ => fact) fails) l s)
    {ds : List D} (hfact : fact l s)
    (hfails : P.Stable i fails := by exact fun _ _ _ _ _ _ _ => trivial) :
    Ensures P i (Program.forEach f ds) (Ends (fun _ => fact) fails) l s := by
  induction ds generalizing l s with
  | nil => exact returned hstable hfact
  | cons d ds ih => exact seq hP (hbody d l s hfact) (fun _ l s h => ih h) hfails

end Ensures

/-! ### Steps and runs -/

variable [DecidableEq ι]

inductive Step (sys : System ι Op Res E A S) :
    Config ι Op Res E A S → Config ι Op Res E A S → Prop
  | begin {c : Config ι Op Res E A S} {i : ι} {p : Program Op Res E A} :
      c.Idle i → sys.admits c.log c.state i p →
      Step sys c ⟨c.log, c.state, Function.update c.procs i (some p)⟩
  | call {c : Config ι Op Res E A S} {i : ι} {op : Op} {next : Res op → Program Op Res E A}
      {r : Res op} {t : S} :
      c.procs i = some (.call op next) → sys.exec c.log c.state i op r t →
      Step sys c ⟨⟨i, op, r⟩ :: c.log, t, Function.update c.procs i (some (next r))⟩
  | drift {c : Config ι Op Res E A S} {t : S} :
      sys.drift c.log c.state t → Step sys c ⟨c.log, t, c.procs⟩
  | die {c : Config ι Op Res E A S} {i : ι} {op : Op} {next : Res op → Program Op Res E A}
      {t : S} :
      c.procs i = some (.call op next) → sys.dies c.log c.state i t →
      Step sys c ⟨c.log, t, Function.update c.procs i none⟩

/-- All later configurations, over every schedule. -/
abbrev Runs (sys : System ι Op Res E A S) :
    Config ι Op Res E A S → Config ι Op Res E A S → Prop := Relation.ReflTransGen (Step sys)

theorem Step.log_suffix {sys : System ι Op Res E A S} {c d : Config ι Op Res E A S}
    (h : Step sys c d) : c.log <:+ d.log := by
  cases h with
  | call => exact List.suffix_cons _ _
  | _ => exact List.suffix_rfl

theorem Runs.log_suffix {sys : System ι Op Res E A S} {c d : Config ι Op Res E A S}
    (h : Runs sys c d) : c.log <:+ d.log := by
  induction h with
  | refl => exact List.suffix_rfl
  | tail _ hs ih => exact ih.trans hs.log_suffix

/-- A system with fewer behaviours has fewer runs. -/
theorem Runs.mono {sys sys' : System ι Op Res E A S} {c d : Config ι Op Res E A S}
    (hadmits : ∀ l s i p, sys.admits l s i p → sys'.admits l s i p)
    (hexec : ∀ l s i op r t, sys.exec l s i op r t → sys'.exec l s i op r t)
    (hdrift : ∀ l s t, sys.drift l s t → sys'.drift l s t)
    (hdies : ∀ l s i t, sys.dies l s i t → sys'.dies l s i t)
    (h : Runs sys c d) : Runs sys' c d := by
  induction h with
  | refl => exact .refl
  | tail _ hs ih =>
      refine ih.tail ?_
      cases hs with
      | begin hi ha => exact .begin hi (hadmits _ _ _ _ ha)
      | call hp he => exact .call hp (hexec _ _ _ _ _ _ he)
      | drift hd => exact .drift (hdrift _ _ _ hd)
      | die hp hd => exact .die hp (hdies _ _ _ _ hd)

/-- What the programs of a system may issue is all that any run performs. -/
theorem Runs.issued {sys : System ι Op Res E A S} {allowed : Op → Prop}
    (hadmits : ∀ l s i p, sys.admits l s i p → p.Issues allowed) {s : S}
    {c : Config ι Op Res E A S} (h : Runs sys (.initial s) c) :
    (∀ entry ∈ c.log, allowed entry.op) ∧ ∀ i p, c.procs i = some p → p.Issues allowed := by
  induction h with
  | refl => exact ⟨by simp [Config.initial], fun i p hp => by simp [Config.initial] at hp⟩
  | @tail c d _ hstep ih =>
      obtain ⟨hlog, hprocs⟩ := ih
      have hupdate : ∀ i q, (∀ p, q = some p → p.Issues allowed) → ∀ j p,
          Function.update c.procs i q j = some p → p.Issues allowed := by
        intro i q hq j p hp
        by_cases hj : j = i
        · subst hj
          exact hq p (by simpa using hp)
        · rw [Function.update_of_ne hj] at hp
          exact hprocs j p hp
      cases hstep with
      | begin _ ha =>
          exact ⟨hlog, hupdate _ _ fun p hp => Option.some.inj hp ▸ hadmits _ _ _ _ ha⟩
      | @call i op next r t hp _ =>
          obtain ⟨hop, hnext⟩ := hprocs i _ hp
          refine ⟨fun entry hentry => ?_, hupdate i _ fun p hp => Option.some.inj hp ▸ hnext r⟩
          rcases List.mem_cons.mp hentry with rfl | hentry
          · exact hop
          · exact hlog entry hentry
      | drift => exact ⟨hlog, hprocs⟩
      | die => exact ⟨hlog, hupdate _ _ fun p hp => by cases hp⟩

/-- What each of these operations does to the state, a run does, for every reflexive and
transitive relation between states. -/
theorem Runs.issued_rel {sys : System ι Op Res E A S} {allowed : Op → Prop}
    (hadmits : ∀ l s i p, sys.admits l s i p → p.Issues allowed) (rel : S → S → Prop)
    (hrefl : ∀ s, rel s s) (htrans : ∀ s t u, rel s t → rel t u → rel s u)
    (hexec : ∀ l s i op r t, allowed op → sys.exec l s i op r t → rel s t)
    (hdrift : ∀ l s t, sys.drift l s t → rel s t)
    (hdies : ∀ l s i t, sys.dies l s i t → rel s t) {s : S}
    {c d : Config ι Op Res E A S} (h : Runs sys (.initial s) c) (h' : Runs sys c d) :
    rel c.state d.state := by
  induction h' with
  | refl => exact hrefl _
  | tail hd hstep ih =>
      refine htrans _ _ _ ih ?_
      cases hstep with
      | begin => exact hrefl _
      | @call i op next r t hp he =>
          exact hexec _ _ _ _ _ _ ((Runs.issued hadmits (h.trans hd)).2 i _ hp).1 he
      | drift hd => exact hdrift _ _ _ hd
      | die _ hd => exact hdies _ _ _ _ hd

/-- Where each demanded operation can be answered, a program can be run to its end. -/
theorem Ensures.finishes {P : Protocol ι Op Res E A S} (hP : P.Sound) {i : ι}
    (hexec : ∀ l s op, P.inv l s → P.demand i op l s → ∃ r t, P.exec l s i op r t)
    {p : Program Op Res E A} {post : Except E A → Log ι Op Res → S → Prop}
    {c : Config ι Op Res E A S} (hc : c.procs i = some p) (hinv : P.inv c.log c.state)
    (h : Ensures P i p post c.log c.state) :
    ∃ d o, Runs P.toSystem c d ∧ d.Idle i ∧ P.inv d.log d.state ∧ post o d.log d.state := by
  induction p generalizing c with
  | done a =>
      exact ⟨c, .ok a, .refl, fun op next heq => by simp [hc] at heq, hinv,
        h _ _ (hP.rely_refl _ _ _) hinv⟩
  | raise e =>
      exact ⟨c, .error e, .refl, fun op next heq => by simp [hc] at heq, hinv,
        h _ _ (hP.rely_refl _ _ _) hinv⟩
  | call op next ih =>
      obtain ⟨hdemand, hnext⟩ := h _ _ (hP.rely_refl _ _ _) hinv
      obtain ⟨r, t, he⟩ := hexec _ _ op hinv hdemand
      obtain ⟨hinv, -, hnext⟩ := hnext r t he
      obtain ⟨d, o, hd, hrest⟩ := ih r
        (c := ⟨⟨i, op, r⟩ :: c.log, t, Function.update c.procs i (some (next r))⟩) (by simp) hinv hnext
      exact ⟨d, o, .head (.call hc he) hd, hrest⟩

/-! ### Soundness of the rule -/

/-- The protocol is sound, a process that has no operation outstanding is at rest, and
every program that begins at rest keeps to the protocol. -/
structure Protocol.Kept (P : Protocol ι Op Res E A S) (rest : ι → Log ι Op Res → S → Prop)
    (post : ι → Except E A → Log ι Op Res → S → Prop) : Prop extends P.Sound where
  rest_stable : ∀ i, P.Stable i (rest i) := by intros; exact fun _ _ _ _ _ _ _ => trivial
  dies_rest : ∀ l s i t, P.inv l s → P.dies l s i t → rest i l t := by intros; trivial
  ends_rest : ∀ i o l s, post i o l s → rest i l s := by intros; trivial
  begins : ∀ l s i p, P.inv l s → rest i l s → P.admits l s i p → Ensures P i p (post i) l s

/-- Nothing is known of a process at rest. -/
abbrev Unconditionally : ι → Log ι Op Res → S → Prop := fun _ _ _ => True

namespace Protocol.Kept
variable {P : Protocol ι Op Res E A S} {rest : ι → Log ι Op Res → S → Prop}
variable {post : ι → Except E A → Log ι Op Res → S → Prop} {s : S}
variable {c d : Config ι Op Res E A S}

/-- Where a process stands: at rest, or where its own proof puts it. -/
def Stands (P : Protocol ι Op Res E A S) (rest : ι → Log ι Op Res → S → Prop)
    (post : ι → Except E A → Log ι Op Res → S → Prop) (i : ι) (l : Log ι Op Res) (s : S) :
    Option (Program Op Res E A) → Prop
  | none => rest i l s
  | some p => Ensures P i p (post i) l s

omit [DecidableEq ι] in
theorem stands_rely (hP : P.Kept rest post) {i : ι} {l l' : Log ι Op Res} {s s' : S}
    {q : Option (Program Op Res E A)} (h : Stands P rest post i l s q)
    (hr : P.rely i l s l' s') (hi : P.inv l' s') : Stands P rest post i l' s' q := by
  cases q with
  | none => exact hP.rest_stable i l s l' s' h hr hi
  | some p => exact Ensures.rely hP.toSound h hr

omit [DecidableEq ι] in
theorem rests_of_idle (hP : P.Kept rest post) {i : ι}
    (h : Stands P rest post i c.log c.state (c.procs i)) (hinv : P.inv c.log c.state)
    (hidle : c.Idle i) : rest i c.log c.state := by
  unfold Config.Idle at hidle
  generalize c.procs i = q at h hidle
  match q, h, hidle with
  | none, h, _ => exact h
  | some (.done a), h, _ =>
      exact hP.ends_rest i _ _ _ (h _ _ (hP.rely_refl _ _ _) hinv)
  | some (.raise e), h, _ =>
      exact hP.ends_rest i _ _ _ (h _ _ (hP.rely_refl _ _ _) hinv)
  | some (.call op next), _, hidle => exact absurd rfl (hidle op next)

/-- Every interleaving keeps the invariant, and every process stands where its own proof
puts it. -/
theorem ensured_from (hP : P.Kept rest post) (hinv : P.inv c.log c.state)
    (hall : ∀ i, Stands P rest post i c.log c.state (c.procs i)) (h : Runs P.toSystem c d) :
    P.inv d.log d.state ∧ ∀ i, Stands P rest post i d.log d.state (d.procs i) := by
  induction h with
  | refl => exact ⟨hinv, hall⟩
  | @tail c d _ hstep ih =>
      obtain ⟨hinv, hall⟩ := ih
      have hupdate : ∀ i l t q, P.inv l t → Stands P rest post i l t q →
          (∀ j, j ≠ i → P.rely j c.log c.state l t) →
          ∀ j, Stands P rest post j l t (Function.update c.procs i q j) := by
        intro i l t q hinv' hq hrely j
        by_cases hj : j = i
        · subst hj
          simpa using hq
        · rw [Function.update_of_ne hj]
          exact hP.stands_rely (hall j) (hrely j hj) hinv'
      cases hstep with
      | @begin i p hidle ha =>
          have hp := hP.begins _ _ _ _ hinv (hP.rests_of_idle (hall i) hinv hidle) ha
          exact ⟨hinv, hupdate i _ _ (some p) hinv hp fun j _ => hP.rely_refl _ _ _⟩
      | @call i op next r t hp he =>
          have hcall := hall i
          rw [hp] at hcall
          obtain ⟨-, hnext⟩ := hcall _ _ (hP.rely_refl _ _ _) hinv
          obtain ⟨hinv', hrely, hnext⟩ := hnext _ _ he
          exact ⟨hinv', hupdate i _ _ (some (next r)) hinv' hnext hrely⟩
      | drift hd =>
          obtain ⟨hinv', hrely⟩ := hP.drift_keeps _ _ _ hinv hd
          exact ⟨hinv', fun j => hP.stands_rely (hall j) (hrely j) hinv'⟩
      | @die i op next t _ hd =>
          obtain ⟨hinv', hrely⟩ := hP.dies_keeps _ _ _ _ hinv hd
          exact ⟨hinv', hupdate i _ _ none hinv' (hP.dies_rest _ _ _ _ hinv hd) hrely⟩

theorem ensured (hP : P.Kept rest post) (hs : P.inv [] s) (h : Runs P.toSystem (.initial s) c)
    (hrest : ∀ i, rest i [] s) :
    P.inv c.log c.state ∧ ∀ i, Stands P rest post i c.log c.state (c.procs i) :=
  hP.ensured_from (c := .initial s) hs hrest h

/-- From processes at rest to processes at rest, where to rest is all that is asked of the
end of a program. -/
theorem rested (hP : P.Kept rest post) (hends : ∀ i o l s, rest i l s → post i o l s)
    (hinv : P.inv c.log c.state) (hidle : ∀ i, c.Idle i) (hrest : ∀ i, rest i c.log c.state)
    (h : Runs P.toSystem c d) {i : ι} (hidle' : d.Idle i) :
    P.inv d.log d.state ∧ rest i d.log d.state := by
  have hstands : ∀ i, Stands P rest post i c.log c.state (c.procs i) := by
    intro i
    have hidle := hidle i
    unfold Config.Idle at hidle
    cases hp : c.procs i with
    | none => exact hrest i
    | some p =>
        cases p with
        | done a => exact fun l s hr hi => hends i _ _ _ (hP.rest_stable i _ _ _ _ (hrest i) hr hi)
        | raise e => exact fun l s hr hi => hends i _ _ _ (hP.rest_stable i _ _ _ _ (hrest i) hr hi)
        | call op next => exact absurd hp (hidle op next)
  obtain ⟨hinv', hall⟩ := hP.ensured_from hinv hstands h
  exact ⟨hinv', hP.rests_of_idle (hall i) hinv' hidle'⟩

theorem inv (hP : P.Kept rest post) (hs : P.inv [] s) (h : Runs P.toSystem (.initial s) c)
    (hrest : ∀ i, rest i [] s := by intros; trivial) : P.inv c.log c.state :=
  (hP.ensured hs h hrest).1

/-- The demand of an operation holds wherever a process stands before it. -/
theorem demand (hP : P.Kept rest post) (hs : P.inv [] s) (h : Runs P.toSystem (.initial s) c)
    {i : ι} {op : Op} {next : Res op → Program Op Res E A}
    (hi : c.procs i = some (.call op next)) (hrest : ∀ i, rest i [] s := by intros; trivial) :
    P.demand i op c.log c.state := by
  obtain ⟨hinv, hall⟩ := hP.ensured hs h hrest
  have hcall := hall i
  rw [hi] at hcall
  exact (hcall _ _ (hP.rely_refl _ _ _) hinv).1

/-- What every single step does, a run does from any reachable place, for every reflexive
and transitive relation between logs and states. -/
theorem rel_log (hP : P.Kept rest post) (hs : P.inv [] s)
    (rel : Log ι Op Res → S → Log ι Op Res → S → Prop) (hrefl : ∀ l s, rel l s l s)
    (htrans : ∀ l s l' t l'' u, rel l s l' t → rel l' t l'' u → rel l s l'' u)
    (hexec : ∀ l s i op r t, P.inv l s → P.demand i op l s → P.exec l s i op r t →
      rel l s (⟨i, op, r⟩ :: l) t)
    (hdrift : ∀ l s t, P.inv l s → P.drift l s t → rel l s l t)
    (hdies : ∀ l s i t, P.inv l s → P.dies l s i t → rel l s l t)
    (h : Runs P.toSystem (.initial s) c) (h' : Runs P.toSystem c d)
    (hrest : ∀ i, rest i [] s := by intros; trivial) : rel c.log c.state d.log d.state := by
  induction h' with
  | refl => exact hrefl _ _
  | tail hd hstep ih =>
      refine htrans _ _ _ _ _ _ ih ?_
      have hinv := hP.inv hs (h.trans hd) hrest
      cases hstep with
      | begin => exact hrefl _ _
      | call hp he => exact hexec _ _ _ _ _ _ hinv (hP.demand hs (h.trans hd) hp hrest) he
      | drift hd => exact hdrift _ _ _ hinv hd
      | die _ hd => exact hdies _ _ _ _ hinv hd

/-- The same, for a relation between states. -/
theorem rel (hP : P.Kept rest post) (hs : P.inv [] s) (rel : S → S → Prop)
    (hrefl : ∀ s, rel s s) (htrans : ∀ s t u, rel s t → rel t u → rel s u)
    (hexec : ∀ l s i op r t, P.inv l s → P.demand i op l s → P.exec l s i op r t → rel s t)
    (hdrift : ∀ l s t, P.inv l s → P.drift l s t → rel s t)
    (hdies : ∀ l s i t, P.inv l s → P.dies l s i t → rel s t)
    (h : Runs P.toSystem (.initial s) c) (h' : Runs P.toSystem c d)
    (hrest : ∀ i, rest i [] s := by intros; trivial) : rel c.state d.state :=
  hP.rel_log hs (fun _ s _ t => rel s t) (fun _ s => hrefl s)
    (fun _ s _ t _ u => htrans s t u) hexec hdrift hdies h h' hrest

end Protocol.Kept

/-! ### Playing one schedule -/

/-- One move of a fixed schedule: what a state must have for a program to begin or to be
killed, the choice that the shared state makes, or how it moves by itself. -/
inductive Move (ι Op : Type) (Res : Op → Type) (E A S Choice : Type) where
  | begin (i : ι) (p : Program Op Res E A) (needs : Log ι Op Res → S → Bool := fun _ _ => true)
  | call (i : ι) (choice : Choice)
  | drift (move : S → S)
  | die (i : ι) (needs : S → Bool := fun _ => true)

/-- The configuration after a move, when the process is where the move needs it. -/
def play {Choice : Type} (answer : Log ι Op Res → S → ι → (op : Op) → Choice → Option (Res op × S)) :
    Config ι Op Res E A S → Move ι Op Res E A S Choice → Option (Config ι Op Res E A S)
  | c, .begin i p needs =>
      match c.procs i with
      | some (.call _ _) => none
      | _ =>
          if needs c.log c.state then some ⟨c.log, c.state, Function.update c.procs i (some p)⟩
          else none
  | c, .call i choice =>
      match c.procs i with
      | some (.call op next) =>
          (answer c.log c.state i op choice).map fun r =>
            ⟨⟨i, op, r.1⟩ :: c.log, r.2, Function.update c.procs i (some (next r.1))⟩
      | _ => none
  | c, .drift move => some ⟨c.log, move c.state, c.procs⟩
  | c, .die i needs =>
      match c.procs i with
      | some (.call _ _) =>
          if needs c.state then some ⟨c.log, c.state, Function.update c.procs i none⟩ else none
      | _ => none

def playAll {Choice : Type} (answer : Log ι Op Res → S → ι → (op : Op) → Choice → Option (Res op × S)) :
    Config ι Op Res E A S → List (Move ι Op Res E A S Choice) →
      Option (Config ι Op Res E A S)
  | c, [] => some c
  | c, m :: ms => (play answer c m).bind fun d => playAll answer d ms

theorem playAll_append {Choice : Type}
    {answer : Log ι Op Res → S → ι → (op : Op) → Choice → Option (Res op × S)}
    (c : Config ι Op Res E A S) (ms ns : List (Move ι Op Res E A S Choice)) :
    playAll answer c (ms ++ ns) = (playAll answer c ms).bind fun d => playAll answer d ns := by
  induction ms generalizing c with
  | nil => rfl
  | cons m ms ih =>
      rw [List.cons_append, playAll, playAll, Option.bind_assoc]
      exact congrArg (Option.bind (play answer c m)) (funext ih)

/-- The system allows every begin, drift and end that the schedule uses. -/
def Move.Allowed {Choice : Type} (sys : System ι Op Res E A S) :
    Move ι Op Res E A S Choice → Prop
  | .begin i p needs => ∀ l s, needs l s = true → sys.admits l s i p
  | .call _ _ => True
  | .drift move => ∀ l s, sys.drift l s (move s)
  | .die i needs => ∀ l s, needs s = true → sys.dies l s i s

theorem play_step {Choice : Type} {sys : System ι Op Res E A S}
    {answer : Log ι Op Res → S → ι → (op : Op) → Choice → Option (Res op × S)}
    (hanswer : ∀ l s i op choice r, answer l s i op choice = some r → sys.exec l s i op r.1 r.2)
    {c d : Config ι Op Res E A S} {m : Move ι Op Res E A S Choice} (hm : m.Allowed sys)
    (h : play answer c m = some d) : Step sys c d := by
  cases m with
  | begin i p needs =>
      have hidle : (∀ op next, c.procs i ≠ some (.call op next)) →
          (if needs c.log c.state then
            some (⟨c.log, c.state, Function.update c.procs i (some p)⟩ : Config ι Op Res E A S)
          else none) = some d → Step sys c d := by
        intro hidle hd
        split_ifs at hd with hneeds
        exact Option.some.inj hd ▸ .begin hidle (hm _ _ hneeds)
      cases hp : c.procs i with
      | none => exact hidle (by simp [hp]) (by simpa only [play, hp] using h)
      | some q =>
          cases q with
          | call op next => simp [play, hp] at h
          | done a => exact hidle (by simp [hp]) (by simpa only [play, hp] using h)
          | raise e => exact hidle (by simp [hp]) (by simpa only [play, hp] using h)
  | call i choice =>
      cases hp : c.procs i with
      | none => simp [play, hp] at h
      | some q =>
          cases q with
          | call op next =>
              simp only [play, hp, Option.map_eq_some_iff] at h
              obtain ⟨r, hr, rfl⟩ := h
              exact .call hp (hanswer _ _ _ _ _ _ hr)
          | done a => simp [play, hp] at h
          | raise e => simp [play, hp] at h
  | drift t =>
      simp only [play, Option.some.injEq] at h
      exact h ▸ .drift (hm _ _)
  | die i needs =>
      cases hp : c.procs i with
      | none => simp [play, hp] at h
      | some q =>
          cases q with
          | call op next =>
              simp only [play, hp] at h
              split_ifs at h with hneeds
              exact Option.some.inj h ▸ .die hp (hm _ _ hneeds)
          | done a => simp [play, hp] at h
          | raise e => simp [play, hp] at h

/-- A played schedule is a run. -/
theorem playAll_runs {Choice : Type} {sys : System ι Op Res E A S}
    {answer : Log ι Op Res → S → ι → (op : Op) → Choice → Option (Res op × S)}
    (hanswer : ∀ l s i op choice r, answer l s i op choice = some r → sys.exec l s i op r.1 r.2)
    {ms : List (Move ι Op Res E A S Choice)} {c d : Config ι Op Res E A S}
    (hms : ∀ m ∈ ms, m.Allowed sys) (h : playAll answer c ms = some d) : Runs sys c d := by
  induction ms generalizing c with
  | nil =>
      simp only [playAll, Option.some.injEq] at h
      exact h ▸ .refl
  | cons m ms ih =>
      simp only [playAll, Option.bind_eq_some_iff] at h
      obtain ⟨c', hc, hd⟩ := h
      have hstep := play_step hanswer (hms m (by simp)) hc
      exact .head hstep (ih (fun n hn => hms n (by simp [hn])) hd)

end
end StarkbankTrial.InterleavedRuns
