import Paari.Lib.Prog
import Mathlib.Logic.Function.Basic
import Mathlib.Data.List.Basic

/-!
# Handlers interleaved: pools, histories, protocols

A `Pool` is any number of handler programs over one store. A move lets one
handler take its next step, kills one, or lets the environment change the store;
the history records every step together with the store it was taken on. `Reach`
is reachability by moves whose events satisfy a condition, so that "in every run
whose steps all meet the condition" is a statement about `Reach`.

Reasoning about a pool goes through a `Protocol`: an automaton of *phases* that
says which steps a handler may take in which phase. `Prog.Conforms` says a tree
follows it, whatever the store and the answers. It is checked once per handler,
by walking its branches. `Pool.sim` then trades the trees for their phases: an
invariant of (store, phases, history) that every allowed step keeps holds in
every reachable pool.
-/

namespace Atomic

/-- One step of handler `i`, as the history keeps it, with the store it was taken on. A
handler that dies waiting for an answer has made its call all the same. -/
inductive Event (σ S C A : Type) : Type
  | stmt (i : Nat) (s : S) (st : σ)
  | call (i : Nat) (c : C) (a : A) (st : σ)
  | died (i : Nat) (waiting : Option C)

/-- How statements change the store, what a death undoes, and what the
environment may do between two steps. -/
structure Machine (σ S E : Type) where
  exec : Nat → S → σ → σ
  abort : Nat → σ → σ
  env : E → σ → σ

/-- What happens next. The answer `a` of `run` matters only when handler `i` is
waiting for one. -/
inductive Move (A E : Type) : Type
  | run (i : Nat) (a : A)
  | die (i : Nat)
  | env (e : E)

/-- Handlers in flight over a shared store, and everything that happened so far. -/
structure Pool (σ S C A α : Type) where
  store : σ
  threads : List (Prog σ S C A α)
  trace : List (Event σ S C A)

variable {σ S C A E Q α β : Type}

/-- The call a handler is waiting on. -/
def Prog.waiting : Prog σ S C A α → Option C
  | .call c _ => some c
  | _ => none

namespace Pool

/-- The pool before anything happened. -/
def start (st : σ) (ps : List (Prog σ S C A α)) : Pool σ S C A α := ⟨st, ps, []⟩

/-- One move. -/
def step (M : Machine σ S E) (c : Pool σ S C A α) : Move A E → Pool σ S C A α
  | .run i a =>
    match c.threads[i]? with
    | some (.stmt s k) =>
      ⟨M.exec i s c.store, c.threads.set i (k c.store), c.trace ++ [.stmt i s c.store]⟩
    | some (.call cl k) => ⟨c.store, c.threads.set i (k a), c.trace ++ [.call i cl a c.store]⟩
    | _ => c
  | .die i =>
    ⟨M.abort i c.store, c.threads.set i .halt,
      c.trace ++ [.died i (c.threads[i]?.bind Prog.waiting)]⟩
  | .env e => { c with store := M.env e c.store }

/-- The event a move would record, if it is a step of a handler. -/
def event (c : Pool σ S C A α) : Move A E → Option (Event σ S C A)
  | .run i a =>
    match c.threads[i]? with
    | some (.stmt s _) => some (.stmt i s c.store)
    | some (.call cl _) => some (.call i cl a c.store)
    | _ => none
  | .die i => some (.died i (c.threads[i]?.bind Prog.waiting))
  | .env _ => none

/-- Run a whole schedule. -/
def run (M : Machine σ S E) (c : Pool σ S C A α) (ms : List (Move A E)) : Pool σ S C A α :=
  ms.foldl (step M) c

/-- Reachable by moves whose events meet `ok`, a condition on the event and on
the history before it. -/
inductive Reach (M : Machine σ S E) (ok : List (Event σ S C A) → Event σ S C A → Prop)
    (c₀ : Pool σ S C A α) : Pool σ S C A α → Prop
  | start : Reach M ok c₀ c₀
  | step {c : Pool σ S C A α} (h : Reach M ok c₀ c) (m : Move A E)
      (hok : ∀ ev, c.event m = some ev → ok c.trace ev) : Reach M ok c₀ (c.step M m)

/-- No condition on the run. -/
def Free : List (Event σ S C A) → Event σ S C A → Prop := fun _ _ => True

theorem reach_run (M : Machine σ S E) (c₀ : Pool σ S C A α) (ms : List (Move A E)) :
    ∀ c, Reach M Free c₀ c → Reach M Free c₀ (c.run M ms) := by
  induction ms with
  | nil => intro c h; exact h
  | cons m ms ih => intro c h; exact ih _ (.step h m fun _ _ => trivial)

variable {M : Machine σ S E} {ok : List (Event σ S C A) → Event σ S C A → Prop}
  {c₀ c₁ c₂ : Pool σ S C A α}

end Pool

/-! ## Protocols -/

/-- Which steps a handler may take in which phase, and the phase after. -/
structure Protocol (σ S C A Q : Type) where
  stmt : Q → S → σ → Q → Prop
  call : Q → C → A → Q → Prop

namespace Prog

/-- The tree follows the protocol from phase `q`, on whatever store each of its
statements runs and whatever answers it gets, and returns only with `Post`. -/
def Conforms (π : Protocol σ S C A Q) (Post : α → Q → Prop) : Prog σ S C A α → Q → Prop
  | ret a, q => Post a q
  | halt, _ => True
  | stmt s k, q => ∀ st, ∃ q', π.stmt q s st q' ∧ (k st).Conforms π Post q'
  | call c k, q => ∀ a, ∃ q', π.call q c a q' ∧ (k a).Conforms π Post q'

variable {π : Protocol σ S C A Q} {Post Post' : α → Q → Prop}

@[simp] theorem conforms_ret {a : α} {q : Q} :
    (ret a : Prog σ S C A α).Conforms π Post q ↔ Post a q := Iff.rfl

@[simp] theorem conforms_halt {q : Q} :
    (halt : Prog σ S C A α).Conforms π Post q ↔ True := Iff.rfl

theorem conforms_mono (hP : ∀ a q, Post a q → Post' a q) :
    ∀ {p : Prog σ S C A α} {q : Q}, p.Conforms π Post q → p.Conforms π Post' q := by
  intro p
  induction p with
  | ret a => intro q h; exact hP a q h
  | halt => intro q _; trivial
  | stmt s k ih =>
    intro q h st
    obtain ⟨q', hs, hk⟩ := h st
    exact ⟨q', hs, ih st hk⟩
  | call c k ih =>
    intro q h a
    obtain ⟨q', hs, hk⟩ := h a
    exact ⟨q', hs, ih a hk⟩

/-- A protocol that simulates another: what follows the first follows the second. -/
theorem conforms_map {Q' : Type} {ρ : Protocol σ S C A Q'} {Post' : α → Q' → Prop} (f : Q → Q')
    (hstmt : ∀ q s st q', π.stmt q s st q' → ρ.stmt (f q) s st (f q'))
    (hcall : ∀ q c a q', π.call q c a q' → ρ.call (f q) c a (f q'))
    (hP : ∀ a q, Post a q → Post' a (f q)) :
    ∀ {p : Prog σ S C A α} {q : Q}, p.Conforms π Post q → p.Conforms ρ Post' (f q) := by
  intro p
  induction p with
  | ret a => intro q h; exact hP a q h
  | halt => intro q _; trivial
  | stmt s k ih =>
    intro q h st
    obtain ⟨q', hs, hk⟩ := h st
    exact ⟨f q', hstmt q s st q' hs, ih st hk⟩
  | call c k ih =>
    intro q h a
    obtain ⟨q', hs, hk⟩ := h a
    exact ⟨f q', hcall q c a q' hs, ih a hk⟩

/-- The sequencing rule of conformance. -/
theorem conforms_bind {f : α → Prog σ S C A β} {R : β → Q → Prop} :
    ∀ {p : Prog σ S C A α} {q : Q},
      p.Conforms π (fun a q' => (f a).Conforms π R q') q → (p >>= f).Conforms π R q := by
  intro p
  induction p with
  | ret a => intro q h; exact h
  | halt => intro q _; trivial
  | stmt s k ih =>
    intro q h st
    obtain ⟨q', hs, hk⟩ := h st
    exact ⟨q', hs, ih st hk⟩
  | call c k ih =>
    intro q h a
    obtain ⟨q', hs, hk⟩ := h a
    exact ⟨q', hs, ih a hk⟩

/-- A tree that follows a protocol, run alone: what every allowed step keeps holds
when it ends, at a phase from which it returned as promised. -/
theorem wp_of_conforms {exec : S → σ → σ} {K : σ → List (C × Option A) → Q → Prop}
    (hstmt : ∀ st h q s q', K st h q → π.stmt q s st q' → K (exec s st) h q')
    (hwait : ∀ st h q c, K st h q → K st (h ++ [(c, none)]) q)
    (hcall : ∀ st h q c a q', K st h q → π.call q c a q' → K st (h ++ [(c, some a)]) q') :
    ∀ {p : Prog σ S C A α} {q : Q} {h : List (C × Option A)} {st : σ}, p.Conforms π Post q → K st h q →
      p.Wp exec (fun st h r => ∃ q', K st h q' ∧ ∀ a, r = some a → Post a q') h st := by
  intro p
  induction p with
  | ret a =>
    intro q h st hp hK
    exact ⟨q, hK, fun b hb => (Option.some.inj hb) ▸ hp⟩
  | halt => intro q h st _ hK; exact ⟨q, hK, fun b hb => absurd hb (by simp)⟩
  | stmt s k ih =>
    intro q h st hp hK
    obtain ⟨q', hs, hk⟩ := hp st
    exact ih st hk (hstmt _ _ _ _ _ hK hs)
  | call c k ih =>
    intro q h st hp hK
    refine ⟨⟨q, hwait _ _ _ _ hK, fun b hb => absurd hb (by simp)⟩, fun a => ?_⟩
    obtain ⟨q', hs, hk⟩ := hp a
    exact ih a hk (hcall _ _ _ _ _ _ hK hs)

/-- `conforms_bind`, with the first part's own postcondition. -/
theorem conforms_seq {p : Prog σ S C A α} {f : α → Prog σ S C A β} {R : β → Q → Prop} {q : Q}
    (hp : p.Conforms π Post q) (hf : ∀ a q', Post a q' → (f a).Conforms π R q') :
    (p >>= f).Conforms π R q :=
  conforms_bind (conforms_mono hf hp)

/-- Parts that only run statements which every phase allows, and which only move a
phase up along `le`, end at a later phase. -/
theorem conforms_of_quiet {P : S → Prop} {R : α → Prop} {le : Q → Q → Prop}
    (hrefl : ∀ q, le q q) (htrans : ∀ q q' q'', le q q' → le q' q'' → le q q'')
    (hP : ∀ q s st, P s → ∃ q', π.stmt q s st q' ∧ le q q') :
    ∀ {p : Prog σ S C A α} {q : Q}, p.Quiet P R → p.Conforms π (fun a q' => le q q' ∧ R a) q := by
  intro p
  induction p with
  | ret a => intro q h; exact ⟨hrefl q, h⟩
  | halt => intro _ _; trivial
  | stmt s k ih =>
    intro q h st
    obtain ⟨q', hs, hle⟩ := hP q s st h.1
    exact ⟨q', hs, conforms_mono (fun a q'' hq => ⟨htrans _ _ _ hle hq.1, hq.2⟩) (ih st (h.2 st))⟩
  | call c k _ => intro _ h; exact h.elim

/-- A part of a smaller store, where its statements and calls leave the phase as it is. -/
theorem conforms_lifted {σ' S' : Type} {ρ : Protocol σ' S' C A Q} {get : σ' → σ} {wrap : S → S'} {q : Q}
    (hstmt : ∀ s st, ρ.stmt q (wrap s) st q) (hcall : ∀ c a, ρ.call q c a q) :
    ∀ p : Prog σ S C A α, (p.lifted get wrap).Conforms ρ (fun _ q' => q' = q) q := by
  intro p
  induction p with
  | ret a => exact rfl
  | halt => trivial
  | stmt s k ih => exact fun st => ⟨q, hstmt s st, ih (get st)⟩
  | call c k ih => exact fun a => ⟨q, hcall c a, ih a⟩

/-- Where a protocol restricts the calls, so do the trees that follow it. -/
theorem calls_of_conforms [Inhabited A] {P : C → Prop} {I : Q → Prop}
    (hstmt : ∀ q s st q', I q → π.stmt q s st q' → I q')
    (hcall : ∀ q c a q', I q → π.call q c a q' → P c ∧ I q') :
    ∀ {p : Prog σ S C A α} {q : Q}, I q → p.Conforms π Post q → p.Calls P := by
  intro p
  induction p with
  | ret a => intro q _ _; trivial
  | halt => intro q _ _; trivial
  | stmt s k ih =>
    intro q hq h st
    obtain ⟨q', hs, hk⟩ := h st
    exact ih st (hstmt q s st q' hq hs) hk
  | call c k ih =>
    intro q hq h
    constructor
    · obtain ⟨q', hc, -⟩ := h default
      exact (hcall q c default q' hq hc).1
    · intro a
      obtain ⟨q', hc, hk⟩ := h a
      exact ih a (hcall q c a q' hq hc).2 hk

/-- In a phase from which every step leads to such a phase again, anything conforms. -/
theorem conforms_of_all {I : Q → Prop} (hstmt : ∀ q s st, I q → ∃ q', π.stmt q s st q' ∧ I q')
    (hcall : ∀ q c a, I q → ∃ q', π.call q c a q' ∧ I q') :
    ∀ (p : Prog σ S C A α) {q : Q}, I q → p.Conforms π (fun _ _ => True) q := by
  intro p
  induction p with
  | ret a => intro q _; trivial
  | halt => intro q _; trivial
  | stmt s k ih =>
    intro q hq st
    obtain ⟨q', hs, hq'⟩ := hstmt q s st hq
    exact ⟨q', hs, ih st hq'⟩
  | call c k ih =>
    intro q hq a
    obtain ⟨q', hs, hq'⟩ := hcall q c a hq
    exact ⟨q', hs, ih a hq'⟩

end Prog

/-- Two protocols followed at once. -/
def Protocol.prod {Q' : Type} (π : Protocol σ S C A Q) (ρ : Protocol σ S C A Q') :
    Protocol σ S C A (Q × Q') where
  stmt q s st q' := π.stmt q.1 s st q'.1 ∧ ρ.stmt q.2 s st q'.2
  call q c a q' := π.call q.1 c a q'.1 ∧ ρ.call q.2 c a q'.2

/-- What follows each of two protocols follows both. -/
theorem Prog.conforms_prod {Q' : Type} {π : Protocol σ S C A Q} {ρ : Protocol σ S C A Q'}
    {Post : α → Q → Prop} {Post' : α → Q' → Prop} :
    ∀ {p : Prog σ S C A α} {q : Q} {q' : Q'}, p.Conforms π Post q → p.Conforms ρ Post' q' →
      p.Conforms (π.prod ρ) (fun a qq => Post a qq.1 ∧ Post' a qq.2) (q, q') := by
  intro p
  induction p with
  | ret a => intro q q' h h'; exact ⟨h, h'⟩
  | halt => intro q q' _ _; trivial
  | stmt s k ih =>
    intro q q' h h' st
    obtain ⟨r, hr, hk⟩ := h st
    obtain ⟨r', hr', hk'⟩ := h' st
    exact ⟨(r, r'), ⟨hr, hr'⟩, ih st hk hk'⟩
  | call c k ih =>
    intro q q' h h' a
    obtain ⟨r, hr, hk⟩ := h a
    obtain ⟨r', hr', hk'⟩ := h' a
    exact ⟨(r, r'), ⟨hr, hr'⟩, ih a hk hk'⟩

namespace Pool

variable {M : Machine σ S E} {ok : List (Event σ S C A) → Event σ S C A → Prop}
  {π : Protocol σ S C A Q}

/-- Every thread follows the protocol from its phase. -/
def Follows (π : Protocol σ S C A Q) (Post : Nat → α → Q → Prop) (c : Pool σ S C A α)
    (qs : Nat → Q) : Prop :=
  ∀ (i : Nat) (p : Prog σ S C A α), c.threads[i]? = some p → p.Conforms π (Post i) (qs i)

/-- Replacing the tree and the phase of one thread. -/
theorem follows_set {Post : Nat → α → Q → Prop} {c : Pool σ S C A α} {qs : Nat → Q}
    (h : c.Follows π Post qs) {i : Nat} {p : Prog σ S C A α} {q : Q}
    (hp : p.Conforms π (Post i) q) {st : σ} {tr : List (Event σ S C A)} :
    (⟨st, c.threads.set i p, tr⟩ : Pool σ S C A α).Follows π Post (Function.update qs i q) := by
  intro j p' hj
  by_cases hij : i = j
  · subst hij
    have hp' : p' = p := by
      simp only [List.getElem?_set, if_true] at hj
      split at hj <;> simp_all
    subst hp'
    simpa using hp
  · simp only [List.getElem?_set, if_neg hij] at hj
    rw [Function.update_of_ne (Ne.symm hij)]
    exact h j p' hj

/-- **The simulation rule.** If every thread follows the protocol from its first
phase, and `J` (of the store, the phases and the history) is kept by every step
the protocol allows, then `J` holds in every reachable pool, at phases from which
the threads still follow the protocol. -/
theorem sim {J : σ → (Nat → Q) → List (Event σ S C A) → Prop} {Post : Nat → α → Q → Prop}
    (hstmt : ∀ st qs tr i s q', J st qs tr → ok tr (.stmt i s st) → π.stmt (qs i) s st q' →
      J (M.exec i s st) (Function.update qs i q') (tr ++ [.stmt i s st]))
    (hcall : ∀ st qs tr i c a q', J st qs tr → ok tr (.call i c a st) → π.call (qs i) c a q' →
      J st (Function.update qs i q') (tr ++ [.call i c a st]))
    (hdie : ∀ st qs tr i w, J st qs tr → ok tr (.died i w) →
      (∀ c, w = some c → ∀ a, ∃ q', π.call (qs i) c a q') →
      ∃ q', J (M.abort i st) (Function.update qs i q') (tr ++ [.died i w]))
    (henv : ∀ st qs tr e, J st qs tr → J (M.env e st) qs tr)
    {c₀ : Pool σ S C A α} {q₀ : Nat → Q} (h₀ : J c₀.store q₀ c₀.trace)
    (hf₀ : c₀.Follows π Post q₀) {c : Pool σ S C A α} (h : Reach M ok c₀ c) :
    ∃ qs, J c.store qs c.trace ∧ c.Follows π Post qs := by
  induction h with
  | start => exact ⟨q₀, h₀, hf₀⟩
  | @step c _ m hok ih =>
    obtain ⟨qs, hJ, hf⟩ := ih
    cases m with
    | run i a =>
      cases hi : c.threads[i]? with
      | none => exact ⟨qs, by simpa [step, hi] using hJ, by simpa [step, hi] using hf⟩
      | some p =>
        cases p with
        | ret v => exact ⟨qs, by simpa [step, hi] using hJ, by simpa [step, hi] using hf⟩
        | halt => exact ⟨qs, by simpa [step, hi] using hJ, by simpa [step, hi] using hf⟩
        | stmt s k =>
          obtain ⟨q', hs, hk⟩ := hf i _ hi c.store
          have hev := hok (.stmt i s c.store) (by simp [event, hi])
          refine ⟨Function.update qs i q', ?_, ?_⟩
          · simpa [step, hi] using hstmt _ _ _ _ _ _ hJ hev hs
          · simp only [step, hi]
            exact follows_set hf hk
        | call cl k =>
          obtain ⟨q', hs, hk⟩ := hf i _ hi a
          have hev := hok (.call i cl a c.store) (by simp [event, hi])
          refine ⟨Function.update qs i q', ?_, ?_⟩
          · simpa [step, hi] using hcall _ _ _ _ _ _ _ hJ hev hs
          · simp only [step, hi]
            exact follows_set hf hk
    | die i =>
      have hw : ∀ cl, c.threads[i]?.bind Prog.waiting = some cl →
          ∀ a, ∃ q', π.call (qs i) cl a q' := by
        intro cl hcl a
        cases hi : c.threads[i]? with
        | none => simp [hi] at hcl
        | some p =>
          cases p with
          | call cl' k =>
            obtain rfl : cl' = cl := by simpa [hi, Prog.waiting] using hcl
            obtain ⟨q', hq', _⟩ := hf i _ hi a
            exact ⟨q', hq'⟩
          | ret v => simp [hi, Prog.waiting] at hcl
          | halt => simp [hi, Prog.waiting] at hcl
          | stmt s k => simp [hi, Prog.waiting] at hcl
      obtain ⟨q', hq'⟩ := hdie _ _ _ i _ hJ (hok _ rfl) hw
      exact ⟨Function.update qs i q', hq', follows_set hf (Prog.conforms_halt.mpr trivial)⟩
    | env e => exact ⟨qs, henv _ _ _ e hJ, hf⟩

/-! ## What one more move does -/

/-- A move changes the store by one statement, one death, the environment, or not. -/
theorem step_store (c : Pool σ S C A α) (m : Move A E) :
    (c.step M m).store = c.store ∨
    (∃ i a s k, m = .run i a ∧ c.threads[i]? = some (.stmt s k) ∧
      (c.step M m).store = M.exec i s c.store) ∨
    (∃ i, m = .die i ∧ (c.step M m).store = M.abort i c.store) ∨
    ∃ e, m = .env e ∧ (c.step M m).store = M.env e c.store := by
  cases m with
  | run i a =>
    cases hi : c.threads[i]? with
    | none => exact .inl (by simp [step, hi])
    | some p =>
      cases p with
      | stmt s k => exact .inr (.inl ⟨i, a, s, k, rfl, hi, by simp [step, hi]⟩)
      | call cl k => exact .inl (by simp [step, hi])
      | ret v => exact .inl (by simp [step, hi])
      | halt => exact .inl (by simp [step, hi])
  | die i => exact .inr (.inr (.inl ⟨i, rfl, rfl⟩))
  | env e => exact .inr (.inr (.inr ⟨e, rfl, rfl⟩))

/-- A handler about to run a statement is allowed to. -/
theorem Follows.stmt {Post : Nat → α → Q → Prop} {c : Pool σ S C A α} {qs : Nat → Q}
    (h : c.Follows π Post qs) {i : Nat} {s : S} {k : σ → Prog σ S C A α}
    (hi : c.threads[i]? = some (.stmt s k)) : ∃ q', π.stmt (qs i) s c.store q' := by
  obtain ⟨q', hs, _⟩ := h i _ hi c.store
  exact ⟨q', hs⟩

/-! ## Histories -/

/-- Every event of the history satisfies `P`, given what came before it. -/
def Throughout (P : List (Event σ S C A) → Event σ S C A → Prop) (tr : List (Event σ S C A)) :
    Prop :=
  ∀ pre ev post, tr = pre ++ ev :: post → P pre ev

theorem throughout_nil {P : List (Event σ S C A) → Event σ S C A → Prop} : Throughout P [] :=
  fun pre ev post h => absurd h (by simp)

theorem throughout_snoc {P : List (Event σ S C A) → Event σ S C A → Prop}
    {tr : List (Event σ S C A)} {ev : Event σ S C A} (h : Throughout P tr) (hev : P tr ev) :
    Throughout P (tr ++ [ev]) := by
  intro pre ev' post heq
  rcases List.eq_nil_or_concat post with rfl | ⟨post', last, rfl⟩
  · obtain ⟨rfl, hlast⟩ := List.append_inj' heq rfl
    obtain rfl := List.singleton_inj.mp hlast
    exact hev
  · have heq' : tr ++ [ev] = (pre ++ ev' :: post') ++ [last] := by simpa using heq
    obtain ⟨htr, _⟩ := List.append_inj' heq' rfl
    exact h pre ev' post' htr

theorem throughout_of_forall {P : Event σ S C A → Prop} {tr : List (Event σ S C A)}
    (h : ∀ ev ∈ tr, P ev) : Throughout (fun _ ev => P ev) tr := by
  rintro pre ev post rfl
  exact h ev (List.mem_append_right _ List.mem_cons_self)

/-- Event by event, as it can be computed. -/
theorem throughout_of_take {P : List (Event σ S C A) → Event σ S C A → Prop}
    {tr : List (Event σ S C A)} (h : ∀ k : Fin tr.length, P (tr.take k) tr[k]) :
    Throughout P tr := by
  rintro pre ev post rfl
  simpa using h ⟨pre.length, by simp⟩

/-- A move appends its event to the history, if it has one. -/
theorem step_trace (c : Pool σ S C A α) (m : Move A E) :
    (c.step M m).trace = c.trace ++ (c.event m).toList := by
  cases m with
  | run i a =>
    cases hi : c.threads[i]? with
    | none => simp [step, event, hi]
    | some p => cases p <;> simp [step, event, hi]
  | die i => simp [step, event]
  | env e => simp [step, event]

/-- A run only appends to the history. -/
theorem run_trace (ms : List (Move A E)) :
    ∀ c : Pool σ S C A α, ∃ post, (c.run M ms).trace = c.trace ++ post := by
  induction ms with
  | nil => intro c; exact ⟨[], (List.append_nil _).symm⟩
  | cons m ms ih =>
    intro c
    obtain ⟨post, hpost⟩ := ih (c.step M m)
    refine ⟨(c.event m).toList ++ post, ?_⟩
    show ((c.step M m).run M ms).trace = _
    rw [hpost, step_trace, List.append_assoc]

/-- A run whose history meets the condition throughout is one of those the condition
allows. -/
theorem reach_of_throughout {c₀ : Pool σ S C A α} :
    ∀ (ms : List (Move A E)) (c : Pool σ S C A α), Reach M ok c₀ c →
      Throughout ok (c.run M ms).trace → Reach M ok c₀ (c.run M ms) := by
  intro ms
  induction ms with
  | nil => intro c h _; exact h
  | cons m ms ih =>
    intro c h hall
    refine ih _ (.step h m fun ev hev => ?_) hall
    obtain ⟨post, hpost⟩ := run_trace (M := M) ms (c.step M m)
    have hstep : (c.step M m).trace = c.trace ++ [ev] := by rw [step_trace, hev]; rfl
    refine hall c.trace ev post ?_
    show ((c.step M m).run M ms).trace = _
    rw [hpost, hstep, List.append_assoc]
    rfl

/-- The calls of a history, with their answers. -/
def calls (tr : List (Event σ S C A)) : List (Nat × C × A) :=
  tr.filterMap fun
    | .call i c a _ => some (i, c, a)
    | _ => none

@[simp] theorem calls_stmt (tr : List (Event σ S C A)) (i : Nat) (s : S) (st : σ) :
    calls (tr ++ [.stmt i s st]) = calls tr := by
  simp [calls]

@[simp] theorem calls_call (tr : List (Event σ S C A)) (i : Nat) (c : C) (a : A) (st : σ) :
    calls (tr ++ [.call i c a st]) = calls tr ++ [(i, c, a)] := by
  simp [calls]

@[simp] theorem calls_died (tr : List (Event σ S C A)) (i : Nat) (w : Option C) :
    calls (tr ++ [.died i w]) = calls tr := by
  simp [calls]

theorem mem_calls {tr : List (Event σ S C A)} {i : Nat} {c : C} {a : A} :
    (i, c, a) ∈ calls tr ↔ ∃ st, .call i c a st ∈ tr := by
  unfold calls
  rw [List.mem_filterMap]
  constructor
  · rintro ⟨ev, hev, h⟩
    cases ev <;> simp at h
    obtain ⟨rfl, rfl, rfl⟩ := h
    exact ⟨_, hev⟩
  · rintro ⟨st, h⟩
    exact ⟨_, h, rfl⟩

end Pool

end Atomic
