import Mathlib.Logic.Basic

/-!
# Handler programs: atomic statements, outside calls, early death

A request handler touches the world in exactly two ways. It runs a *statement* on
a store shared with every other handler (one query, or one transaction that
becomes visible at once), or it makes a *call* to somebody outside, whose answer
it cannot predict. `Prog` is the tree of everything a handler may do: at a
statement it branches on the store the statement ran on, at a call it branches on
the answer. Local variables live in the branches, so nothing a handler remembers
is ever lost or refreshed behind its back.

Two semantics are given to the same tree. `eval` runs it alone, from a list of
answers (an exhausted list is a handler that never hears back from its last call). `Pool.lean` runs
any number of trees interleaved. `Wp` is the precondition calculus of the first.
-/

namespace Atomic

/-- A handler over a store `σ`, statements `S`, calls `C` with answers `A`.
`halt` is a handler that is gone: an unhandled exception, or the process died. -/
inductive Prog (σ S C A α : Type) : Type
  | ret (a : α)
  | halt
  | stmt (s : S) (k : σ → Prog σ S C A α)
  | call (c : C) (k : A → Prog σ S C A α)

namespace Prog

variable {σ S C A α β : Type}

/-- Sequencing; a halted handler does not continue. -/
def bind : Prog σ S C A α → (α → Prog σ S C A β) → Prog σ S C A β
  | ret a, f => f a
  | halt, _ => halt
  | stmt s k, f => stmt s fun st => (k st).bind f
  | call c k, f => call c fun a => (k a).bind f

instance : Monad (Prog σ S C A) where
  pure := ret
  bind := bind

@[simp] theorem pure_eq (a : α) : (pure a : Prog σ S C A α) = ret a := rfl

@[simp] theorem ret_bind (a : α) (f : α → Prog σ S C A β) : (ret a >>= f) = f a := rfl

@[simp] theorem halt_bind (f : α → Prog σ S C A β) : (halt >>= f) = halt := rfl

@[simp] theorem stmt_bind (s : S) (k : σ → Prog σ S C A α) (f : α → Prog σ S C A β) :
    (stmt s k >>= f) = stmt s fun st => k st >>= f := rfl

@[simp] theorem call_bind (c : C) (k : A → Prog σ S C A α) (f : α → Prog σ S C A β) :
    (call c k >>= f) = call c fun a => k a >>= f := rfl

theorem bind_ret (p : Prog σ S C A α) : (p >>= ret) = p := by
  induction p with
  | ret a => rfl
  | halt => rfl
  | stmt s k ih => exact congrArg (stmt s) (funext ih)
  | call c k ih => exact congrArg (call c) (funext ih)

theorem bind_assoc {γ : Type} (p : Prog σ S C A α) (f : α → Prog σ S C A β)
    (g : β → Prog σ S C A γ) : (p >>= f >>= g) = (p >>= fun a => f a >>= g) := by
  induction p with
  | ret a => rfl
  | halt => rfl
  | stmt s k ih => exact congrArg (stmt s) (funext ih)
  | call c k ih => exact congrArg (call c) (funext ih)

/-- The handler has nothing left to do. -/
def Ended : Prog σ S C A α → Prop
  | ret _ => True
  | halt => True
  | _ => False

/-! ## Running a handler alone -/

/-- What a handler run alone leaves behind: the store, the calls it made with
their answers (the last may have none), the answers it did not use, and the value it
returned, if it did. -/
structure Outcome (σ C A α : Type) where
  store : σ
  calls : List (C × Option A)
  rest : List A
  value : Option α

/-- Run a handler alone on the answers `as`. Without an answer left, the handler
waits for ever on its call: nothing more happens. -/
def eval (exec : S → σ → σ) : Prog σ S C A α → List A → σ → Outcome σ C A α
  | ret a, as, st => ⟨st, [], as, some a⟩
  | halt, as, st => ⟨st, [], as, none⟩
  | stmt s k, as, st => (k st).eval exec as (exec s st)
  | call c _, [], st => ⟨st, [(c, none)], [], none⟩
  | call c k, a :: as, st =>
    let o := (k a).eval exec as st
    { o with calls := (c, some a) :: o.calls }

/-! ## The precondition of a handler run alone -/

/-- `p.Wp exec Q h st`: whatever the answers, when `p` is run alone from `st`
having already made the calls `h`, the store, all the calls, and the value left
behind satisfy `Q`, also when the handler dies waiting for an answer. -/
def Wp (exec : S → σ → σ) (Q : σ → List (C × Option A) → Option α → Prop) :
    Prog σ S C A α → List (C × Option A) → σ → Prop
  | ret a, h, st => Q st h (some a)
  | halt, h, st => Q st h none
  | stmt s k, h, st => (k st).Wp exec Q h (exec s st)
  | call c k, h, st =>
    Q st (h ++ [(c, none)]) none ∧ ∀ a, (k a).Wp exec Q (h ++ [(c, some a)]) st

variable {exec : S → σ → σ} {Q Q' : σ → List (C × Option A) → Option α → Prop}

@[simp] theorem wp_ret {a : α} {h : List (C × Option A)} {st : σ} :
    (ret a : Prog σ S C A α).Wp exec Q h st ↔ Q st h (some a) := Iff.rfl

@[simp] theorem wp_halt {h : List (C × Option A)} {st : σ} :
    (halt : Prog σ S C A α).Wp exec Q h st ↔ Q st h none := Iff.rfl

@[simp] theorem wp_stmt {s : S} {k : σ → Prog σ S C A α} {h : List (C × Option A)} {st : σ} :
    (stmt s k).Wp exec Q h st ↔ (k st).Wp exec Q h (exec s st) := Iff.rfl

@[simp] theorem wp_call {c : C} {k : A → Prog σ S C A α} {h : List (C × Option A)} {st : σ} :
    (call c k).Wp exec Q h st ↔
      Q st (h ++ [(c, none)]) none ∧ ∀ a, (k a).Wp exec Q (h ++ [(c, some a)]) st := Iff.rfl

/-- A weaker postcondition is easier to reach. -/
theorem wp_mono (hQ : ∀ st h r, Q st h r → Q' st h r) :
    ∀ {p : Prog σ S C A α} {h : List (C × Option A)} {st : σ}, p.Wp exec Q h st → p.Wp exec Q' h st := by
  intro p
  induction p with
  | ret a => intro h st hp; exact hQ _ _ _ hp
  | halt => intro h st hp; exact hQ _ _ _ hp
  | stmt s k ih => intro h st hp; exact ih _ hp
  | call c k ih => intro h st hp; exact ⟨hQ _ _ _ hp.1, fun a => ih a (hp.2 a)⟩

/-- What every statement keeps holds however a handler ends. -/
theorem wp_of_invariant {I : σ → Prop} (hI : ∀ s st, I st → I (exec s st)) :
    ∀ (p : Prog σ S C A α) (h : List (C × Option A)) {st : σ}, I st →
      p.Wp exec (fun st _ _ => I st) h st := by
  intro p
  induction p with
  | ret a => intro h st hi; exact hi
  | halt => intro h st hi; exact hi
  | stmt s k ih => intro h st hi; exact ih _ h (hI s st hi)
  | call c k ih => intro h st hi; exact ⟨hi, fun a => ih a _ hi⟩

/-- The sequencing rule: the first part must reach the precondition of the second,
and the postcondition itself where it dies. -/
theorem wp_bind {f : α → Prog σ S C A β} {R : σ → List (C × Option A) → Option β → Prop} :
    ∀ {p : Prog σ S C A α} {h : List (C × Option A)} {st : σ},
      p.Wp exec (fun st h r => match r with
        | some a => (f a).Wp exec R h st
        | none => R st h none) h st →
      (p >>= f).Wp exec R h st := by
  intro p
  induction p with
  | ret a => intro h st hp; exact hp
  | halt => intro h st hp; exact hp
  | stmt s k ih => intro h st hp; exact ih _ hp
  | call c k ih => intro h st hp; exact ⟨hp.1, fun a => ih a (hp.2 a)⟩

/-- The calls an evaluation reports are those it makes, after the ones already made. -/
theorem eval_of_wp :
    ∀ {p : Prog σ S C A α} {h : List (C × Option A)} (as : List A) {st : σ}, p.Wp exec Q h st →
      Q (p.eval exec as st).store (h ++ (p.eval exec as st).calls) (p.eval exec as st).value := by
  intro p
  induction p with
  | ret a => intro h as st hp; simpa [eval] using hp
  | halt => intro h as st hp; simpa [eval] using hp
  | stmt s k ih => intro h as st hp; exact ih _ as hp
  | call c k ih =>
    intro h as st hp
    cases as with
    | nil => simpa [eval] using hp.1
    | cons a as =>
      have := ih a as (hp.2 a)
      simpa [eval, List.append_assoc] using this

/-- Soundness of `Wp`: every run alone ends in its postcondition. -/
theorem eval_spec {p : Prog σ S C A α} (as : List A) {st : σ} (hp : p.Wp exec Q [] st) :
    Q (p.eval exec as st).store (p.eval exec as st).calls (p.eval exec as st).value := by
  simpa using eval_of_wp as hp

/-! ## Parts that only look -/

/-- The part makes no call, runs only statements that satisfy `P`, and returns only
values that satisfy `R`, whatever stores it meets. -/
def Quiet (P : S → Prop) (R : α → Prop) : Prog σ S C A α → Prop
  | ret a => R a
  | halt => True
  | stmt s k => P s ∧ ∀ st, (k st).Quiet P R
  | call _ _ => False

variable {P : S → Prop} {R R' : α → Prop}

@[simp] theorem quiet_ret {a : α} : (ret a : Prog σ S C A α).Quiet P R ↔ R a := Iff.rfl

@[simp] theorem quiet_halt : (halt : Prog σ S C A α).Quiet P R ↔ True := Iff.rfl

@[simp] theorem quiet_stmt {s : S} {k : σ → Prog σ S C A α} :
    (stmt s k).Quiet P R ↔ P s ∧ ∀ st, (k st).Quiet P R := Iff.rfl

theorem quiet_mono (hR : ∀ a, R a → R' a) :
    ∀ {p : Prog σ S C A α}, p.Quiet P R → p.Quiet P R' := by
  intro p
  induction p with
  | ret a => intro h; exact hR a h
  | halt => intro _; trivial
  | stmt s k ih => intro h; exact ⟨h.1, fun st => ih st (h.2 st)⟩
  | call c k _ => intro h; exact h.elim

theorem quiet_bind {f : α → Prog σ S C A β} {R : β → Prop} {R' : α → Prop} :
    ∀ {p : Prog σ S C A α}, p.Quiet P R' → (∀ a, R' a → (f a).Quiet P R) →
      (p >>= f).Quiet P R := by
  intro p
  induction p with
  | ret a => intro h hf; exact hf a h
  | halt => intro _ _; trivial
  | stmt s k ih => intro h hf; exact ⟨h.1, fun st => ih st (h.2 st) hf⟩
  | call c k _ => intro h _; exact h.elim

/-- Run alone, such a part keeps what its statements keep and makes no call. -/
theorem wp_of_quiet {I : σ → Prop} (hI : ∀ s st, P s → I st → I (exec s st)) :
    ∀ {p : Prog σ S C A α} {h : List (C × Option A)} {st : σ}, p.Quiet P R → I st →
      p.Wp exec (fun st h' r => I st ∧ h' = h ∧ ∀ a, r = some a → R a) h st := by
  intro p
  induction p with
  | ret a => intro h st hp hi; exact ⟨hi, rfl, fun b hb => (Option.some.inj hb) ▸ hp⟩
  | halt => intro h st _ hi; exact ⟨hi, rfl, fun b hb => absurd hb (by simp)⟩
  | stmt s k ih => intro h st hp hi; exact ih _ (hp.2 st) (hI s st hp.1 hi)
  | call c k _ => intro h st hp _; exact hp.elim

/-! ## The calls a handler may make -/

/-- Every call the part may ever make satisfies `P`, whatever stores and answers it
meets. -/
def Calls (P : C → Prop) : Prog σ S C A α → Prop
  | ret _ => True
  | halt => True
  | stmt _ k => ∀ st, (k st).Calls P
  | call c k => P c ∧ ∀ a, (k a).Calls P

theorem calls_bind {P : C → Prop} {f : α → Prog σ S C A β} :
    ∀ {p : Prog σ S C A α}, p.Calls P → (∀ a, (f a).Calls P) → (p >>= f).Calls P := by
  intro p
  induction p with
  | ret a => intro _ hf; exact hf a
  | halt => intro _ _; trivial
  | stmt s k ih => intro h hf st; exact ih st (h st) hf
  | call c k ih => intro h hf; exact ⟨h.1, fun a => ih a (h.2 a) hf⟩

/-- Run alone, a part only adds calls it may make. -/
theorem wp_of_calls {P : C → Prop} :
    ∀ {p : Prog σ S C A α} {h : List (C × Option A)} {st : σ}, p.Calls P →
      p.Wp exec (fun _ h' _ => ∃ more, h' = h ++ more ∧ ∀ ca ∈ more, P ca.1) h st := by
  intro p
  induction p with
  | ret a => intro h st _; exact ⟨[], (List.append_nil h).symm, fun _ hm => absurd hm List.not_mem_nil⟩
  | halt => intro h st _; exact ⟨[], (List.append_nil h).symm, fun _ hm => absurd hm List.not_mem_nil⟩
  | stmt s k ih => intro h st hp; exact ih st (hp st)
  | call c k ih =>
    intro h st hp
    refine ⟨⟨[(c, none)], rfl, fun ca hca => by rw [List.mem_singleton.mp hca]; exact hp.1⟩, fun a => ?_⟩
    refine wp_mono ?_ (ih a (hp.2 a))
    rintro _ h' _ ⟨more, rfl, hmore⟩
    refine ⟨(c, some a) :: more, by rw [List.append_assoc]; rfl, fun ca hca => ?_⟩
    rcases List.mem_cons.mp hca with rfl | hca
    · exact hp.1
    · exact hmore ca hca

/-- What is left of a part after some of its steps. -/
inductive After : Prog σ S C A α → Prog σ S C A α → Prop
  | refl (p : Prog σ S C A α) : After p p
  | stmt {s : S} {k : σ → Prog σ S C A α} {q : Prog σ S C A α} (st : σ) (h : After (k st) q) :
    After (.stmt s k) q
  | call {c : C} {k : A → Prog σ S C A α} {q : Prog σ S C A α} (a : A) (h : After (k a) q) :
    After (.call c k) q

theorem Calls.after {P : C → Prop} {p q : Prog σ S C A α} (hp : p.Calls P) (h : After p q) :
    q.Calls P := by
  induction h with
  | refl p => exact hp
  | stmt st _ ih => exact ih (hp st)
  | call a _ ih => exact ih (hp.2 a)

/-! ## A part written for a part of the store -/

/-- The same handler on a larger store, its statements among others. -/
def lifted {σ' S' : Type} (get : σ' → σ) (wrap : S → S') : Prog σ S C A α → Prog σ' S' C A α
  | ret a => ret a
  | halt => halt
  | stmt s k => stmt (wrap s) fun st => (k (get st)).lifted get wrap
  | call c k => call c fun a => (k a).lifted get wrap

/-! ## Two runs side by side -/

/-- From related stores on, the two parts run the same statements, all of kind `P`, make the
same calls, and return related values. -/
def Alike (R : σ → σ → Prop) (P : S → Prop) (V : α → β → Prop) :
    Prog σ S C A α → Prog σ S C A β → Prop
  | ret a, ret b => V a b
  | halt, halt => True
  | stmt s k, stmt s' k' => s = s' ∧ P s ∧ ∀ st st', R st st' → (k st).Alike R P V (k' st')
  | call c k, call c' k' => c = c' ∧ ∀ a, (k a).Alike R P V (k' a)
  | _, _ => False

section
variable {T : σ → σ → Prop} {P : S → Prop} {V : α → β → Prop}

theorem alike_bind {γ δ : Type} {W : γ → δ → Prop} {f : α → Prog σ S C A γ}
    {g : β → Prog σ S C A δ} :
    ∀ {p : Prog σ S C A α} {q : Prog σ S C A β}, p.Alike T P V q →
      (∀ a b, V a b → (f a).Alike T P W (g b)) → (p >>= f).Alike T P W (q >>= g) := by
  intro p
  induction p with
  | ret a =>
    intro q h hf
    cases q with
    | ret b => exact hf a b h
    | _ => exact h.elim
  | halt =>
    intro q h _
    cases q with
    | halt => trivial
    | _ => exact h.elim
  | stmt s k ih =>
    intro q h hf
    cases q with
    | stmt s' k' => exact ⟨h.1, h.2.1, fun st st' hT => ih st (h.2.2 st st' hT) hf⟩
    | _ => exact h.elim
  | call c k ih =>
    intro q h hf
    cases q with
    | call c' k' => exact ⟨h.1, fun a => ih a (h.2 a) hf⟩
    | _ => exact h.elim

/-- Related stores stay related, so the values of two such runs are. -/
theorem eval_alike (hexec : ∀ s st st', P s → T st st' → T (exec s st) (exec s st')) :
    ∀ {p : Prog σ S C A α} {q : Prog σ S C A β} (as : List A) {st st' : σ}, p.Alike T P V q → T st st' →
      T (p.eval exec as st).store (q.eval exec as st').store ∧
        Option.Rel V (p.eval exec as st).value (q.eval exec as st').value := by
  intro p
  induction p with
  | ret a =>
    intro q as st st' h hT
    cases q with
    | ret b => exact ⟨hT, .some h⟩
    | _ => exact h.elim
  | halt =>
    intro q as st st' h hT
    cases q with
    | halt => exact ⟨hT, .none⟩
    | _ => exact h.elim
  | stmt s k ih =>
    intro q as st st' h hT
    cases q with
    | stmt s' k' =>
      obtain ⟨rfl, hs, hk⟩ := h
      exact ih st (q := k' st') as (hk st st' hT) (hexec s st st' hs hT)
    | _ => exact h.elim
  | call c k ih =>
    intro q as st st' h hT
    cases q with
    | call c' k' =>
      obtain ⟨rfl, hk⟩ := h
      cases as with
      | nil => exact ⟨hT, .none⟩
      | cons a as => exact ih a as (hk a) hT
    | _ => exact h.elim

end

/-! ## The first statement of a kind -/

/-- The first statement of kind `K` that a run alone reaches, and the store it meets. -/
def first (exec : S → σ → σ) (K : S → Bool) : Prog σ S C A α → List A → σ → Option (σ × S)
  | ret _, _, _ => none
  | halt, _, _ => none
  | stmt s k, as, st => if K s then some (st, s) else (k st).first exec K as (exec s st)
  | call _ _, [], _ => none
  | call _ k, a :: as, st => (k a).first exec K as st

/-- The first statement of kind `K` on every path satisfies `P`; a path without one
returns only values that satisfy `R`. Nothing is said of what follows it. -/
def Leads (K : S → Bool) (P : S → Prop) (R : α → Prop) : Prog σ S C A α → Prop
  | ret a => R a
  | halt => True
  | stmt s k => if K s then P s else ∀ st, (k st).Leads K P R
  | call _ k => ∀ a, (k a).Leads K P R

section
variable {K : S → Bool} {P : S → Prop}

theorem leads_bind {f : α → Prog σ S C A β} {R : β → Prop} {R' : α → Prop} :
    ∀ {p : Prog σ S C A α}, p.Leads K P R' → (∀ a, R' a → (f a).Leads K P R) →
      (p >>= f).Leads K P R := by
  intro p
  induction p with
  | ret a => intro h hf; exact hf a h
  | halt => intro _ _; trivial
  | stmt s k ih =>
    intro h hf
    show if K s then P s else ∀ st, (k st >>= f).Leads K P R
    unfold Leads at h
    split at h
    · next hs =>
      rw [if_pos hs]
      exact h
    · next hs =>
      rw [if_neg hs]
      exact fun st => ih st (h st) hf
  | call c k ih => intro h hf a; exact ih a (h a) hf

/-- A part that runs no such statement. -/
theorem leads_of_quiet {K' : S → Prop} {R : α → Prop} (hK : ∀ s, K' s → K s = false) :
    ∀ {p : Prog σ S C A α}, p.Quiet K' R → p.Leads K P R := by
  intro p
  induction p with
  | ret a => intro h; exact h
  | halt => intro _; trivial
  | stmt s k ih =>
    intro h
    unfold Leads
    rw [if_neg (by rw [hK s h.1]; decide)]
    exact fun st => ih st (h.2 st)
  | call c k _ => intro h; exact h.elim

theorem leads_first {R : α → Prop} {s : S} {st' : σ} :
    ∀ {p : Prog σ S C A α} {as : List A} {st : σ}, p.Leads K P R →
      p.first exec K as st = some (st', s) → P s := by
  intro p
  induction p with
  | ret a => intro as st _ h; exact absurd h (by simp [first])
  | halt => intro as st _ h; exact absurd h (by simp [first])
  | stmt s' k ih =>
    intro as st hp h
    unfold first at h
    unfold Leads at hp
    split at h
    · next hs =>
      rw [if_pos hs] at hp
      rw [← (Prod.mk.inj (Option.some.inj h)).2]
      exact hp
    · next hs =>
      rw [if_neg hs] at hp
      exact ih _ (hp _) h
  | call c k ih =>
    intro as st hp h
    cases as with
    | nil => exact absurd h (by simp [first])
    | cons a as => exact ih a (hp a) h

/-- What that statement brings about, and every later one keeps, holds in the end. -/
theorem first_eval {I : σ → Prop} (hI : ∀ s st, I st → I (exec s st)) {s : S} {st' : σ}
    (hs : I (exec s st')) :
    ∀ {p : Prog σ S C A α} {as : List A} {st : σ}, p.first exec K as st = some (st', s) →
      I (p.eval exec as st).store := by
  intro p
  induction p with
  | ret a => intro as st h; exact absurd h (by simp [first])
  | halt => intro as st h; exact absurd h (by simp [first])
  | stmt s' k ih =>
    intro as st h
    unfold first at h
    split at h
    · obtain ⟨rfl, rfl⟩ := Prod.mk.inj (Option.some.inj h)
      have hrest := eval_spec as (wp_of_invariant hI (k st) [] hs)
      exact hrest
    · exact ih _ h
  | call c k ih =>
    intro as st h
    cases as with
    | nil => exact absurd h (by simp [first])
    | cons a as => exact ih a h

/-- Only the value of the part is changed. -/
theorem eval_map {f : α → β} : ∀ {p : Prog σ S C A α} {as : List A} {st : σ},
    (p >>= fun a => pure (f a)).eval exec as st =
      ⟨(p.eval exec as st).store, (p.eval exec as st).calls, (p.eval exec as st).rest,
        (p.eval exec as st).value.map f⟩ := by
  intro p
  induction p with
  | ret a => intro as st; rfl
  | halt => intro as st; rfl
  | stmt s k ih => intro as st; exact ih st
  | call c k ih =>
    intro as st
    cases as with
    | nil => rfl
    | cons a as =>
      exact congrArg (fun o : Outcome σ C A β => { o with calls := (c, some a) :: o.calls }) (ih a)

theorem first_map {f : α → β} : ∀ {p : Prog σ S C A α} {as : List A} {st : σ},
    (p >>= fun a => pure (f a)).first exec K as st = p.first exec K as st := by
  intro p
  induction p with
  | ret a => intro as st; rfl
  | halt => intro as st; rfl
  | stmt s k ih =>
    intro as st
    show (if K s then some (st, s)
      else (k st >>= fun a => pure (f a)).first exec K as (exec s st)) = _
    rw [ih]
    rfl
  | call c k ih =>
    intro as st
    cases as with
    | nil => rfl
    | cons a as => exact ih a

end

end Prog

end Atomic
