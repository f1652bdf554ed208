import Paari.Lib.Pool

/-!
# The other side of the calls

A handler cannot predict the answers to its calls. Where the one who answers is itself a
program, with a state of its own, they are not arbitrary: `Served` says of a history that its
calls were answered by a `Service`, one at a time, among whatever else the service was asked in
between. Every answer of such a history is then the answer of a state that the present one was
reached from (`Served.answered`), so what the service never takes back still holds
(`Leads.keeps`).
-/

namespace Atomic

variable {σ S C A E τ O α : Type}

/-- Somebody who answers calls, and whom others use as well. -/
structure Service (τ C A O : Type) where
  serve : C → τ → τ × A
  other : O → τ → τ

namespace Service

variable (V : Service τ C A O)

/-- The service gets from the first state to the second. -/
inductive Leads : τ → τ → Prop
  | refl (t : τ) : Leads t t
  | serve {t t' : τ} (c : C) (h : Leads t t') : Leads t (V.serve c t').1
  | other {t t' : τ} (o : O) (h : Leads t t') : Leads t (V.other o t')

/-- The calls of the history that are the service's own were answered by it, from the state `t`
on; a call whose handler died waiting may have reached it or not. -/
inductive Served (own : C → Prop) (t : τ) : List (Event σ S C A) → τ → Prop
  | start : Served own t [] t
  | other {tr : List (Event σ S C A)} {t' : τ} (o : O) (h : Served own t tr t') :
    Served own t tr (V.other o t')
  | stmt {tr : List (Event σ S C A)} {t' : τ} (i : Nat) (s : S) (st : σ) (h : Served own t tr t') :
    Served own t (tr ++ [.stmt i s st]) t'
  | call {tr : List (Event σ S C A)} {t' : τ} (i : Nat) (c : C) (st : σ) (hown : own c)
    (h : Served own t tr t') :
    Served own t (tr ++ [.call i c (V.serve c t').2 st]) (V.serve c t').1
  | elsewhere {tr : List (Event σ S C A)} {t' : τ} (i : Nat) (c : C) (a : A) (st : σ)
    (hown : ¬ own c) (h : Served own t tr t') : Served own t (tr ++ [.call i c a st]) t'
  | died {tr : List (Event σ S C A)} {t' : τ} (i : Nat) (w : Option C) (h : Served own t tr t') :
    Served own t (tr ++ [.died i w]) t'
  | lost {tr : List (Event σ S C A)} {t' : τ} (i : Nat) (c : C) (hown : own c)
    (h : Served own t tr t') : Served own t (tr ++ [.died i (some c)]) (V.serve c t').1

variable {V} {own : C → Prop} {t t' t'' : τ} {tr : List (Event σ S C A)}

theorem Leads.trans (h : V.Leads t t') (h' : V.Leads t' t'') : V.Leads t t'' := by
  induction h' with
  | refl => exact h
  | serve c _ ih => exact .serve c ih
  | other o _ ih => exact .other o ih

/-- What every use of the service keeps is never taken back. -/
theorem Leads.keeps {K : τ → Prop} (hserve : ∀ c t, K t → K (V.serve c t).1)
    (hother : ∀ o t, K t → K (V.other o t)) (h : V.Leads t t') (hK : K t) : K t' := by
  induction h with
  | refl => exact hK
  | serve c _ ih => exact hserve c _ ih
  | other o _ ih => exact hother o _ ih

/-- A history takes the service from its first state to its last. -/
theorem Served.leads (h : V.Served own t tr t') : V.Leads t t' := by
  induction h with
  | start => exact .refl t
  | other o _ ih => exact .other o ih
  | call i c st _ _ ih => exact .serve c ih
  | lost i c _ _ ih => exact .serve c ih
  | _ => assumption

/-- An answer of the service is that of a state it has been in, and has since moved on from. -/
theorem Served.answered (h : V.Served own t tr t') {i : Nat} {c : C} {a : A}
    (hmem : (i, c, a) ∈ Pool.calls tr) (hown : own c) :
    ∃ t₁, V.Leads t t₁ ∧ a = (V.serve c t₁).2 ∧ V.Leads (V.serve c t₁).1 t' := by
  induction h with
  | start => exact absurd hmem List.not_mem_nil
  | other o _ ih =>
    obtain ⟨t₁, h₀, ha, h₁⟩ := ih hmem
    exact ⟨t₁, h₀, ha, .other o h₁⟩
  | stmt j s st _ ih => exact ih (by rwa [Pool.calls_stmt] at hmem)
  | died j w _ ih => exact ih (by rwa [Pool.calls_died] at hmem)
  | lost j c' _ _ ih =>
    rw [Pool.calls_died] at hmem
    obtain ⟨t₁, h₀, ha, h₁⟩ := ih hmem
    exact ⟨t₁, h₀, ha, .serve c' h₁⟩
  | @call tr t' j c' st hown' h ih =>
    rw [Pool.calls_call] at hmem
    rcases List.mem_append.mp hmem with hmem | hmem
    · obtain ⟨t₁, h₀, ha, h₁⟩ := ih hmem
      exact ⟨t₁, h₀, ha, .serve c' h₁⟩
    · obtain ⟨rfl, rfl, rfl⟩ := by simpa using List.mem_singleton.mp hmem
      exact ⟨t', h.leads, rfl, .refl _⟩
  | @elsewhere tr t' j c' a' st hnot h ih =>
    rw [Pool.calls_call] at hmem
    rcases List.mem_append.mp hmem with hmem | hmem
    · exact ih hmem
    · obtain ⟨rfl, rfl, rfl⟩ := by simpa using List.mem_singleton.mp hmem
      exact absurd hown hnot

/-- The handler `i` takes its next step, and is answered by the service if it waits for it. -/
def turn (V : Service τ C A O) (own : C → Bool) (M : Machine σ S E) (a₀ : A) (i : Nat)
    (ct : Pool σ S C A α × τ) : Pool σ S C A α × τ :=
  match ct.1.threads[i]?.bind Prog.waiting with
  | some c =>
    if own c then (ct.1.step M (.run i (V.serve c ct.2).2), (V.serve c ct.2).1)
    else (ct.1.step M (.run i a₀), ct.2)
  | none => (ct.1.step M (.run i a₀), ct.2)

theorem turn_served {own : C → Bool} {M : Machine σ S E} {a₀ : A} {i : Nat}
    {ct : Pool σ S C A α × τ} (h : V.Served (fun c => own c = true) t ct.1.trace ct.2) :
    V.Served (fun c => own c = true) t (V.turn own M a₀ i ct).1.trace (V.turn own M a₀ i ct).2 := by
  unfold turn
  cases hi : ct.1.threads[i]? with
  | none => simpa [Pool.step, hi] using h
  | some p =>
    cases p with
    | ret v => simpa [Pool.step, hi, Prog.waiting] using h
    | halt => simpa [Pool.step, hi, Prog.waiting] using h
    | stmt s k => simpa [Pool.step, hi, Prog.waiting] using h.stmt i s ct.1.store
    | call c k =>
      simp only [Option.bind_some, Prog.waiting]
      split
      next hown => simpa [Pool.step, hi] using h.call i c ct.1.store hown
      next hown => simpa [Pool.step, hi] using h.elsewhere i c a₀ ct.1.store hown

/-- It is one of the steps the handler may take. -/
theorem turn_reach {own : C → Bool} {M : Machine σ S E} {a₀ : A} {i : Nat} {c₀ : Pool σ S C A α}
    {ct : Pool σ S C A α × τ} (h : Pool.Reach M Pool.Free c₀ ct.1) :
    Pool.Reach M Pool.Free c₀ (V.turn own M a₀ i ct).1 := by
  unfold turn
  split
  · split
    · exact .step h (.run i _) fun _ _ => trivial
    · exact .step h (.run i a₀) fun _ _ => trivial
  · exact .step h (.run i a₀) fun _ _ => trivial

end Service

/-! ## Who makes which calls -/

/-- Every handler keeps to a kind of call of its own. -/
def Protocol.kinds : Protocol σ S C A (C → Prop) where
  stmt q _ _ q' := q' = q
  call q c _ q' := q c ∧ q' = q

theorem Prog.kinds_of_calls {P : C → Prop} :
    ∀ {p : Prog σ S C A α}, p.Calls P → p.Conforms .kinds (fun _ _ => True) P := by
  intro p
  induction p with
  | ret a => intro _; trivial
  | halt => intro _; trivial
  | stmt s k ih => intro h st; exact ⟨P, rfl, ih st (h st)⟩
  | call c k ih => intro h a; exact ⟨P, ⟨h.1, rfl⟩, ih a (h.2 a)⟩

theorem Prog.calls_mono {P Q : C → Prop} (hPQ : ∀ c, P c → Q c) :
    ∀ {p : Prog σ S C A α}, p.Calls P → p.Calls Q := by
  intro p
  induction p with
  | ret a => intro _; trivial
  | halt => intro _; trivial
  | stmt s k ih => intro h st; exact ih st (h st)
  | call c k ih => intro h; exact ⟨hPQ c h.1, fun a => ih a (h.2 a)⟩

theorem Prog.calls_any {P : C → Prop} (hP : ∀ c, P c) : ∀ p : Prog σ S C A α, p.Calls P := by
  intro p
  induction p with
  | ret a => trivial
  | halt => trivial
  | stmt s k ih => exact ih
  | call c k ih => exact ⟨hP c, ih⟩

/-- A part that only looks makes no call. -/
theorem Prog.calls_of_quiet {P : S → Prop} {R : α → Prop} {Q : C → Prop} :
    ∀ {p : Prog σ S C A α}, p.Quiet P R → p.Calls Q := by
  intro p
  induction p with
  | ret a => intro _; trivial
  | halt => intro _; trivial
  | stmt s k ih => intro h st; exact ih st (h.2 st)
  | call c k _ => intro h; exact h.elim

/-- In every run a handler only makes calls of the kinds that are in it. -/
theorem Pool.calls_of_kind {M : Machine σ S E} {ok : List (Event σ S C A) → Event σ S C A → Prop}
    {st : σ} {ps : List (Prog σ S C A α)} {P : Nat → C → Prop}
    (hps : ∀ (i : Nat) (p : Prog σ S C A α), ps[i]? = some p → p.Calls (P i)) {c : Pool σ S C A α}
    (h : Pool.Reach M ok (Pool.start st ps) c) {i : Nat} {cl : C} {a : A}
    (hmem : (i, cl, a) ∈ Pool.calls c.trace) : P i cl := by
  have hsame : ∀ j, Function.update P j (P j) = P := fun j => Function.update_eq_self j P
  have hsim : ∃ qs, (qs = P ∧ ∀ i cl a, (i, cl, a) ∈ Pool.calls c.trace → P i cl) ∧
      c.Follows .kinds (fun _ _ _ => True) qs := by
    refine Pool.sim (J := fun _ qs tr => qs = P ∧ ∀ i cl a, (i, cl, a) ∈ Pool.calls tr → P i cl)
      ?_ ?_ ?_ (fun _ _ _ _ hJ => hJ) ⟨rfl, fun _ _ _ h => absurd h List.not_mem_nil⟩
      (fun i p hp => Prog.kinds_of_calls (hps i p hp)) h
    · intro st qs tr i s q' hJ _ hs
      obtain ⟨rfl, hall⟩ := hJ
      obtain rfl := hs
      rw [Pool.calls_stmt]
      exact ⟨hsame i, hall⟩
    · intro st qs tr i cl a q' hJ _ hc
      obtain ⟨rfl, hall⟩ := hJ
      obtain ⟨hcl, rfl⟩ := hc
      refine ⟨hsame i, fun j cl' a' hmem => ?_⟩
      rw [Pool.calls_call] at hmem
      rcases List.mem_append.mp hmem with hmem | hmem
      · exact hall j cl' a' hmem
      · obtain ⟨rfl, rfl, rfl⟩ := by simpa using List.mem_singleton.mp hmem
        exact hcl
    · intro st qs tr i w hJ _ _
      obtain ⟨rfl, hall⟩ := hJ
      rw [Pool.calls_died]
      exact ⟨qs i, hsame i, hall⟩
  obtain ⟨qs, ⟨-, hall⟩, -⟩ := hsim
  exact hall i cl a hmem

end Atomic
