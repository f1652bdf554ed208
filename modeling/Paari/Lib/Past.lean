import Paari.Lib.Pool

/-!
# Handlers judged by what they have done

The strictest phase a protocol can have is the whole past of its handler: its statements so
far, each with the store it ran on. `Protocol.past P R` says of a handler which statements
it may run, and which calls it may make, given that past. `Pool.past` is the rule for a
pool of such handlers, each with a discipline of its own: what every statement keeps holds
of the store and the pasts, the pasts are what the history shows, every store of a past is
one that the later ones and the current one have grown from, and whoever has returned, or
waits for an answer, has kept to its discipline.
-/

namespace Atomic

variable {σ S C A E α : Type}

/-- Statements and calls as the earlier statements allow them. -/
def Protocol.past (P : List (S × σ) → S → Prop) (R : List (S × σ) → C → Prop) :
    Protocol σ S C A (List (S × σ)) where
  stmt q s st q' := P q s ∧ q' = q ++ [(s, st)]
  call q c _ q' := R q c ∧ q' = q

namespace Prog

variable {P : List (S × σ) → S → Prop} {R : List (S × σ) → C → Prop}
  {Post : α → List (S × σ) → Prop}

/-- A part that makes only calls which any past allows keeps a past, and only adds to it. -/
theorem past_of_calls {Q : C → Prop} (hR : ∀ q c, Q c → R q c) :
    ∀ {p : Prog σ S C A α} {q : List (S × σ)}, p.Calls Q →
      p.Conforms (.past (fun _ _ => True) R) (fun _ q' => q <+: q') q := by
  intro p
  induction p with
  | ret a => intro q _; exact List.prefix_rfl
  | halt => intro q _; trivial
  | stmt s k ih =>
    intro q h st
    refine ⟨q ++ [(s, st)], ⟨trivial, rfl⟩, ?_⟩
    exact conforms_mono (fun _ q' hq => (List.prefix_append q _).trans hq) (ih st (h st))
  | call c k ih => intro q h a; exact ⟨q, ⟨hR q c h.1, rfl⟩, ih a (h.2 a)⟩

/-- A part that follows a protocol, whose every statement is of a kind any past allows, only
adds statements of that kind. -/
theorem past_of_conforms {Q : Type} {π : Protocol σ S C A Q} {Post' : α → Q → Prop} {T : S → Prop}
    (hT : ∀ q s st q', π.stmt q s st q' → T s) (hP : ∀ past s, T s → P past s)
    (hR : ∀ past c, R past c) :
    ∀ {p : Prog σ S C A α} {q : List (S × σ)} {q' : Q}, p.Conforms π Post' q' →
      p.Conforms (.past P R) (fun a q₂ => (∃ more, q₂ = q ++ more ∧ ∀ d ∈ more, T d.1) ∧
        ∃ q₂', Post' a q₂') q := by
  intro p
  induction p with
  | ret a =>
    intro q q' h
    exact ⟨⟨[], (List.append_nil q).symm, fun _ hd => absurd hd List.not_mem_nil⟩, q', h⟩
  | halt => intro q q' _; trivial
  | stmt s k ih =>
    intro q q' h st
    obtain ⟨r, hs, hk⟩ := h st
    have hkind := hT _ _ _ _ hs
    refine ⟨q ++ [(s, st)], ⟨hP _ _ hkind, rfl⟩, conforms_mono (fun a q₂ hq => ?_) (ih st hk)⟩
    obtain ⟨⟨more, rfl, hmore⟩, hpost⟩ := hq
    refine ⟨⟨(s, st) :: more, by simp, fun d hd => ?_⟩, hpost⟩
    rcases List.mem_cons.mp hd with rfl | hd
    · exact hkind
    · exact hmore d hd
  | call c k ih =>
    intro q q' h a
    obtain ⟨r, -, hk⟩ := h a
    exact ⟨q, ⟨hR q c, rfl⟩, ih a hk⟩

/-- Statements judged by one protocol, with calls judged by their past. -/
theorem past_of_both {Q : Type} {π : Protocol σ S C A Q} {Post' : α → Q → Prop}
    (hP : ∀ past q s st q', π.stmt q s st q' → P past s) :
    ∀ {p : Prog σ S C A α} {q : List (S × σ)} {q' : Q},
      p.Conforms (.past (fun _ _ => True) R) Post q → p.Conforms π Post' q' →
      p.Conforms (.past P R) Post q := by
  intro p
  induction p with
  | ret a => intro q q' h _; exact h
  | halt => intro q q' _ _; trivial
  | stmt s k ih =>
    intro q q' h h' st
    obtain ⟨r, ⟨-, rfl⟩, hk⟩ := h st
    obtain ⟨r', hs, hk'⟩ := h' st
    exact ⟨_, ⟨hP _ _ _ _ _ hs, rfl⟩, ih st hk hk'⟩
  | call c k ih =>
    intro q q' h h' a
    obtain ⟨r, ⟨hc, rfl⟩, hk⟩ := h a
    obtain ⟨r', -, hk'⟩ := h' a
    exact ⟨_, ⟨hc, rfl⟩, ih a hk hk'⟩

end Prog

namespace Pool

variable {M : Machine σ S E}

/-- The statements of handler `i`, with their stores. -/
def steps (i : Nat) (tr : List (Event σ S C A)) : List (S × σ) :=
  tr.filterMap fun
    | .stmt j s st => if j = i then some (s, st) else none
    | _ => none

@[simp] theorem steps_stmt (i j : Nat) (tr : List (Event σ S C A)) (s : S) (st : σ) :
    steps i (tr ++ [.stmt j s st]) = steps i tr ++ if j = i then [(s, st)] else [] := by
  by_cases h : j = i
  · simp [steps, h]
  · simp [steps, h]

@[simp] theorem steps_call (i j : Nat) (tr : List (Event σ S C A)) (c : C) (a : A) (st : σ) :
    steps i (tr ++ [.call j c a st]) = steps i tr := by
  simp [steps]

@[simp] theorem steps_died (i j : Nat) (tr : List (Event σ S C A)) (w : Option C) :
    steps i (tr ++ [.died j w]) = steps i tr := by
  simp [steps]

theorem mem_steps {i : Nat} {tr : List (Event σ S C A)} {s : S} {st : σ} :
    (s, st) ∈ steps i tr ↔ .stmt i s st ∈ tr := by
  unfold steps
  rw [List.mem_filterMap]
  constructor
  · intro h
    obtain ⟨ev, hev, h⟩ := h
    cases ev with
    | stmt j s' st' =>
      dsimp only at h
      split at h
      · next hji =>
        obtain ⟨rfl, rfl⟩ := Prod.mk.inj (Option.some.inj h)
        rw [← hji]
        exact hev
      · exact absurd h (by simp)
    | call j c a st' => exact absurd h (by simp)
    | died j w => exact absurd h (by simp)
  · intro h
    exact ⟨_, h, by simp⟩

/-- The store has grown from the one the statement ran on, and from the one it left. -/
def Grown (M : Machine σ S E) (le : σ → σ → Prop) (i : Nat) (p : S × σ) (st : σ) : Prop :=
  le p.2 st ∧ le (M.exec i p.1 p.2) st

/-- What a pool is when every statement was allowed by its handler's past. -/
structure Kept (M : Machine σ S E) (P : Nat → List (S × σ) → S → Prop)
    (K : σ → (Nat → List (S × σ)) → Prop) (le : σ → σ → Prop) (st : σ) (tr : List (Event σ S C A)) :
    Prop where
  kept : K st fun i => steps i tr
  grown : ∀ i, ∀ p ∈ steps i tr, Grown M le i p st
  lawful : ∀ i pre s w post, steps i tr = pre ++ (s, w) :: post →
    P i pre s ∧ ∀ p ∈ pre, Grown M le i p w

/-- Each handler under its own discipline, its phase tagged with its number. -/
def disciplined (P : Nat → List (S × σ) → S → Prop) (R : Nat → List (S × σ) → C → Prop) :
    Protocol σ S C A (Nat × List (S × σ)) where
  stmt q s st q' := P q.1 q.2 s ∧ q' = (q.1, q.2 ++ [(s, st)])
  call q c _ q' := R q.1 q.2 c ∧ q' = q

section
variable {P : Nat → List (S × σ) → S → Prop} {R : Nat → List (S × σ) → C → Prop}
  {K : σ → (Nat → List (S × σ)) → Prop} {le : σ → σ → Prop} {st : σ} {tr : List (Event σ S C A)}
  {i : Nat}

theorem Kept.same (h : Kept M P K le st tr) {tr' : List (Event σ S C A)}
    (hsame : ∀ j, steps j tr' = steps j tr) : Kept M P K le st tr' := by
  refine ⟨?_, fun j => ?_, fun j => ?_⟩
  · simp only [hsame]
    exact h.kept
  · rw [hsame]
    exact h.grown j
  · rw [hsame]
    exact h.lawful j

theorem Kept.grow (htrans : ∀ a b c, le a b → le b c → le a c) (h : Kept M P K le st tr) {st' : σ}
    (hK : K st' fun j => steps j tr) (hle : le st st') : Kept M P K le st' tr :=
  ⟨hK, fun j p hp => ⟨htrans _ _ _ (h.grown j p hp).1 hle, htrans _ _ _ (h.grown j p hp).2 hle⟩,
    h.lawful⟩

theorem Kept.stmt (hrefl : ∀ a, le a a) (htrans : ∀ a b c, le a b → le b c → le a c)
    (h : Kept M P K le st tr) {s : S} (hs : P i (steps i tr) s)
    (hK : K (M.exec i s st) fun j => steps j (tr ++ [.stmt i s st])) (hle : le st (M.exec i s st)) :
    Kept M P K le (M.exec i s st) (tr ++ [.stmt i s st]) := by
  refine ⟨hK, fun j p hp => ?_, fun j pre s' w post heq => ?_⟩
  · rw [steps_stmt] at hp
    rcases List.mem_append.mp hp with hp | hp
    · exact ⟨htrans _ _ _ (h.grown j p hp).1 hle, htrans _ _ _ (h.grown j p hp).2 hle⟩
    · by_cases hij : i = j
      · subst hij
        rw [if_pos rfl] at hp
        rw [List.mem_singleton.mp hp]
        exact ⟨hle, hrefl _⟩
      · rw [if_neg hij] at hp
        exact absurd hp List.not_mem_nil
  · rw [steps_stmt] at heq
    by_cases hij : i = j
    · subst hij
      rw [if_pos rfl] at heq
      -- the split is at the new statement, or inside the old past
      rcases List.eq_nil_or_concat' post with rfl | ⟨post', last, rfl⟩
      · obtain ⟨rfl, hlast⟩ := List.append_inj' heq rfl
        obtain ⟨rfl, rfl⟩ := Prod.mk.inj (List.singleton_inj.mp hlast)
        exact ⟨hs, fun p hp => h.grown i p hp⟩
      · have heq' : steps i tr ++ [(s, st)] = (pre ++ (s', w) :: post') ++ [last] := by simpa using heq
        obtain ⟨hold, -⟩ := List.append_inj' heq' rfl
        exact h.lawful i pre s' w post' hold
    · rw [if_neg hij, List.append_nil] at heq
      exact h.lawful j pre s' w post heq

/-- A handler under its own discipline, tagged with its number. -/
theorem conforms_disciplined {Post : α → List (S × σ) → Prop} :
    ∀ {p : Prog σ S C A α} {q : List (S × σ)}, p.Conforms (.past (P i) (R i)) Post q →
      p.Conforms (disciplined P R) (fun a q => q.1 = i ∧ Post a q.2) (i, q) := by
  intro p
  induction p with
  | ret a => intro q h; exact ⟨rfl, h⟩
  | halt => intro q _; trivial
  | stmt s k ih =>
    intro q h st
    obtain ⟨r, ⟨hs, rfl⟩, hk⟩ := h st
    exact ⟨_, ⟨hs, rfl⟩, ih st hk⟩
  | call cl k ih =>
    intro q h a
    obtain ⟨r, ⟨hc, rfl⟩, hk⟩ := h a
    exact ⟨_, ⟨hc, rfl⟩, ih a hk⟩

/-- **The rule of the past.** -/
theorem past {Post : Nat → α → List (S × σ) → Prop} (hrefl : ∀ a, le a a)
    (htrans : ∀ a b c, le a b → le b c → le a c)
    (hexec : ∀ st (tr : List (Event σ S C A)) i s, Kept M P K le st tr → P i (steps i tr) s →
      (K (M.exec i s st) fun j => steps j (tr ++ [.stmt i s st])) ∧ le st (M.exec i s st))
    (habort : ∀ st qs i, K st qs → K (M.abort i st) qs ∧ le st (M.abort i st))
    (henv : ∀ st qs e, K st qs → K (M.env e st) qs ∧ le st (M.env e st))
    {c₀ c : Pool σ S C A α} (hstart : c₀.trace = []) (h₀ : K c₀.store fun _ => [])
    (hf : ∀ (i : Nat) (p : Prog σ S C A α), c₀.threads[i]? = some p →
      p.Conforms (.past (P i) (R i)) (Post i) []) (h : Reach M Free c₀ c) :
    Kept M P K le c.store c.trace ∧
      (∀ (i : Nat) a, c.threads[i]? = some (.ret a) → Post i a (steps i c.trace)) ∧
      ∀ (i : Nat) cl k, c.threads[i]? = some (.call cl k) → A → R i (steps i c.trace) cl := by
  have hfollows : c₀.Follows (disciplined P R) (fun i a q => q.1 = i ∧ Post i a q.2) fun i => (i, []) := by
    intro i p hp
    exact conforms_disciplined (hf i p hp)
  have hkept : Kept M P K le c₀.store c₀.trace := by
    rw [hstart]
    exact ⟨h₀, fun i p hp => absurd hp List.not_mem_nil, fun i pre s w post heq => absurd heq (by simp [steps])⟩
  obtain ⟨qs, ⟨htags, hJ⟩, hqs⟩ := sim
    (J := fun st qs tr => (∀ i, qs i = (i, steps i tr)) ∧ Kept M P K le st tr)
    (fun st qs tr i s q' hJ _ hs => by
      obtain ⟨hallow, rfl⟩ := hs
      rw [hJ.1 i] at hallow ⊢
      obtain ⟨hK, hle⟩ := hexec st tr i s hJ.2 hallow
      -- the phase of `i` grows by the statement, and so does its past in the history
      refine ⟨fun j => ?_, hJ.2.stmt hrefl htrans hallow hK hle⟩
      rw [steps_stmt]
      by_cases hij : i = j
      · subst hij
        rw [Function.update_self, if_pos rfl]
      · rw [Function.update_of_ne (Ne.symm hij), if_neg hij, List.append_nil]
        exact hJ.1 j)
    (fun st qs tr i cl a q' hJ _ hc => by
      obtain ⟨-, rfl⟩ := hc
      rw [Function.update_eq_self]
      exact ⟨fun j => by rw [steps_call]; exact hJ.1 j, hJ.2.same fun j => steps_call j i tr cl a st⟩)
    (fun st qs tr i w hJ _ _ => by
      obtain ⟨hK, hle⟩ := habort st _ i hJ.2.kept
      refine ⟨qs i, ?_⟩
      rw [Function.update_eq_self]
      exact ⟨fun j => by rw [steps_died]; exact hJ.1 j,
        (hJ.2.grow htrans hK hle).same fun j => steps_died j i tr w⟩)
    (fun st qs tr e hJ => by
      obtain ⟨hK, hle⟩ := henv st _ e hJ.2.kept
      exact ⟨hJ.1, hJ.2.grow htrans hK hle⟩)
    ⟨fun i => by rw [hstart]; rfl, hkept⟩ hfollows h
  refine ⟨hJ, fun i a hi => ?_, fun i cl k hi a => ?_⟩
  · have hret : (qs i).1 = i ∧ Post i a (qs i).2 := hqs i _ hi
    rw [htags i] at hret
    exact hret.2
  · obtain ⟨q', ⟨hR, -⟩, -⟩ := hqs i _ hi a
    rw [htags i] at hR
    exact hR

end

end Pool

end Atomic
