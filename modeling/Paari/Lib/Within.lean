import Paari.Lib.Pool
import Mathlib.Data.List.Forall2

/-!
# Calls that are programs themselves

Seen from closer, a call is a conversation: the one who answers it makes requests of its own,
and works out the answer from the replies. `within` replaces every call of a handler by the
program that implements it. Run interleaved, the requests of different calls mix, but nothing
else does: `Pool.within_refines` finds, for every reachable pool of such handlers, a reachable
pool of the handlers as they were, with the same store, in which each handler has made the calls
whose conversations its requests are. What holds of every run of the one holds of the other.
-/

namespace Atomic

variable {σ S C A D B E α β : Type}

namespace Prog

/-- The part runs no statement: it only makes requests. -/
def Remote : Prog σ S D B α → Prop
  | ret _ => True
  | halt => True
  | stmt _ _ => False
  | call _ k => ∀ b, (k b).Remote

theorem remote_bind {f : α → Prog σ S D B β} :
    ∀ {p : Prog σ S D B α}, p.Remote → (∀ a, (f a).Remote) → (p >>= f).Remote := by
  intro p
  induction p with
  | ret a => intro _ hf; exact hf a
  | halt => intro _ _; trivial
  | stmt s k _ => intro h _; exact h.elim
  | call d k ih => intro h hf b; exact ih b (h b) hf

/-- The handler with each call carried out by its implementation. -/
def within (impl : C → Prog σ S D B A) : Prog σ S C A α → Prog σ S D B α
  | ret a => ret a
  | halt => halt
  | stmt s k => stmt s fun st => (k st).within impl
  | call c k => impl c >>= fun a => (k a).within impl

/-- What is left of a part after some requests, with their replies. -/
inductive Talks (p : Prog σ S D B α) : List (D × B) → Prog σ S D B α → Prop
  | refl : Talks p [] p
  | snoc {t : List (D × B)} {d : D} {k : B → Prog σ S D B α} (h : Talks p t (.call d k)) (b : B) :
    Talks p (t ++ [(d, b)]) (k b)

theorem Talks.remote {p q : Prog σ S D B α} {t : List (D × B)} (h : Talks p t q) (hp : p.Remote) :
    q.Remote := by
  induction h with
  | refl => exact hp
  | snoc _ b ih => exact ih b

/-- A request with its reply. -/
def heard (db : D × B) : D × Option B := (db.1, some db.2)

/-- The requests so far are the first of a run on the same replies. -/
theorem Talks.eval {p q : Prog σ S D B α} {t : List (D × B)} (h : Talks p t q) (exec : S → σ → σ)
    (st : σ) : ∀ bs, (p.eval exec (t.map Prod.snd ++ bs) st).calls =
      t.map heard ++ (q.eval exec bs st).calls ∧
      (p.eval exec (t.map Prod.snd ++ bs) st).value = (q.eval exec bs st).value := by
  induction h with
  | refl => intro bs; exact ⟨rfl, rfl⟩
  | snoc _ b ih =>
    intro bs
    obtain ⟨hcalls, hvalue⟩ := ih (b :: bs)
    simp only [List.map_append, List.map_cons, List.map_nil, List.append_assoc, List.cons_append,
      List.nil_append]
    exact ⟨hcalls, hvalue⟩

end Prog

open Prog

/-- The conversation of a call: the requests its implementation makes on some replies, with what
they come to. A call without an answer has a conversation without a result. -/
def Told (impl : C → Prog σ S D B A) (ca : C × Option A) (cs : List (D × Option B)) : Prop :=
  ∃ bs, ∀ (exec : S → σ → σ) (st : σ),
    ((impl ca.1).eval exec bs st).calls = cs ∧ ((impl ca.1).eval exec bs st).value = ca.2

theorem told_done {impl : C → Prog σ S D B A} {c : C} {a : A} {t : List (D × B)}
    (h : Talks (impl c) t (.ret a)) : Told impl (c, some a) (t.map heard) := by
  refine ⟨t.map Prod.snd, fun exec st => ?_⟩
  simpa [Prog.eval] using h.eval exec st []

theorem told_halted {impl : C → Prog σ S D B A} {c : C} {t : List (D × B)}
    (h : Talks (impl c) t .halt) : Told impl (c, none) (t.map heard) := by
  refine ⟨t.map Prod.snd, fun exec st => ?_⟩
  simpa [Prog.eval] using h.eval exec st []

theorem told_waiting {impl : C → Prog σ S D B A} {c : C} {t : List (D × B)} {d : D}
    {k : B → Prog σ S D B A} (h : Talks (impl c) t (.call d k)) :
    Told impl (c, none) (t.map heard ++ [(d, none)]) := by
  refine ⟨t.map Prod.snd, fun exec st => ?_⟩
  simpa [Prog.eval] using h.eval exec st []

namespace Pool

/-- The requests that the handler `i` has made, with their replies. -/
def requests (i : Nat) (tr : List (Event σ S D B)) : List (D × Option B) :=
  tr.filterMap fun
    | .call j d b _ => if j = i then some (d, some b) else none
    | .died j (some d) => if j = i then some (d, none) else none
    | _ => none

/-- These, and the one it is waiting on. -/
def asked (i : Nat) (c : Pool σ S D B α) : List (D × Option B) :=
  requests i c.trace ++ ((c.threads[i]?.bind Prog.waiting).map fun d => (d, none)).toList

section
variable {i j : Nat} {tr : List (Event σ S D B)}

@[simp] theorem requests_nil : requests i ([] : List (Event σ S D B)) = [] := rfl

@[simp] theorem requests_stmt (s : S) (st : σ) : requests i (tr ++ [.stmt j s st]) = requests i tr := by
  simp [requests]

@[simp] theorem requests_call_self (d : D) (b : B) (st : σ) :
    requests i (tr ++ [.call i d b st]) = requests i tr ++ [(d, some b)] := by
  simp [requests]

theorem requests_call_ne (d : D) (b : B) (st : σ) (h : j ≠ i) :
    requests i (tr ++ [.call j d b st]) = requests i tr := by
  simp [requests, h]

@[simp] theorem requests_died_none : requests i (tr ++ [.died j none]) = requests i tr := by
  simp [requests]

@[simp] theorem requests_died_self (d : D) :
    requests i (tr ++ [.died i (some d)]) = requests i tr ++ [(d, none)] := by
  simp [requests]

theorem requests_died_ne (w : Option D) (h : j ≠ i) :
    requests i (tr ++ [.died j w]) = requests i tr := by
  cases w <;> simp [requests, h]

end

theorem getElem?_set_of {xs : List β} {i : Nat} {x y : β} (h : xs[i]? = some x) :
    (xs.set i y)[i]? = some y :=
  List.getElem?_set_self (List.getElem?_eq_some_iff.mp h).1

/-! ## One handler, from both sides -/

variable (impl : C → Prog σ S D B A)

/-- A handler as it was, as it is with its calls carried out, and the requests it has made for the
call it is in. -/
inductive Doing : Option (Prog σ S C A α) → Option (Prog σ S D B α) → List (D × B) → Prop
  | absent : Doing none none []
  | idle (p : Prog σ S C A α) (h : p.waiting = none) : Doing (some p) (some (p.within impl)) []
  | busy (c : C) (k : A → Prog σ S C A α) (t : List (D × B)) (r : Prog σ S D B A)
    (ht : Talks (impl c) t r) (hr : ∀ a, r ≠ .ret a) :
    Doing (some (.call c k)) (some (r >>= fun a => (k a).within impl)) t

/-- The requests of the handler `i` are the conversations of its calls, and `t`. -/
def Accounts (i : Nat) (u : List (Event σ S C A)) (l : List (Event σ S D B)) (t : List (D × B)) : Prop :=
  ∃ css, List.Forall₂ (Told impl) (requests i u) css ∧ requests i l = css.flatten ++ t.map heard

/-- The two pools, seen at the handler `i`. -/
def At (u : Pool σ S C A α) (l : Pool σ S D B α) (i : Nat) : Prop :=
  ∃ t, Doing impl u.threads[i]? l.threads[i]? t ∧ Accounts impl i u.trace l.trace t

/-- The pool `l` is the pool `u` with its calls carried out. -/
structure Refines (u : Pool σ S C A α) (l : Pool σ S D B α) : Prop where
  store : l.store = u.store
  at_ : ∀ i, At impl u l i

variable {impl}

/-- One more call, with its conversation. -/
theorem Accounts.done {i : Nat} {u : List (Event σ S C A)} {l : List (Event σ S D B)}
    {t : List (D × B)} (h : Accounts impl i u l t) {c : C} {a : A} (ht : Talks (impl c) t (.ret a))
    (st : σ) : Accounts impl i (u ++ [.call i c a st]) l [] := by
  obtain ⟨css, htold, hreq⟩ := h
  refine ⟨css ++ [t.map heard], ?_, ?_⟩
  · rw [requests_call_self]
    exact List.rel_append htold (.cons (told_done ht) .nil)
  · rw [hreq]
    simp

/-- A handler that the moves did not concern. -/
theorem At.other {u u' : Pool σ S C A α} {l l' : Pool σ S D B α} {j : Nat} (h : At impl u l j)
    (hu : u'.threads[j]? = u.threads[j]?) (hl : l'.threads[j]? = l.threads[j]?)
    (hut : requests j u'.trace = requests j u.trace) (hlt : requests j l'.trace = requests j l.trace) :
    At impl u' l' j := by
  obtain ⟨t, hdoing, css, htold, hreq⟩ := h
  exact ⟨t, by rwa [hu, hl], css, by rwa [hut], by rwa [hlt]⟩

variable {M : Machine σ S E} {u₀ u : Pool σ S C A α} {l : Pool σ S D B α} {i : Nat}

/-- Only the handler `i` has moved, and not the store. -/
structure Aside (i : Nat) (u u' : Pool σ S C A α) : Prop where
  store : u'.store = u.store
  threads : ∀ j, j ≠ i → u'.threads[j]? = u.threads[j]?
  requests : ∀ j, j ≠ i → Pool.requests j u'.trace = Pool.requests j u.trace

theorem Aside.refl (i : Nat) (u : Pool σ S C A α) : Aside i u u :=
  ⟨rfl, fun _ _ => rfl, fun _ _ => rfl⟩

theorem Aside.trans {u' u'' : Pool σ S C A α} (h : Aside i u u') (h' : Aside i u' u'') : Aside i u u'' :=
  ⟨h'.store.trans h.store, fun j hj => (h'.threads j hj).trans (h.threads j hj),
    fun j hj => (h'.requests j hj).trans (h.requests j hj)⟩

/-- A call is such a move. -/
theorem aside_call {c : C} {k : A → Prog σ S C A α} (hp : u.threads[i]? = some (.call c k)) (a : A) :
    Aside i u (u.step M (.run i a)) ∧ (u.step M (.run i a)).threads[i]? = some (k a) ∧
      (u.step M (.run i a)).trace = u.trace ++ [.call i c a u.store] := by
  have hstep : u.step M (.run i a) =
      ⟨u.store, u.threads.set i (k a), u.trace ++ [.call i c a u.store]⟩ := by simp [step, hp]
  rw [hstep]
  exact ⟨⟨rfl, fun j hj => List.getElem?_set_ne (Ne.symm hj),
    fun j hj => requests_call_ne _ _ _ (Ne.symm hj)⟩, getElem?_set_of hp, rfl⟩

/-- What a call without requests comes to is answered at once: the pool above makes it, and goes on
to the next step that is seen below. -/
theorem catch_up (p : Prog σ S C A α) : ∀ {u : Pool σ S C A α}, Reach M Free u₀ u →
    u.threads[i]? = some p → l.threads[i]? = some (p.within impl) →
    Accounts impl i u.trace l.trace [] → ∃ u', Reach M Free u₀ u' ∧ Aside i u u' ∧ At impl u' l i := by
  have hstays : ∀ {p : Prog σ S C A α} {u : Pool σ S C A α}, p.waiting = none → Reach M Free u₀ u →
      u.threads[i]? = some p → l.threads[i]? = some (p.within impl) →
      Accounts impl i u.trace l.trace [] → ∃ u', Reach M Free u₀ u' ∧ Aside i u u' ∧ At impl u' l i := by
    intro p u hw hu hp hl hacc
    refine ⟨u, hu, .refl i u, [], ?_, hacc⟩
    rw [hp, hl]
    exact .idle p hw
  induction p with
  | ret a => exact hstays rfl
  | halt => exact hstays rfl
  | stmt s k _ => exact hstays rfl
  | call c k ih =>
    intro u hu hp hl hacc
    by_cases hret : ∃ a, impl c = .ret a
    · obtain ⟨a, ha⟩ := hret
      obtain ⟨haside, hthread, htrace⟩ := aside_call (M := M) hp a
      obtain ⟨u', hu', haside', hat⟩ := ih a (.step hu (.run i a) fun _ _ => trivial) hthread
        (by rw [hl, within, ha]; rfl) (by rw [htrace]; exact hacc.done (by rw [ha]; exact .refl) u.store)
      exact ⟨u', hu', haside.trans haside', hat⟩
    · refine ⟨u, hu, .refl i u, [], ?_, hacc⟩
      rw [hp, hl]
      exact .busy c k [] (impl c) .refl fun a ha => hret ⟨a, ha⟩

/-- The pools agree once they agree at the handler that moved. -/
theorem Aside.refines {u' : Pool σ S C A α} (h : Aside i u u') (hstore : l.store = u.store)
    (hother : ∀ j, j ≠ i → At impl u l j) (hat : At impl u' l i) : Refines impl u' l := by
  refine ⟨hstore.trans h.store.symm, fun j => ?_⟩
  by_cases hj : j = i
  · subst hj
    exact hat
  · exact (hother j hj).other (h.threads j hj) rfl (h.requests j hj) rfl

/-- A handler that ends takes the call it is in with it. -/
theorem At.die (hremote : ∀ c, (impl c).Remote) (h : At impl u l i) (st st' : σ) :
    At impl ⟨st, u.threads.set i .halt, u.trace ++ [.died i (u.threads[i]?.bind Prog.waiting)]⟩
      ⟨st', l.threads.set i .halt, l.trace ++ [.died i (l.threads[i]?.bind Prog.waiting)]⟩ i := by
  obtain ⟨t, hdoing, css, htold, hreq⟩ := h
  generalize hp : u.threads[i]? = op at hdoing
  generalize hp' : l.threads[i]? = op' at hdoing
  have hdead : ∀ {q : Prog σ S C A α} {q' : Prog σ S D B α}, u.threads[i]? = some q →
      l.threads[i]? = some q' →
      Doing impl (u.threads.set i .halt)[i]? (l.threads.set i .halt)[i]? [] := by
    intro q q' hq hq'
    rw [getElem?_set_of hq, getElem?_set_of hq']
    exact .idle .halt rfl
  cases hdoing with
  | absent =>
    refine ⟨[], ?_, css, by simpa using htold, by simpa using hreq⟩
    have hu : u.threads.length ≤ i := List.getElem?_eq_none_iff.mp hp
    have hl : l.threads.length ≤ i := List.getElem?_eq_none_iff.mp hp'
    rw [List.getElem?_eq_none (by simpa using hu), List.getElem?_eq_none (by simpa using hl)]
    exact .absent
  | idle p hw =>
    have hw' : (p.within impl).waiting = none := by
      cases p with
      | call c k => cases hw
      | _ => rfl
    refine ⟨[], hdead hp hp', css, ?_, ?_⟩
    · simpa [hw] using htold
    · simpa [hw'] using hreq
  | busy c k t r ht hr =>
    have hcall : requests i (u.trace ++ [.died i ((some (Prog.call c k)).bind Prog.waiting)]) =
        requests i u.trace ++ [(c, none)] := requests_died_self c
    cases r with
    | ret a => exact absurd rfl (hr a)
    | stmt s k' => exact (ht.remote (hremote c)).elim
    | halt =>
      refine ⟨[], hdead hp hp', css ++ [t.map heard], ?_, ?_⟩
      · rw [hcall]
        exact List.rel_append htold (.cons (told_halted ht) .nil)
      · rw [show ((some ((Prog.halt : Prog σ S D B A) >>= fun a => (k a).within impl)).bind
          Prog.waiting) = none from rfl, requests_died_none, hreq]
        simp
    | call d k' =>
      refine ⟨[], hdead hp hp', css ++ [t.map heard ++ [(d, none)]], ?_, ?_⟩
      · rw [hcall]
        exact List.rel_append htold (.cons (told_waiting ht) .nil)
      · rw [show ((some ((Prog.call d k' : Prog σ S D B A) >>= fun a => (k a).within impl)).bind
          Prog.waiting) = some d from rfl, requests_died_self, hreq]
        simp

/-- A handler takes one step below. -/
theorem Refines.run [Inhabited A] (hremote : ∀ c, (impl c).Remote) (hu : Reach M Free u₀ u)
    (h : Refines impl u l) (i : Nat) (b : B) :
    ∃ u', Reach M Free u₀ u' ∧ Refines impl u' (l.step M (.run i b)) := by
  obtain ⟨t, hdoing, hacc⟩ := h.at_ i
  generalize hp : u.threads[i]? = op at hdoing
  generalize hp' : l.threads[i]? = op' at hdoing
  have hsame : l.step M (.run i b) = l → ∃ u', Reach M Free u₀ u' ∧ Refines impl u' (l.step M (.run i b)) :=
    fun heq => ⟨u, hu, by rwa [heq]⟩
  cases hdoing with
  | absent => exact hsame (by simp [step, hp'])
  | idle p hw =>
    cases p with
    | ret a => exact hsame (by simp [step, hp', within])
    | halt => exact hsame (by simp [step, hp', within])
    | call c k => cases hw
    | stmt s k =>
      have hl : l.step M (.run i b) = ⟨M.exec i s l.store,
          l.threads.set i ((k l.store).within impl), l.trace ++ [.stmt i s l.store]⟩ := by
        simp [step, hp', within]
      have hu' : u.step M (.run i default) = ⟨M.exec i s u.store, u.threads.set i (k u.store),
          u.trace ++ [.stmt i s u.store]⟩ := by simp [step, hp]
      have hother : ∀ j, j ≠ i → At impl (u.step M (.run i default)) (l.step M (.run i b)) j := by
        intro j hj
        rw [hu', hl]
        exact (h.at_ j).other (List.getElem?_set_ne (Ne.symm hj)) (List.getElem?_set_ne (Ne.symm hj))
          (requests_stmt _ _) (requests_stmt _ _)
      obtain ⟨u', hreach, haside, hat⟩ := catch_up (i := i) (l := l.step M (.run i b)) (k u.store)
        (.step hu (.run i default) fun _ _ => trivial) (by rw [hu']; exact getElem?_set_of hp)
        (by rw [hl, h.store]; exact getElem?_set_of hp') (by
          obtain ⟨css, htold, hreq⟩ := hacc
          exact ⟨css, by rwa [hu', requests_stmt], by rwa [hl, requests_stmt]⟩)
      exact ⟨u', hreach, haside.refines (by rw [hl, hu', h.store]) hother hat⟩
  | busy c k t r ht hr =>
    cases r with
    | ret a => exact absurd rfl (hr a)
    | stmt s k' => exact (ht.remote (hremote c)).elim
    | halt => exact hsame (by simp [step, hp'])
    | call d k' =>
      have hl : l.step M (.run i b) = ⟨l.store,
          l.threads.set i (k' b >>= fun a => (k a).within impl), l.trace ++ [.call i d b l.store]⟩ := by
        simp [step, hp']
      have hother : ∀ j, j ≠ i → At impl u (l.step M (.run i b)) j := by
        intro j hj
        refine (h.at_ j).other rfl ?_ rfl ?_
        · rw [hl]
          exact List.getElem?_set_ne (Ne.symm hj)
        · rw [hl]
          exact requests_call_ne _ _ _ (Ne.symm hj)
      have hstore : (l.step M (.run i b)).store = u.store := by rw [hl, h.store]
      have hthread : (l.step M (.run i b)).threads[i]? = some (k' b >>= fun a => (k a).within impl) := by
        rw [hl]
        exact getElem?_set_of hp'
      have hnow : Accounts impl i u.trace (l.step M (.run i b)).trace (t ++ [(d, b)]) := by
        obtain ⟨css, htold, hreq⟩ := hacc
        refine ⟨css, htold, ?_⟩
        rw [hl, requests_call_self, hreq]
        simp [heard]
      have htalk := ht.snoc b
      by_cases hret : ∃ a, k' b = .ret a
      · -- the last reply answers the call
        obtain ⟨a, ha⟩ := hret
        rw [ha] at htalk hthread
        obtain ⟨haside, hup, htrace⟩ := aside_call (M := M) hp a
        obtain ⟨u', hreach, haside', hat⟩ := catch_up (k a) (.step hu (.run i a) fun _ _ => trivial) hup
          hthread (by rw [htrace]; exact hnow.done htalk u.store)
        exact ⟨u', hreach, (haside.trans haside').refines hstore hother hat⟩
      · refine ⟨u, hu, hstore, fun j => ?_⟩
        by_cases hj : j = i
        · subst hj
          refine ⟨t ++ [(d, b)], ?_, hnow⟩
          rw [hp, hthread]
          exact .busy c k _ _ htalk fun a ha => hret ⟨a, ha⟩
        · exact hother j hj

/-- One move below is some moves above. -/
theorem Refines.step [Inhabited A] (hremote : ∀ c, (impl c).Remote) (hu : Reach M Free u₀ u)
    (h : Refines impl u l) (m : Move B E) :
    ∃ u', Reach M Free u₀ u' ∧ Refines impl u' (l.step M m) := by
  cases m with
  | run i b => exact h.run hremote hu i b
  | die i =>
    refine ⟨u.step M (.die i), .step hu (.die i) fun _ _ => trivial, ?_, fun j => ?_⟩
    · show M.abort i l.store = M.abort i u.store
      rw [h.store]
    · by_cases hj : j = i
      · subst hj
        exact (h.at_ j).die hremote _ _
      · exact (h.at_ j).other (List.getElem?_set_ne (Ne.symm hj)) (List.getElem?_set_ne (Ne.symm hj))
          (requests_died_ne _ (Ne.symm hj)) (requests_died_ne _ (Ne.symm hj))
  | env e =>
    refine ⟨u.step M (.env e), .step hu (.env e) fun _ _ => trivial, ?_, fun j => ?_⟩
    · show M.env e l.store = M.env e u.store
      rw [h.store]
    · exact (h.at_ j).other rfl rfl rfl rfl

/-- The requests of a handler, with the one in flight, are the conversations of its calls, with the
one it is in. -/
theorem At.asked (hremote : ∀ c, (impl c).Remote) (h : At impl u l i) :
    ∃ css, List.Forall₂ (Told impl) (u.asked i) css ∧ l.asked i = css.flatten := by
  obtain ⟨t, hdoing, css, htold, hreq⟩ := h
  unfold Pool.asked
  rw [hreq]
  generalize u.threads[i]? = op at hdoing
  generalize l.threads[i]? = op' at hdoing
  cases hdoing with
  | absent => exact ⟨css, by simpa using htold, by simp⟩
  | idle p hw =>
    have hw' : (p.within impl).waiting = none := by
      cases p with
      | call c k => cases hw
      | _ => rfl
    exact ⟨css, by simpa [hw] using htold, by simp [hw']⟩
  | busy c k t r ht hr =>
    cases r with
    | ret a => exact absurd rfl (hr a)
    | stmt s k' => exact (ht.remote (hremote c)).elim
    | halt =>
      exact ⟨css ++ [t.map heard], List.rel_append htold (.cons (told_halted ht) .nil),
        by simp [Prog.waiting]⟩
    | call d k' =>
      exact ⟨css ++ [t.map heard ++ [(d, none)]], List.rel_append htold (.cons (told_waiting ht) .nil),
        by simp [Prog.waiting]⟩

/-- What a handler returns below it has returned above. -/
theorem At.returned (h : At impl u l i) {a : α} (ha : l.threads[i]? = some (.ret a)) :
    u.threads[i]? = some (.ret a) := by
  obtain ⟨t, hdoing, -⟩ := h
  rw [ha] at hdoing
  generalize u.threads[i]? = op at hdoing
  generalize hop' : some (Prog.ret a) = op' at hdoing
  cases hdoing with
  | absent => cases hop'
  | idle p hw =>
    cases p with
    | ret b =>
      obtain rfl : b = a := (Prog.ret.inj (Option.some.inj hop')).symm
      rfl
    | halt => cases hop'
    | stmt s k => cases hop'
    | call c k => cases hw
  | busy c k t r ht hr =>
    cases r with
    | ret b => exact absurd rfl (hr b)
    | halt => cases hop'
    | stmt s k' => cases hop'
    | call d k' => cases hop'

/-- The statement a handler is at below it is at above. -/
theorem At.stmt (hremote : ∀ c, (impl c).Remote) (h : At impl u l i) {s : S}
    {k : σ → Prog σ S D B α} (hs : l.threads[i]? = some (.stmt s k)) :
    ∃ k', u.threads[i]? = some (.stmt s k') := by
  obtain ⟨t, hdoing, -⟩ := h
  rw [hs] at hdoing
  generalize u.threads[i]? = op at hdoing
  generalize hop' : some (Prog.stmt s k) = op' at hdoing
  cases hdoing with
  | absent => cases hop'
  | idle p hw =>
    cases p with
    | ret b => cases hop'
    | halt => cases hop'
    | stmt s' k' =>
      obtain rfl : s = s' := (Prog.stmt.inj (Option.some.inj hop')).1
      exact ⟨k', rfl⟩
    | call c k' => cases hw
  | busy c k' t r ht hr =>
    cases r with
    | ret b => exact absurd rfl (hr b)
    | halt => cases hop'
    | stmt s' k'' => exact (ht.remote (hremote c)).elim
    | call d k'' => cases hop'

/-- Before anything happened, every handler can catch up. -/
theorem start_refines (st : σ) (ps : List (Prog σ S C A α)) :
    ∃ u, Reach M Free (Pool.start st ps) u ∧
      Refines impl u (Pool.start st (ps.map (Prog.within impl))) := by
  -- the handlers catch up one after the other
  have hupto : ∀ n, ∃ u, Reach M Free (Pool.start st ps) u ∧ u.store = st ∧
      (∀ j, j < n → At impl u (Pool.start st (ps.map (Prog.within impl))) j) ∧
      ∀ j, n ≤ j → u.threads[j]? = ps[j]? ∧ requests j u.trace = [] := by
    intro n
    induction n with
    | zero => exact ⟨_, .start, rfl, fun j hj => absurd hj (Nat.not_lt_zero j), fun j _ => ⟨rfl, rfl⟩⟩
    | succ n ih =>
      obtain ⟨u, hu, hstore, hdone, hrest⟩ := ih
      obtain ⟨hthread, hreq⟩ := hrest n (Nat.le_refl n)
      have hacc : Accounts impl n u.trace (Pool.start st (ps.map (Prog.within impl))).trace [] :=
        ⟨[], by rw [hreq]; exact .nil, rfl⟩
      have hbelow : (Pool.start st (ps.map (Prog.within impl))).threads[n]? =
          ps[n]?.map (Prog.within impl) := List.getElem?_map
      suffices hcaught : ∃ u', Reach M Free (Pool.start st ps) u' ∧ Aside n u u' ∧
          At impl u' (Pool.start st (ps.map (Prog.within impl))) n by
        obtain ⟨u', hu', haside, hat⟩ := hcaught
        refine ⟨u', hu', haside.store.trans hstore, fun j hj => ?_, fun j hj => ?_⟩
        · by_cases hjn : j = n
          · subst hjn
            exact hat
          · exact (hdone j (by omega)).other (haside.threads j hjn) rfl (haside.requests j hjn) rfl
        · have hjn : j ≠ n := by omega
          exact ⟨(haside.threads j hjn).trans (hrest j (by omega)).1,
            (haside.requests j hjn).trans (hrest j (by omega)).2⟩
      cases hp : ps[n]? with
      | none =>
        refine ⟨u, hu, .refl n u, [], ?_, hacc⟩
        rw [hthread, hbelow, hp]
        exact .absent
      | some p =>
        rw [hp] at hthread hbelow
        exact catch_up p hu hthread hbelow hacc
  obtain ⟨u, hu, hstore, hdone, hrest⟩ := hupto ps.length
  refine ⟨u, hu, hstore.symm, fun j => ?_⟩
  by_cases hj : j < ps.length
  · exact hdone j hj
  · have hnone : ps[j]? = none := List.getElem?_eq_none (by omega)
    have hbelow : (Pool.start st (ps.map (Prog.within impl))).threads[j]? = none := by
      show (ps.map (Prog.within impl))[j]? = none
      rw [List.getElem?_map, hnone]
      rfl
    obtain ⟨hthread, hreq⟩ := hrest j (by omega)
    refine ⟨[], ?_, [], by rw [hreq]; exact .nil, rfl⟩
    rw [hthread, hnone, hbelow]
    exact .absent

/-- Every reachable pool of handlers whose calls are carried out refines a reachable one. -/
theorem reach_refines [Inhabited A] (hremote : ∀ c, (impl c).Remote) {st : σ}
    {ps : List (Prog σ S C A α)} {l : Pool σ S D B α}
    (h : Reach M Free (Pool.start st (ps.map (Prog.within impl))) l) :
    ∃ u, Reach M Free (Pool.start st ps) u ∧ Refines impl u l := by
  induction h with
  | start => exact start_refines st ps
  | step _ m _ ih =>
    obtain ⟨u, hu, href⟩ := ih
    exact href.step hremote hu m

/-- **Calls within calls.** Every reachable pool of handlers whose calls are carried out is a
reachable pool of the handlers as they were: with the same store, the same values returned, and
for each handler, what it has asked is what the conversations of its calls have asked, in order,
the last of them perhaps unfinished. -/
theorem within_refines [Inhabited A] (hremote : ∀ c, (impl c).Remote) {st : σ}
    {ps : List (Prog σ S C A α)} {l : Pool σ S D B α}
    (h : Reach M Free (Pool.start st (ps.map (Prog.within impl))) l) :
    ∃ u, Reach M Free (Pool.start st ps) u ∧ u.store = l.store ∧
      (∀ (i : Nat) (a : α), l.threads[i]? = some (.ret a) → u.threads[i]? = some (.ret a)) ∧
      ∀ i, ∃ css, List.Forall₂ (Told impl) (u.asked i) css ∧ l.asked i = css.flatten := by
  obtain ⟨u, hu, href⟩ := reach_refines hremote h
  exact ⟨u, hu, href.store.symm, fun i a => (href.at_ i).returned, fun i => (href.at_ i).asked hremote⟩

/-! ## Requests and calls -/

theorem mem_asked {c : Pool σ S D B α} {i : Nat} {d : D} {b : B} :
    (d, some b) ∈ c.asked i ↔ (i, d, b) ∈ calls c.trace := by
  unfold asked
  rw [List.mem_append, mem_calls, requests, List.mem_filterMap]
  constructor
  · rintro (⟨ev, hev, h⟩ | h)
    · cases ev with
      | stmt j s st => cases h
      | call j d' b' st =>
        by_cases hj : j = i
        · simp only [hj, if_true, Option.some.injEq, Prod.mk.injEq] at h
          obtain ⟨rfl, rfl⟩ := h
          exact ⟨st, hj ▸ hev⟩
        · simp [hj] at h
      | died j w =>
        cases w with
        | none => cases h
        | some d' => simp at h
    · obtain ⟨d', -, h⟩ := Option.map_eq_some_iff.mp (Option.mem_toList.mp h)
      cases h
  · rintro ⟨st, hev⟩
    exact .inl ⟨_, hev, by simp⟩

/-- Each call has its conversation. -/
theorem told_of_mem {cas : List (C × Option A)} {css : List (List (D × Option B))}
    (h : List.Forall₂ (Told impl) cas css) {ca : C × Option A} (hmem : ca ∈ cas) :
    ∃ cs ∈ css, Told impl ca cs := by
  induction h with
  | nil => exact absurd hmem List.not_mem_nil
  | @cons ca' cs cas css hc _ ih =>
    rcases List.mem_cons.mp hmem with rfl | hmem
    · exact ⟨cs, List.mem_cons_self, hc⟩
    · obtain ⟨cs', hcs', htold⟩ := ih hmem
      exact ⟨cs', List.mem_cons_of_mem _ hcs', htold⟩

/-! ## Counting requests -/

/-- What the conversation of each call does at most once, and only for calls of a kind, the
conversations do at most as often as there are such calls. -/
theorem countP_told {p : D × Option B → Bool} {q : C × Option A → Bool}
    (hle : ∀ ca cs, Told impl ca cs → cs.countP p ≤ if q ca then 1 else 0)
    {cas : List (C × Option A)} {css : List (List (D × Option B))}
    (h : List.Forall₂ (Told impl) cas css) : css.flatten.countP p ≤ cas.countP q := by
  induction h with
  | nil => exact Nat.le_refl 0
  | @cons ca cs cas css hc _ ih =>
    have := hle ca cs hc
    rw [List.flatten_cons, List.countP_append, List.countP_cons]
    omega

/-- Once a handler is killed, the history shows all it has asked. -/
theorem requests_die (u : Pool σ S C A α) (i : Nat) :
    requests i (u.step M (.die i)).trace = u.asked i := by
  show requests i (u.trace ++ [.died i (u.threads[i]?.bind Prog.waiting)]) = _
  unfold Pool.asked
  cases u.threads[i]?.bind Prog.waiting with
  | none => simp
  | some c => simp

/-- Nobody else is concerned. -/
theorem asked_die_ne (u : Pool σ S C A α) {i j : Nat} (h : j ≠ i) :
    (u.step M (.die i)).asked j = u.asked j := by
  unfold Pool.asked
  rw [show (u.step M (.die i)).threads[j]? = u.threads[j]? from List.getElem?_set_ne (Ne.symm h)]
  exact congrArg (· ++ _) (requests_died_ne _ (Ne.symm h))

theorem requests_die_ne (u : Pool σ S C A α) {i j : Nat} (h : j ≠ i) :
    requests j (u.step M (.die i)).trace = requests j u.trace := requests_died_ne _ (Ne.symm h)

end Pool

end Atomic
