import Mathlib.Algebra.Order.BigOperators.Group.List
import Paari.Lifecycle

/-!
# What governance decides

A request that is not a replay is decided by the rows it finds: `governance` says how, and
`submit_payment_intent` answers with it. The decision is monotone: a larger amount, more
recorded intents or more active mandates never raise it. The one exception is a recorded
intent that stands under the request's own idempotency key, whose decision is returned
instead of a new one.
-/

namespace Paari

open Atomic

/-! ## What a request alone may count on -/

/-- The lock is not held by another session. -/
def World.Open (i : Nat) (g : Gate) (w : World) : Prop := ∀ h ∈ w.gates, h.2 ≠ i → h.1 ≠ g

/-- A session that has only read, burnt its proof and tried gates still sees the rows that
governance reads as they were. -/
structure World.Akin (i : Nat) (w w' : World) : Prop where
  mandates : w'.db.mandates = w.db.mandates
  intents : w'.db.intents = w.db.intents
  clock : w'.clock = w.clock
  gates : (w'.gates.filter fun h => h.2 ≠ i) = w.gates.filter fun h => h.2 ≠ i

namespace World.Akin

variable {i : Nat} {w w' w'' : World}

theorem refl : w.Akin i w := ⟨rfl, rfl, rfl, rfl⟩

theorem trans (h : w.Akin i w') (h' : w'.Akin i w'') : w.Akin i w'' :=
  ⟨h'.mandates.trans h.mandates, h'.intents.trans h.intents, h'.clock.trans h.clock,
    h'.gates.trans h.gates⟩

theorem isOpen (h : w.Akin i w') (g : Gate) : w'.Open i g ↔ w.Open i g := by
  have hothers : ∀ v : World, v.Open i g ↔ ∀ x ∈ v.gates.filter (fun x => x.2 ≠ i), x.1 ≠ g := by
    intro v
    constructor
    · intro hv x hx
      obtain ⟨hmem, hother⟩ := List.mem_filter.mp hx
      exact hv x hmem (of_decide_eq_true hother)
    · intro hv x hx hother
      exact hv x (List.mem_filter.mpr ⟨hx, decide_eq_true hother⟩)
  rw [hothers, hothers, h.gates]

theorem rollback : w.Akin i (w.rollback i) where
  mandates := by rw [rollback_db]
  intents := by rw [rollback_db]
  clock := rollback_clock i w
  gates := by
    rw [rollback_gates, List.filter_filter]
    refine List.filter_congr fun h _ => ?_
    rw [Bool.and_self]

theorem release {db : DB} (hmandates : db.mandates = w.db.mandates)
    (hintents : db.intents = w.db.intents) : w.Akin i ({ w with db := db }.release i) where
  mandates := hmandates
  intents := hintents
  clock := rfl
  gates := by
    show ((w.gates.filter fun h => h.2 ≠ i).filter fun h => h.2 ≠ i) = _
    rw [List.filter_filter]
    refine List.filter_congr fun h _ => ?_
    rw [Bool.and_self]

theorem gated (g : Gate) : w.Akin i (w.exec i (.try_gate g)) := by
  unfold World.exec
  dsimp only
  split
  · refine ⟨rfl, rfl, rfl, ?_⟩
    rw [List.filter_cons, if_neg (by simp)]
  · exact rollback

end World.Akin

/-- Burning proofs leaves the rows that governance reads as they are. -/
theorem applyAll_proofs {s : Session} {db db' : DB} (hs : s.OnlyProofs)
    (h : db.applyAll s = .ok db') : db'.mandates = db.mandates ∧ db'.intents = db.intents := by
  refine applyAll_keeps_all (P := fun x => ∃ p, x = .insertProof p)
    (K := fun d => d.mandates = db.mandates ∧ d.intents = db.intents) ?_ hs h ⟨rfl, rfl⟩
  intro d d' x hproof happly hd
  obtain ⟨p, rfl⟩ := hproof
  obtain ⟨ps, -, hrows⟩ := Option.bind_eq_some_iff.mp happly
  rw [← Option.some.inj hrows]
  exact hd

section
variable {H : Host} {w : World} {calls : List (Call × Option Answer)} {i : Nat}

/-- After a commit the session holds nothing, so only others can hold a gate. -/
theorem free_released {db : DB} {g : Gate} :
    ({ w with db := db }.release i).free g = true ↔ w.Open i g := by
  unfold World.free
  rw [List.all_eq_true]
  constructor
  · intro h x hx hother
    exact of_decide_eq_true (h x (List.mem_filter.mpr ⟨hx, decide_eq_true hother⟩))
  · intro h x hx
    obtain ⟨hmem, hother⟩ := List.mem_filter.mp hx
    exact decide_eq_true (h x hmem (of_decide_eq_true hother))

/-- Whatever follows, a request that dies answers nothing. -/
theorem wp_dies {α : Type} {p : Handler α} {Q : World → List (Call × Option Answer) → Option α → Prop}
    (hQ : ∀ w c r, Q w c r) : p.Wp (World.exec i) Q calls w :=
  Prog.wp_mono (fun w c r _ => hQ w c r)
    (Prog.wp_of_invariant (I := fun _ => True) (fun _ _ _ => trivial) p calls trivial)

/-- The gates are had exactly when no other session holds one of them. -/
theorem acquireEach_wp {ids : List String} : ∀ {pending : Session} {w : World}, pending.OnlyProofs →
    (acquireEach H pending ids).Wp (World.exec i) (fun w' _ r =>
      (r = none → ∃ x, w.db.applyAll pending = .error x) ∧ ∀ got, r = some got →
        w.Akin i w' ∧ (got = true ↔ ∀ id ∈ ids, w.Open i (mandateGate H id))) calls w := by
  induction ids with
  | nil =>
    intro pending w hpending
    refine ⟨fun h => absurd h nofun, fun got hgot => ⟨.refl, ?_⟩⟩
    obtain rfl := Option.some.inj hgot
    exact ⟨fun _ _ h => absurd h List.not_mem_nil, fun _ => rfl⟩
  | cons id ids ih =>
    intro pending w hpending
    refine Prog.wp_bind (wp_commit ?_ ?_)
    · intro x hx
      exact ⟨fun _ => ⟨x, hx⟩, fun _ h => absurd h nofun⟩
    intro db' hdb
    obtain ⟨hmandates, hintents⟩ := applyAll_proofs hpending hdb
    -- the commit of the pending proofs changes no row the gates or the checks depend on
    have hcommitted : w.Akin i ({ w with db := db' }.release i) := .release hmandates hintents
    have hfree : ({ w with db := db' }.release i).free (mandateGate H id) = true ↔
        w.Open i (mandateGate H id) := free_released
    show (if !({ w with db := db' }.release i).free (mandateGate H id) then return false
      else acquireEach H [] ids : Handler Bool).Wp _ _ _
        (({ w with db := db' }.release i).exec i (.try_gate (mandateGate H id)))
    have hgated := hcommitted.trans (World.Akin.gated (mandateGate H id))
    generalize ({ w with db := db' }.release i).exec i (.try_gate (mandateGate H id)) = w₁ at hgated ⊢
    split
    · next hheld =>
      refine ⟨fun h => absurd h nofun, fun got hgot => ⟨hgated, ?_⟩⟩
      obtain rfl := Option.some.inj hgot
      refine ⟨fun h => absurd h Bool.false_ne_true, fun h => ?_⟩
      rw [hfree.mpr (h id List.mem_cons_self)] at hheld
      exact absurd hheld Bool.false_ne_true
    · next hgot =>
      -- this gate was free; the rest of the loop commits nothing any more
      have hhere : w.Open i (mandateGate H id) := hfree.mp (by simpa using hgot)
      have hnothing : Session.OnlyProofs [] := fun x hx => absurd hx List.not_mem_nil
      refine Prog.wp_mono ?_ (ih hnothing)
      intro w' _ r hpost
      obtain ⟨hdied, hr⟩ := hpost
      refine ⟨fun h => ?_, fun got hgot => ?_⟩
      · obtain ⟨x, hx⟩ := hdied h
        exact absurd hx nofun
      · obtain ⟨hakin, hiff⟩ := hr got hgot
        refine ⟨hgated.trans hakin, hiff.trans ⟨fun h id' hid => ?_, fun h id' hid => ?_⟩⟩
        · rcases List.mem_cons.mp hid with rfl | hid
          · exact hhere
          · exact (hgated.isOpen _).mp (h id' hid)
        · exact (hgated.isOpen _).mpr (h id' (List.mem_cons_of_mem _ hid))

/-- The checks of the mandates, one after another, on rows that stay as they are. -/
theorem checkEach_wp {p : Proposal} {signed : Bool} : ∀ ms : List UserPaymentMandate,
    (checkEach H p signed ms).Wp (World.exec i) (fun w' _ r => w' = w ∧
      (r = none → ∃ m ∈ ms, check_one H w.db m p signed = none) ∧
      ∀ ds, r = some ds → ms.map (fun m => check_one H w.db m p signed) = ds.map some) calls w := by
  intro ms
  induction ms with
  | nil =>
    refine ⟨rfl, fun h => absurd h nofun, fun ds hds => ?_⟩
    rw [← Option.some.inj hds]
    rfl
  | cons m ms ih =>
    refine wp_query ?_
    split
    · next hnone => exact ⟨rfl, fun _ => ⟨m, List.mem_cons_self, hnone⟩, fun _ h => absurd h nofun⟩
    next d hd =>
    refine Prog.wp_bind (Prog.wp_mono ?_ ih)
    intro w' _ r hpost
    obtain ⟨rfl, hdied, hr⟩ := hpost
    match r with
    | none =>
      refine ⟨rfl, fun _ => ?_, fun _ h => absurd h nofun⟩
      obtain ⟨m', hm', hnone⟩ := hdied rfl
      exact ⟨m', List.mem_cons_of_mem _ hm', hnone⟩
    | some ds =>
      refine ⟨rfl, fun h => absurd h nofun, fun ds' hds => ?_⟩
      rw [← Option.some.inj hds, List.map_cons, List.map_cons, hd, hr ds rfl]

end

/-! ## An evaluation -/

section
variable {H : Host} {db : DB} {m : UserPaymentMandate} {p : Proposal} {signed : Bool}
  {d : MandateDecision}

/-- `_check_one` accepts. -/
def Admits (H : Host) (db : DB) (m : UserPaymentMandate) (p : Proposal) (require_signed : Bool) :
    Prop :=
  ∃ d, check_one H db m p require_signed = some d ∧ d.ok = true

/-- `_check_one` asks for review. -/
def Questions (H : Host) (db : DB) (m : UserPaymentMandate) (p : Proposal) (require_signed : Bool) :
    Prop :=
  ∃ d, check_one H db m p require_signed = some d ∧ d.review = true

theorem accepted_permitted (hd : check_one H db m p signed = some d) (hok : d.ok = true) :
    d = permitted m p := by
  obtain ⟨hterms, hbudgets⟩ := check_one_ok.mp ⟨d, hd, hok⟩
  exact Option.some.inj (hd.symm.trans (check_one_accepts hterms hbudgets))

theorem permitted_review : (permitted m p).review = true ↔
    ∃ cap, m.require_review_above = some cap ∧ p.amount_minor_units > cap := by
  unfold permitted
  cases m.require_review_above with
  | none => simp
  | some cap =>
    by_cases h : p.amount_minor_units > cap
    · simp [h]
    · simp [h]

theorem permitted_reasons : (permitted m p).reasons ≠ [] := by
  unfold permitted
  split <;> exact List.cons_ne_nil _ _

/-- The verdict over decisions of which each gives its reasons. -/
theorem combine_spec {ms : List UserPaymentMandate} {ds : List MandateDecision}
    (hreasons : ∀ d ∈ ds, d.ok = true → d.reasons ≠ []) :
    (combine ms ds).state = .active ∧
    ((combine ms ds).ok = true ↔ ∀ d ∈ ds, d.ok = true) ∧
    ((combine ms ds).review = true ↔ (∀ d ∈ ds, d.ok = true) ∧ ∃ d ∈ ds, d.review = true) ∧
    ((combine ms ds).ok = true → (combine ms ds).mandate = ms.head?) := by
  unfold combine
  dsimp only
  cases hfind : ds.find? (fun d => !d.ok) with
  | some d =>
    have hrefused : d.ok = false := by simpa using List.find?_some hfind
    have hnot : ¬∀ d ∈ ds, d.ok = true := by
      intro h
      rw [h d (List.mem_of_find?_eq_some hfind)] at hrefused
      exact absurd hrefused nofun
    refine ⟨rfl, ⟨fun h => absurd h nofun, fun h => absurd h hnot⟩, ⟨fun h => absurd h nofun, fun h => absurd h.1 hnot⟩,
      fun h => absurd h nofun⟩
  | none =>
    have hok : ∀ d ∈ ds, d.ok = true := by
      intro d hd
      simpa using List.find?_eq_none.mp hfind d hd
    -- the source asks whether there are reasons to review, not whether there are reviews
    have hasked : (ds.filter MandateDecision.review).flatMap MandateDecision.reasons ≠ [] ↔
        ∃ d ∈ ds, d.review = true := by
      rw [Ne, List.flatMap_eq_nil_iff, not_forall]
      constructor
      · intro hsome
        obtain ⟨d, hd⟩ := hsome
        obtain ⟨hmem, -⟩ := Classical.not_imp.mp hd
        obtain ⟨hmem, hreview⟩ := List.mem_filter.mp hmem
        exact ⟨d, hmem, hreview⟩
      · intro hsome
        obtain ⟨d, hmem, hreview⟩ := hsome
        exact ⟨d, Classical.not_imp.mpr ⟨List.mem_filter.mpr ⟨hmem, hreview⟩, hreasons d hmem (hok d hmem)⟩⟩
    dsimp only
    split
    · next h => exact ⟨rfl, ⟨fun _ => hok, fun _ => rfl⟩, ⟨fun _ => ⟨hok, hasked.mp h⟩, fun _ => rfl⟩, fun _ => rfl⟩
    · next h => exact ⟨rfl, ⟨fun _ => hok, fun _ => rfl⟩,
        ⟨fun hr => absurd hr nofun, fun hr => absurd (hasked.mpr hr.2) h⟩, fun _ => rfl⟩

/-- The same verdict in terms of the mandates that were checked. -/
theorem combine_checked {ms : List UserPaymentMandate} {ds : List MandateDecision}
    (hds : ms.map (fun m => check_one H db m p signed) = ds.map some) :
    (combine ms ds).state = .active ∧
    ((combine ms ds).ok = true ↔ ∀ m ∈ ms, Admits H db m p signed) ∧
    ((combine ms ds).review = true ↔ (combine ms ds).ok = true ∧
      ∃ m ∈ ms, Questions H db m p signed) ∧
    ((combine ms ds).ok = true → (combine ms ds).mandate = ms.head?) := by
  -- each decision is that of a mandate, and the other way round
  have hfrom : ∀ d ∈ ds, ∃ m ∈ ms, check_one H db m p signed = some d := by
    intro d hd
    have hmem : some d ∈ ds.map some := List.mem_map.mpr ⟨d, hd, rfl⟩
    rw [← hds] at hmem
    exact List.mem_map.mp hmem
  have hto : ∀ m ∈ ms, ∃ d ∈ ds, check_one H db m p signed = some d := by
    intro m hm
    have hmem : check_one H db m p signed ∈ ms.map (fun m => check_one H db m p signed) :=
      List.mem_map.mpr ⟨m, hm, rfl⟩
    rw [hds] at hmem
    obtain ⟨d, hd, heq⟩ := List.mem_map.mp hmem
    exact ⟨d, hd, heq.symm⟩
  have hok : (∀ d ∈ ds, d.ok = true) ↔ ∀ m ∈ ms, Admits H db m p signed := by
    constructor
    · intro h m hm
      obtain ⟨d, hd, hcheck⟩ := hto m hm
      exact ⟨d, hcheck, h d hd⟩
    · intro h d hd
      obtain ⟨m, hm, hcheck⟩ := hfrom d hd
      obtain ⟨d', hcheck', hok⟩ := h m hm
      rw [Option.some.inj (hcheck.symm.trans hcheck')]
      exact hok
  have hreview : (∃ d ∈ ds, d.review = true) ↔ ∃ m ∈ ms, Questions H db m p signed := by
    constructor
    · intro hsome
      obtain ⟨d, hd, hr⟩ := hsome
      obtain ⟨m, hm, hcheck⟩ := hfrom d hd
      exact ⟨m, hm, d, hcheck, hr⟩
    · intro hsome
      obtain ⟨m, hm, d, hcheck, hr⟩ := hsome
      obtain ⟨d', hd', hcheck'⟩ := hto m hm
      rw [Option.some.inj (hcheck.symm.trans hcheck')] at hr
      exact ⟨d', hd', hr⟩
  have hreasons : ∀ d ∈ ds, d.ok = true → d.reasons ≠ [] := by
    intro d hd hd'
    obtain ⟨m, -, hcheck⟩ := hfrom d hd
    rw [accepted_permitted hcheck hd']
    exact permitted_reasons
  obtain ⟨hstate, hcok, hcreview, hmandate⟩ := @combine_spec ms ds hreasons
  exact ⟨hstate, hcok.trans hok, by rw [hcreview, hcok, hreview], hmandate⟩

end

section
variable {H : Host} {w w' : World} {calls : List (Call × Option Answer)} {i : Nat}
  {agent_id org_id : String} {p : Proposal} {signed : Bool}

/-- The checks read the recorded intents and nothing else. -/
theorem check_one_intents {db db' : DB} (h : db'.intents = db.intents) (m : UserPaymentMandate) :
    check_one H db' m p signed = check_one H db m p signed := by
  have honly : ∀ d : DB, check_one H d m p signed =
      check_one H { DB.empty with intents := d.intents } m p signed := fun _ => rfl
  rw [honly db', honly db, h]

theorem active_of_mandates {db db' : DB} (h : db'.mandates = db.mandates) (now : Instant) :
    active_mandates db' agent_id org_id now = active_mandates db agent_id org_id now := by
  unfold active_mandates scope_query
  rw [h]

theorem resolve_active {db : DB} {now : Instant} :
    resolve_state db agent_id org_id now = .active ↔ active_mandates db agent_id org_id now ≠ [] := by
  unfold resolve_state
  cases active_mandates db agent_id org_id now with
  | nil =>
    rw [if_neg (by simp)]
    split <;> simp
  | cons m ms => simp

/-- What an evaluation comes to. -/
structure Evaluation (H : Host) (i : Nat) (w : World) (agent_id org_id : String) (p : Proposal)
    (require_signed : Bool) (d : MandateDecision) : Prop where
  state : d.state = resolve_state w.db agent_id org_id p.now
  ok : d.ok = true ↔ active_mandates w.db agent_id org_id p.now ≠ [] ∧
    (∀ m ∈ active_mandates w.db agent_id org_id p.now, w.Open i (mandateGate H m.mandate_id)) ∧
    ∀ m ∈ active_mandates w.db agent_id org_id p.now, Admits H w.db m p require_signed
  review : d.review = true ↔ d.ok = true ∧
    ∃ m ∈ active_mandates w.db agent_id org_id p.now, Questions H w.db m p require_signed
  mandate : d.ok = true → d.mandate = (active_mandates w.db agent_id org_id p.now).head?

/-- A refusal comes with no review. -/
theorem Evaluation.refused {d : MandateDecision}
    (hstate : d.state = resolve_state w.db agent_id org_id p.now) (hok : d.ok = false)
    (hreview : d.review = false)
    (hnot : ¬(active_mandates w.db agent_id org_id p.now ≠ [] ∧
      (∀ m ∈ active_mandates w.db agent_id org_id p.now, w.Open i (mandateGate H m.mandate_id)) ∧
      ∀ m ∈ active_mandates w.db agent_id org_id p.now, Admits H w.db m p signed)) :
    Evaluation H i w agent_id org_id p signed d := by
  have hnever : d.ok ≠ true := by
    rw [hok]
    exact Bool.false_ne_true
  have hnone : d.review ≠ true := by
    rw [hreview]
    exact Bool.false_ne_true
  exact ⟨hstate, ⟨fun h => absurd h hnever, fun h => absurd h hnot⟩,
    ⟨fun h => absurd h hnone, fun h => absurd h.1 hnever⟩, fun h => absurd h hnever⟩

theorem evaluate_mandate_wp {pending : Session} (hpending : pending.OnlyProofs) :
    (evaluate_mandate H pending agent_id org_id p signed).Wp (World.exec i) (fun w' _ r =>
      (r = none → (∃ x, w.db.applyAll pending = .error x) ∨
        ∃ m ∈ active_mandates w.db agent_id org_id p.now, check_one H w.db m p signed = none) ∧
      ∀ d s, r = some (d, s) → w.Akin i w' ∧ Evaluation H i w agent_id org_id p signed d) calls w := by
  refine wp_query ?_
  split
  · next hempty =>
    have hnone : active_mandates w.db agent_id org_id p.now = [] := List.isEmpty_iff.mp hempty
    refine wp_query ⟨fun h => absurd h nofun, fun d s hds => ⟨.refl, ?_⟩⟩
    obtain ⟨rfl, rfl⟩ := Prod.mk.inj (Option.some.inj hds)
    refine .refused ?_ rfl rfl fun h => h.1 hnone
    have hlapsed : resolve_state w.db agent_id org_id p.now =
        if mandate_history_exists w.db agent_id org_id then .lapsed else .none := by
      unfold resolve_state
      rw [hempty]
      rfl
    exact hlapsed.symm
  next hempty =>
  have hsome : active_mandates w.db agent_id org_id p.now ≠ [] := fun h => hempty (List.isEmpty_iff.mpr h)
  have hstate : MandateState.active = resolve_state w.db agent_id org_id p.now :=
    (resolve_active.mpr hsome).symm
  have hids : ∀ {w : World}, (∀ id ∈ (((active_mandates w.db agent_id org_id p.now).map
      UserPaymentMandate.mandate_id).dedup.insertionSort (· ≤ ·)), w.Open i (mandateGate H id)) ↔
      ∀ m ∈ active_mandates w.db agent_id org_id p.now, w.Open i (mandateGate H m.mandate_id) := by
    intro w
    constructor
    · intro h m hm
      exact h _ ((List.mem_insertionSort _).mpr (List.mem_dedup.mpr (List.mem_map.mpr ⟨m, hm, rfl⟩)))
    · intro h id hid
      obtain ⟨m, hm, rfl⟩ := List.mem_map.mp (List.mem_dedup.mp ((List.mem_insertionSort _).mp hid))
      exact h m hm
  refine Prog.wp_bind (Prog.wp_mono ?_ (acquireEach_wp hpending))
  intro w₁ _ r hpost
  obtain ⟨hdied, hr⟩ := hpost
  match r with
  | none => exact ⟨fun _ => .inl (hdied rfl), fun _ _ h => absurd h nofun⟩
  | some got =>
  obtain ⟨hakin, hgot⟩ := hr got rfl
  replace hgot := hgot.trans hids
  dsimp only
  split
  · next hheld =>
    refine ⟨fun h => absurd h nofun, fun d s hds => ⟨hakin, ?_⟩⟩
    obtain ⟨rfl, rfl⟩ := Prod.mk.inj (Option.some.inj hds)
    refine .refused hstate rfl rfl fun h => ?_
    rw [hgot.mpr h.2.1] at hheld
    exact absurd hheld Bool.false_ne_true
  next hheld =>
  have hopen := hgot.mp (by simpa using hheld)
  -- under the gates the same mandates are active
  refine wp_query ?_
  rw [active_of_mandates hakin.mandates]
  split
  · next hnone => exact absurd hnone hempty
  refine Prog.wp_bind (Prog.wp_mono ?_ (checkEach_wp _))
  intro w₂ _ r hpost
  obtain ⟨rfl, hdied, hr⟩ := hpost
  match r with
  | none =>
    refine ⟨fun _ => .inr ?_, fun _ _ h => absurd h nofun⟩
    obtain ⟨m, hm, hnone⟩ := hdied rfl
    rw [check_one_intents hakin.intents] at hnone
    exact ⟨m, hm, hnone⟩
  | some ds =>
    refine ⟨fun h => absurd h nofun, fun d s hds => ⟨hakin, ?_⟩⟩
    obtain ⟨rfl, rfl⟩ := Prod.mk.inj (Option.some.inj hds)
    have hchecked := hr ds rfl
    rw [List.map_congr_left fun m _ => check_one_intents hakin.intents m] at hchecked
    obtain ⟨hactive, hok, hreview, hmandate⟩ := combine_checked hchecked
    exact ⟨hactive.trans hstate, hok.trans ⟨fun h => ⟨hsome, hopen, h⟩, fun h => h.2.2⟩, hreview, hmandate⟩

end

/-! ## The decision -/

/-- The payment as the mandate checks see it. -/
def PaymentIntentRequest.proposal (req : PaymentIntentRequest) (now : Instant) : Proposal :=
  ⟨req.merchant, req.amount_minor_units, req.currency, req.merchant_category, now⟩

/-- The agent's mandates that are active now. -/
def Agent.mandates (agent : Agent) (w : World) : List UserPaymentMandate :=
  active_mandates w.db agent.agent_id agent.org_id w.clock

/-- The intents of the agent in the last minute. -/
def recent_count (w : World) (agent : Agent) : Nat :=
  (w.db.intents.filter fun x =>
    x.agent_id == agent.agent_id && decide (w.clock - VELOCITY_WINDOW ≤ x.created_at)).length

/-- The mandates let the payment through: there never was one and none is required, or all
that are active accept it. -/
def MandatesPass (H : Host) (i : Nat) (w : World) (agent : Agent) (req : PaymentIntentRequest)
    (policy : Host.MandatePolicy) : Prop :=
  resolve_state w.db agent.agent_id agent.org_id w.clock = .none ∧ policy.mandate_required = false ∨
    agent.mandates w ≠ [] ∧ (∀ m ∈ agent.mandates w, w.Open i (mandateGate H m.mandate_id)) ∧
      ∀ m ∈ agent.mandates w, Admits H w.db m (req.proposal w.clock) policy.require_signed_mandate

/-- The delegation and the mandates let the payment through. -/
def Passes (H : Host) (i : Nat) (w : World) (agent : Agent) (req : PaymentIntentRequest) : Prop :=
  delegationRefusal agent req w.clock = some none ∧
    ∃ policy, H.mandate_policy = .ok policy ∧ MandatesPass H i w agent req policy

/-- Something asks for a review: the step-up test, the velocity test or a mandate. -/
def Parks (w : World) (agent : Agent) (req : PaymentIntentRequest) : Prop :=
  stepUpRequired agent req.amount_minor_units = true ∨ VELOCITY_MAX_INTENTS ≤ recent_count w agent ∨
    ∃ m ∈ agent.mandates w, ∃ cap, m.require_review_above = some cap ∧ req.amount_minor_units > cap

open Classical in
/-- How governance decides a request that is not a replay. -/
noncomputable def governance (H : Host) (i : Nat) (w : World) (agent : Agent)
    (req : PaymentIntentRequest) : GovernanceDecision :=
  if Passes H i w agent req then
    if Parks w agent req then .review else .allow
  else .deny

/-- The intent that stands under the request's idempotency key. -/
def standing (w : World) (agent : Agent) (req : PaymentIntentRequest) : Option PaymentIntent :=
  w.db.intents.find? fun x =>
    x.agent_id == agent.agent_id && x.idempotency_key == req.idempotency_key

/-- The decision the request is answered with: a replay returns the one that was recorded. -/
noncomputable def decisionFor (H : Host) (i : Nat) (w : World) (agent : Agent)
    (req : PaymentIntentRequest) : GovernanceDecision :=
  match standing w agent req with
  | some x => x.decision
  | none => governance H i w agent req

section
variable {H : Host} {w : World} {calls : List (Call × Option Answer)} {i : Nat} {agent : Agent}
  {req : PaymentIntentRequest}

theorem governance_deny (h : ¬Passes H i w agent req) : governance H i w agent req = .deny :=
  if_neg h

theorem governance_review (h : Passes H i w agent req) (hparks : Parks w agent req) :
    governance H i w agent req = .review :=
  (if_pos h).trans (if_pos hparks)

theorem governance_allow (h : Passes H i w agent req) (hparks : ¬Parks w agent req) :
    governance H i w agent req = .allow :=
  (if_pos h).trans (if_neg hparks)

/-- Whatever becomes of the record, the answer is the one that was decided. -/
theorem wp_answers {p : Handler PaymentIntent} {f : PaymentIntent → Handler Reply} {word : String}
    (hf : ∀ x c w', (f x).Wp (World.exec i) (fun _ _ r => ∀ v, r = some (.intent v) → v.decision = word) c w') :
    (p >>= f).Wp (World.exec i) (fun _ _ r => ∀ v, r = some (.intent v) → v.decision = word) calls w := by
  refine Prog.wp_bind (wp_dies fun w' c r => ?_)
  match r with
  | none => exact fun _ h => absurd h nofun
  | some x => exact hf x c w'

theorem deny_wp {pending : Session} {check : String} {reasons : List String} :
    (deny H pending agent req check reasons).Wp (World.exec i)
      (fun _ _ r => ∀ v, r = some (.intent v) → v.decision = "deny") calls w := by
  refine wp_answers fun x c w' v hv => ?_
  rw [← Reply.intent.inj (Option.some.inj hv)]

theorem allow_wp {pending : Session} {parent : ParentAuthority} {now : Instant}
    {results : List PolicyResult} :
    (allow H pending agent parent req now results).Wp (World.exec i)
      (fun _ _ r => ∀ v, r = some (.intent v) → v.decision = "allow") calls w := by
  refine wp_answers fun x c w' => Prog.wp_bind (wp_dies fun w' c r => ?_)
  match r with
  | none => exact fun _ h => absurd h nofun
  | some auth =>
    refine wp_record_audit (wp_commit (fun _ _ _ h => absurd h nofun) fun _ _ v hv => ?_)
    rw [← Reply.intent.inj (Option.some.inj hv)]

/-- The checks that fail are those that ask for a review. -/
theorem parked_iff {d : MandateDecision} {n : Nat} {mfa : Bool}
    (hmandate : d.review = true → d.mandate.isSome = true) :
    (mfa || !((passedChecks agent req ++ mandateChecks d ++ velocityChecks n ++
      stepUpChecks mfa).filter fun r => !r.passed).isEmpty) = true ↔
    mfa = true ∨ VELOCITY_MAX_INTENTS ≤ n ∨ d.review = true := by
  have hpassed : (passedChecks agent req).filter (fun r => !r.passed) = [] := rfl
  have hreviewed : (mandateChecks d).filter (fun r => !r.passed) = [] ↔ ¬d.review = true := by
    unfold mandateChecks
    cases hd : d.mandate with
    | none =>
      refine ⟨fun _ h => ?_, fun _ => rfl⟩
      rw [hd] at hmandate
      exact absurd (hmandate h) Bool.false_ne_true
    | some m => cases hr : d.review <;> simp
  have hvelocity : (velocityChecks n).filter (fun r => !r.passed) = [] ↔ ¬VELOCITY_MAX_INTENTS ≤ n := by
    unfold velocityChecks
    by_cases h : n ≥ VELOCITY_MAX_INTENTS
    · simp [h]
    · simp [h]
  rw [List.filter_append, List.filter_append, List.filter_append, hpassed, List.nil_append,
    Bool.or_eq_true, Bool.not_eq_true', List.isEmpty_eq_false_iff, Ne, List.append_eq_nil_iff,
    List.append_eq_nil_iff, hreviewed, hvelocity]
  cases mfa with
  | true => simp
  | false =>
    have hstep : (stepUpChecks false).filter (fun r => !r.passed) = [] := rfl
    rw [hstep]
    tauto

theorem decide_intent_wp {w₁ : World} {pending : Session} {parent : ParentAuthority} {d : MandateDecision}
    (hakin : w.Akin i w₁) (hmandate : d.review = true → d.mandate.isSome = true)
    (hreview : d.review = true ↔ ∃ m ∈ agent.mandates w, ∃ cap,
      m.require_review_above = some cap ∧ req.amount_minor_units > cap) :
    (decide_intent H pending agent parent req w.clock d).Wp (World.exec i) (fun _ _ r =>
      ∀ v, r = some (.intent v) → Parks w agent req ∧ v.decision = "review" ∨
        ¬Parks w agent req ∧ v.decision = "allow") calls w₁ := by
  have hcount : (w₁.db.intents.filter fun x => x.agent_id == agent.agent_id &&
      decide (w.clock - VELOCITY_WINDOW ≤ x.created_at)).length = recent_count w agent := by
    rw [hakin.intents]
    rfl
  refine wp_query ?_
  rw [hcount]
  dsimp only
  split
  · next h =>
    have hparks : Parks w agent req := by
      rw [parked_iff hmandate, hreview] at h
      exact h
    refine Prog.wp_mono (fun _ _ r (h : ∀ v, r = some (.intent v) → v.decision = "review") v hv =>
      .inl ⟨hparks, h v hv⟩) (wp_answers ?_)
    intro x c w' v hv
    rw [← Reply.intent.inj (Option.some.inj hv)]
  · next h =>
    have hparks : ¬Parks w agent req := by
      rw [parked_iff hmandate, hreview] at h
      exact h
    exact Prog.wp_mono (fun _ _ r h v hv => .inr ⟨hparks, h v hv⟩) allow_wp

theorem mandate_layer_wp {pending : Session} {parent : ParentAuthority} {policy : Host.MandatePolicy}
    (hpending : pending.OnlyProofs) (hdelegation : delegationRefusal agent req w.clock = some none)
    (hpolicy : H.mandate_policy = .ok policy) :
    (mandate_layer H pending agent parent req w.clock policy).Wp (World.exec i) (fun _ _ r =>
      ∀ v, r = some (.intent v) → v.decision = (governance H i w agent req).value) calls w := by
  -- a refusal denies
  have hrefuse : ∀ (w₁ : World) (c : List (Call × Option Answer)) (s : Session) (reasons : List String), ¬MandatesPass H i w agent req policy →
      (deny H s agent req "user_mandate_check" reasons).Wp (World.exec i) (fun _ _ r =>
        ∀ v, r = some (.intent v) → v.decision = (governance H i w agent req).value) c w₁ := by
    intro w₁ c s reasons hnot
    refine Prog.wp_mono (fun _ _ r h v hv => ?_) deny_wp
    rw [h v hv, governance_deny]
    · rfl
    intro h
    obtain ⟨policy', hpolicy', hpass⟩ := h.2
    rw [Except.ok.inj (hpolicy.symm.trans hpolicy')] at hnot
    exact hnot hpass
  refine Prog.wp_bind (Prog.wp_mono ?_ (evaluate_mandate_wp hpending))
  intro w₁ c r h
  obtain ⟨-, hr⟩ := h
  match r with
  | none => exact fun _ h => absurd h nofun
  | some (d, s) =>
  obtain ⟨hakin, hstate, hok, hreview, hmandate⟩ := hr d s rfl
  have hlive : d.state = .active ↔ agent.mandates w ≠ [] := by
    rw [hstate]
    exact resolve_active
  dsimp only
  split
  · next hlapsed =>
    refine hrefuse _ _ _ _ fun h => ?_
    rcases h with ⟨hnone, -⟩ | ⟨hsome, -⟩
    · rw [hstate.symm.trans hlapsed] at hnone
      exact absurd hnone nofun
    · rw [hlive.mpr hsome] at hlapsed
      exact absurd hlapsed nofun
  next hlapsed =>
  split
  · next hrequired =>
    obtain ⟨hrequired, hnone⟩ := Bool.and_eq_true_iff.mp hrequired
    refine hrefuse _ _ _ _ fun h => ?_
    rcases h with ⟨-, hfree⟩ | ⟨hsome, -⟩
    · rw [hfree] at hrequired
      exact absurd hrequired Bool.false_ne_true
    · rw [hlive.mpr hsome] at hnone
      exact absurd hnone nofun
  next hrequired =>
  split
  · next hrefused =>
    obtain ⟨hactive, hrefused⟩ := Bool.and_eq_true_iff.mp hrefused
    refine hrefuse _ _ _ _ fun h => ?_
    rcases h with ⟨hnone, -⟩ | hpass
    · rw [hstate.symm.trans (of_decide_eq_true hactive)] at hnone
      exact absurd hnone nofun
    · rw [hok.mpr hpass] at hrefused
      exact absurd hrefused Bool.false_ne_true
  next hrefused =>
  -- the mandates let it through, and ask for a review or not
  have hpass : MandatesPass H i w agent req policy := by
    by_cases hactive : d.state = .active
    · refine .inr (hok.mp ?_)
      by_contra hnot
      refine hrefused ?_
      rw [decide_eq_true hactive, Bool.eq_false_iff.mpr hnot]
      rfl
    · refine .inl ?_
      have hnone : d.state = .none := by
        cases hd : d.state with
        | none => rfl
        | lapsed => exact absurd hd hlapsed
        | active => exact absurd hd hactive
      refine ⟨hstate.symm.trans hnone, ?_⟩
      by_contra hreq
      refine hrequired ?_
      rw [decide_eq_true hnone, Bool.and_true]
      exact Bool.eq_true_of_not_eq_false hreq
  have hpasses : Passes H i w agent req := ⟨hdelegation, policy, hpolicy, hpass⟩
  have hasked : d.review = true ↔ ∃ m ∈ agent.mandates w, ∃ cap,
      m.require_review_above = some cap ∧ req.amount_minor_units > cap := by
    rw [hreview]
    constructor
    · intro h
      obtain ⟨hdok, m, hm, e, he, hr⟩ := h
      obtain ⟨e', he', hok'⟩ := (hok.mp hdok).2.2 m hm
      rw [Option.some.inj (he.symm.trans he'), accepted_permitted he' hok'] at hr
      exact ⟨m, hm, permitted_review.mp hr⟩
    · intro h
      obtain ⟨m, hm, hcap⟩ := h
      have hall := hpass.resolve_left fun h => by
        rw [← hstate, hlive.mpr (List.ne_nil_of_mem hm)] at h
        exact absurd h.1 nofun
      obtain ⟨e, he, hok'⟩ := hall.2.2 m hm
      refine ⟨hok.mpr hall, m, hm, e, he, ?_⟩
      rw [accepted_permitted he hok']
      exact permitted_review.mpr hcap
  have hnamed : d.review = true → d.mandate.isSome = true := by
    intro h
    obtain ⟨m, hm, -⟩ := hasked.mp h
    rw [hmandate (hreview.mp h).1, List.isSome_head?]
    exact List.ne_nil_of_mem hm
  -- naming the mandate in the request changes nothing that is decided by
  have hparks : Parks w agent { req with mandate_id := d.mandate.map UserPaymentMandate.mandate_id } ↔
      Parks w agent req := Iff.rfl
  refine Prog.wp_mono ?_ (decide_intent_wp hakin hnamed hasked)
  intro _ _ r h v hv
  rcases h v hv with ⟨hp, hword⟩ | ⟨hp, hword⟩
  · rw [hword, governance_review hpasses (hparks.mp hp)]
    rfl
  · rw [hword, governance_allow hpasses fun h => hp (hparks.mpr h)]
    rfl

/-- A request that is answered with a decision is answered with the one it is due. -/
theorem submit_wp {ctx : RequestContext} :
    (submit_payment_intent H ctx req).Wp (World.exec i) (fun _ _ r => ∀ v, r = some (.intent v) →
      ∃ tok a, resolve_session_token H req.session_token ctx.authorization = .ok tok ∧
        Authenticates H w tok none a ∧ v.decision = (decisionFor H i w a.agent req).value) [] w := by
  refine wp_authenticated (fun _ h => absurd h nofun) (fun x _ h => absurd h nofun) fun tok a htok ha => ?_
  obtain ⟨parent, hparent, hactive⟩ := ha.parent
  have hdue : ∀ word, (word = (decisionFor H i w a.agent req).value) → ∃ tok' a',
      resolve_session_token H req.session_token ctx.authorization = .ok tok' ∧
      Authenticates H w tok' none a' ∧ word = (decisionFor H i w a'.agent req).value :=
    fun word h => ⟨tok, a, htok, ha, h⟩
  obtain ⟨agent, claims, pending⟩ := a
  dsimp only at hparent hdue
  show (if req.agent_id ≠ "" ∧ req.agent_id ≠ agent.agent_id then _ else _ : Handler Reply).Wp _ _ _ _
  split
  · exact fun _ h => absurd h nofun
  refine wp_now (wp_query ?_)
  have hstanding : w.db.intents.find? (fun x => x.agent_id == agent.agent_id &&
      x.idempotency_key == req.idempotency_key) = standing w agent req := rfl
  rw [hstanding]
  -- a recorded intent under the key answers for the request; without one governance decides
  cases hfound : standing w agent req with
  | some existing =>
    refine wp_query fun v hv => hdue _ ?_
    rw [← Reply.intent.inj (Option.some.inj hv)]
    unfold decisionFor
    rw [hfound]
  | none =>
    have hfresh : decisionFor H i w agent req = governance H i w agent req := by
      unfold decisionFor
      rw [hfound]
    rw [hfresh] at hdue
    refine wp_query ?_
    rw [hparent, Option.filter_some, if_pos (decide_eq_true hactive)]
    have htrust : trust_refusal parent = none := if_neg (not_not.mpr hactive)
    dsimp only
    rw [htrust]
    dsimp only
    split
    · exact fun _ h => absurd h nofun
    · next check reason hrefusal =>
      refine Prog.wp_mono (fun _ _ r h v hv => hdue _ ?_) deny_wp
      rw [h v hv, governance_deny]
      · rfl
      intro hpass
      have hnone : delegationRefusal agent req w.clock = some (some (check, reason)) := hrefusal
      rw [hpass.1] at hnone
      exact absurd hnone nofun
    · next hrefusal =>
      split
      · exact fun _ h => absurd h nofun
      · next policy hpolicy =>
        exact Prog.wp_mono (fun _ _ r h v hv => hdue _ (h v hv))
          (mandate_layer_wp ha.pending hrefusal hpolicy)

end

/-! ## The order of decisions -/

/-- A denial is the lowest decision, an approval the highest. -/
def GovernanceDecision.rank : GovernanceDecision → Nat
  | deny => 0
  | review => 1
  | allow => 2

theorem value_injective {d d' : GovernanceDecision} (h : d.value = d'.value) : d = d' := by
  cases d <;> cases d' <;> first | rfl | exact absurd h (by decide)

theorem rank_injective {d d' : GovernanceDecision} (h : d.rank = d'.rank) : d = d' := by
  cases d <;> cases d' <;> first | rfl | exact absurd h (by decide)

/-- For this agent, `w'` leaves at most the room that `w` does. -/
structure Tightens (agent : Agent) (w w' : World) : Prop where
  clock : w'.clock = w.clock
  gates : w'.gates = w.gates
  spent : ∀ m start now narrow, spend_since w.db m start now narrow ≤ spend_since w'.db m start now narrow
  recent : recent_count w agent ≤ recent_count w' agent
  mandates : ∀ m ∈ agent.mandates w, m ∈ agent.mandates w'
  absent : agent.mandates w = [] →
    resolve_state w'.db agent.agent_id agent.org_id w.clock =
      resolve_state w.db agent.agent_id agent.org_id w.clock

section
variable {H : Host} {i : Nat} {w w' : World} {agent : Agent} {req : PaymentIntentRequest} {a' : Int}
  {m : UserPaymentMandate} {signed : Bool} {now : Instant}

/-- The delegation checks that pass for an amount pass for a smaller one. -/
theorem delegation_anti (hpos : 0 < req.amount_minor_units ∨ a' = req.amount_minor_units)
    (hle : req.amount_minor_units ≤ a')
    (h : delegationRefusal agent { req with amount_minor_units := a' } now = some none) :
    delegationRefusal agent req now = some none := by
  rcases hpos with hpos | rfl
  swap
  · exact h
  unfold delegationRefusal at h ⊢
  dsimp only at h ⊢
  split at h
  · exact absurd h nofun
  next hvalid =>
  rw [if_neg hvalid, if_neg (not_le.mpr hpos)]
  rw [if_neg (by omega)] at h
  obtain ⟨delegated, hcap, h⟩ := Option.bind_eq_some_iff.mp h
  rw [hcap]
  dsimp only [Option.bind_eq_bind, Option.bind_some] at h ⊢
  split at h
  · exact absurd h nofun
  next hdelegated =>
  rw [if_neg hdelegated]
  split at h
  · exact absurd h nofun
  next hlimit =>
  rw [if_neg (by omega)]
  exact h

/-- So do the checks of a mandate, with no more spent. -/
theorem admits_anti {db db' : DB} {p : Proposal} (hle : p.amount_minor_units ≤ a')
    (hspent : ∀ m start now narrow, spend_since db m start now narrow ≤ spend_since db' m start now narrow)
    (h : Admits H db' m { p with amount_minor_units := a' } signed) : Admits H db m p signed := by
  obtain ⟨⟨hsig, hcurrency, hcap, hmerchant, hcategory⟩, hhour, hday, hshop, hkind⟩ := check_one_ok.mp h
  have hcap : a' ≤ m.max_per_transaction := hcap
  have hday : a' ≤ m.max_daily_amount - daily_spend db' m p.now := hday
  refine check_one_ok.mpr ⟨⟨hsig, hcurrency, by omega, hmerchant, hcategory⟩, fun cap hset => ?_, ?_,
    fun cap hset => ?_, fun cap hset => ⟨(hkind cap hset).1, ?_⟩⟩
  · have hroom : a' ≤ cap - hourly_spend db' m p.now := hhour cap hset
    have hmore : hourly_spend db m p.now ≤ hourly_spend db' m p.now := hspent _ _ _ _
    omega
  · have hmore : daily_spend db m p.now ≤ daily_spend db' m p.now := hspent _ _ _ _
    omega
  · have hroom : a' ≤ cap - merchant_daily_spend H db' m p.merchant p.now := hshop cap hset
    have hmore : merchant_daily_spend H db m p.merchant p.now ≤
        merchant_daily_spend H db' m p.merchant p.now := hspent _ _ _ _
    omega
  · have hroom : a' ≤ cap - category_daily_spend H db' m (p.merchant_category.getD "") p.now :=
      (hkind cap hset).2
    have hmore : category_daily_spend H db m (p.merchant_category.getD "") p.now ≤
        category_daily_spend H db' m (p.merchant_category.getD "") p.now := hspent _ _ _ _
    omega

theorem passes_anti (htight : Tightens agent w w')
    (hpos : 0 < req.amount_minor_units ∨ a' = req.amount_minor_units)
    (hle : req.amount_minor_units ≤ a')
    (h : Passes H i w' agent { req with amount_minor_units := a' }) : Passes H i w agent req := by
  obtain ⟨hdelegation, policy, hpolicy, hpass⟩ := h
  rw [htight.clock] at hdelegation
  refine ⟨delegation_anti hpos hle hdelegation, policy, hpolicy, ?_⟩
  -- without a mandate the state of the agent's history counts, with one each mandate does
  by_cases hnone : agent.mandates w = []
  · have hsame := htight.absent hnone
    rw [← htight.clock] at hsame
    rcases hpass with ⟨hstate, hfree⟩ | ⟨hsome, -⟩
    · refine .inl ⟨?_, hfree⟩
      rw [hsame, htight.clock] at hstate
      exact hstate
    · have hactive := resolve_active.mpr hsome
      rw [hsame, htight.clock] at hactive
      exact absurd hnone (resolve_active.mp hactive)
  · have hsome : agent.mandates w' ≠ [] := by
      obtain ⟨m, hm⟩ := List.exists_mem_of_ne_nil _ hnone
      exact List.ne_nil_of_mem (htight.mandates m hm)
    have hpass := hpass.resolve_left fun h => by
      have hactive := resolve_active.mpr hsome
      rw [h.1] at hactive
      exact absurd hactive nofun
    obtain ⟨-, hopen, hadmit⟩ := hpass
    refine .inr ⟨hnone, fun m hm h hh => ?_, fun m hm => ?_⟩
    · have hheld := hopen m (htight.mandates m hm) h
      rw [htight.gates] at hheld
      exact hheld hh
    · have hadmitted := hadmit m (htight.mandates m hm)
      rw [htight.clock] at hadmitted
      exact admits_anti hle htight.spent hadmitted

theorem parks_mono (htight : Tightens agent w w') (hle : req.amount_minor_units ≤ a')
    (h : Parks w agent req) : Parks w' agent { req with amount_minor_units := a' } := by
  rcases h with hstep | hcount | ⟨m, hm, cap, hcap, hover⟩
  · refine .inl (decide_eq_true ?_)
    have hstep := of_decide_eq_true hstep
    show 5 * a' > _
    omega
  · exact .inr (.inl (le_trans hcount htight.recent))
  · refine .inr (.inr ⟨m, htight.mandates m hm, cap, hcap, ?_⟩)
    show a' > cap
    omega

/-- With less room, or for a larger amount, the decision is no higher. -/
theorem governance_le (htight : Tightens agent w w')
    (hpos : 0 < req.amount_minor_units ∨ a' = req.amount_minor_units)
    (hle : req.amount_minor_units ≤ a') :
    (governance H i w' agent { req with amount_minor_units := a' }).rank ≤
      (governance H i w agent req).rank := by
  by_cases hpass : Passes H i w' agent { req with amount_minor_units := a' }
  · have hpass' := passes_anti htight hpos hle hpass
    by_cases hparks : Parks w agent req
    · rw [governance_review hpass (parks_mono htight hle hparks), governance_review hpass' hparks]
    · rw [governance_allow hpass' hparks]
      cases governance H i w' agent { req with amount_minor_units := a' } <;> decide
  · rw [governance_deny hpass]
    exact Nat.zero_le _

end

/-! ## More rows -/

/-- The world with other intents and mandates in it. -/
def World.withRows (w : World) (intents : List PaymentIntent) (mandates : List UserPaymentMandate) :
    World :=
  { w with db := { w.db with intents := intents, mandates := mandates } }

section
variable {w : World} {agent : Agent} {req : PaymentIntentRequest} {I X : List PaymentIntent}
  {M Y : List UserPaymentMandate} {agent_id org_id : String} {now : Instant}

/-- More intents leave no less spent. -/
theorem spent_rows {db db' : DB} (hI : db'.intents.Perm (db.intents ++ X))
    (hX : ∀ x ∈ X, x.decision ≠ .deny → 0 < x.amount_minor_units) (m : UserPaymentMandate)
    (start now : Instant) (narrow : PaymentIntent → Bool) :
    spend_since db m start now narrow ≤ spend_since db' m start now narrow := by
  have hsum : spend_since db' m start now narrow = spend_since db m start now narrow +
      ((X.filter fun x => charged m start now x && narrow x).map PaymentIntent.amount_minor_units).sum := by
    unfold spend_since
    rw [List.Perm.sum_eq ((hI.filter _).map _), List.filter_append, List.map_append, List.sum_append]
  have hmore : 0 ≤
      ((X.filter fun x => charged m start now x && narrow x).map PaymentIntent.amount_minor_units).sum := by
    refine List.sum_nonneg fun n hn => ?_
    obtain ⟨x, hx, rfl⟩ := List.mem_map.mp hn
    obtain ⟨hmem, hcharged⟩ := List.mem_filter.mp hx
    have hkept : x.decision ≠ .deny := by
      unfold charged at hcharged
      simp only [Bool.and_eq_true, decide_eq_true_eq] at hcharged
      exact hcharged.1.1.2
    exact le_of_lt (hX x hmem hkept)
  omega

theorem mem_active {db : DB} {m : UserPaymentMandate} :
    m ∈ active_mandates db agent_id org_id now ↔ m ∈ db.mandates ∧
      (m.agent_id == agent_id && m.org_id == org_id) = true ∧ m.live now = true := by
  unfold active_mandates scope_query
  rw [List.mem_insertionSort, List.mem_filter, List.mem_filter, and_assoc]

theorem resolve_perm {db db' : DB} (hM : db'.mandates.Perm db.mandates) :
    resolve_state db' agent_id org_id now = resolve_state db agent_id org_id now := by
  have hscope := hM.filter fun m => m.agent_id == agent_id && m.org_id == org_id
  have hhistory : mandate_history_exists db' agent_id org_id = mandate_history_exists db agent_id org_id :=
    congrArg (!·) hscope.isEmpty_eq
  have hactive : (active_mandates db' agent_id org_id now).isEmpty =
      (active_mandates db agent_id org_id now).isEmpty := by
    have hrows := hscope.filter fun m => m.live now
    unfold active_mandates
    exact (((List.perm_insertionSort _ _).trans hrows).trans (List.perm_insertionSort _ _).symm).isEmpty_eq
  unfold resolve_state
  rw [hactive, hhistory]

theorem tightens_rows (hI : I.Perm (w.db.intents ++ X))
    (hX : ∀ x ∈ X, x.decision ≠ .deny → 0 < x.amount_minor_units)
    (hM : M.Perm (w.db.mandates ++ Y)) (hY : Y = [] ∨ agent.mandates w ≠ []) :
    Tightens agent w (w.withRows I M) where
  clock := rfl
  gates := rfl
  spent := spent_rows hI hX
  recent := by
    have hlen : recent_count (w.withRows I M) agent = recent_count w agent +
        (X.filter fun x => x.agent_id == agent.agent_id &&
          decide (w.clock - VELOCITY_WINDOW ≤ x.created_at)).length := by
      refine (hI.filter _).length_eq.trans ?_
      rw [List.filter_append, List.length_append]
      rfl
    omega
  mandates := by
    intro m hm
    obtain ⟨hmem, hscope, hlive⟩ := mem_active.mp hm
    exact mem_active.mpr ⟨hM.mem_iff.mpr (List.mem_append_left _ hmem), hscope, hlive⟩
  absent := by
    intro hnone
    rcases hY with hY | hsome
    · rw [hY, List.append_nil] at hM
      exact resolve_perm hM
    · exact absurd hnone hsome

/-- What stands under the request's key, when no new intent but a denied one has it. -/
theorem standing_rows (hkeys : (w.db.intents.map PaymentIntent.slot).Nodup)
    (hI : I.Perm (w.db.intents ++ X))
    (hX : ∀ x ∈ X, x.decision ≠ .deny → x.slot ≠ (agent.agent_id, req.idempotency_key)) :
    standing (w.withRows I M) agent req = standing w agent req ∨
      ∃ x, standing (w.withRows I M) agent req = some x ∧ x.decision = .deny := by
  cases hfound : standing (w.withRows I M) agent req with
  | none =>
    refine .inl (List.find?_eq_none.mpr fun x hx => ?_).symm
    exact List.find?_eq_none.mp hfound x (hI.mem_iff.mpr (List.mem_append_left _ hx))
  | some x =>
    have hslot := List.find?_some hfound
    have hslot' : x.slot = (agent.agent_id, req.idempotency_key) := by
      simp only [Bool.and_eq_true, beq_iff_eq] at hslot
      exact Prod.ext hslot.1 hslot.2
    rcases List.mem_append.mp (hI.mem_iff.mp (List.mem_of_find?_eq_some hfound)) with hmem | hmem
    · refine .inl ?_
      have hsome : (standing w agent req).isSome = true := List.find?_isSome.mpr ⟨x, hmem, hslot⟩
      obtain ⟨y, hy⟩ := Option.isSome_iff_exists.mp hsome
      have hyslot := List.find?_some hy
      simp only [Bool.and_eq_true, beq_iff_eq] at hyslot
      rw [hy, List.inj_on_of_nodup_map hkeys (List.mem_of_find?_eq_some hy) hmem
        (Prod.ext (hyslot.1.trans (congrArg Prod.fst hslot').symm)
          (hyslot.2.trans (congrArg Prod.snd hslot').symm))]
    · refine .inr ⟨x, rfl, ?_⟩
      by_contra hkept
      exact hX x hmem hkept hslot'

end

/-! ## Two evaluations, two requests -/

/-- `evaluate_mandate`, run alone, permits the payment. -/
def EvaluatesOk (H : Host) (i : Nat) (answers : List Answer) (w : World) (pending : Session)
    (agent_id org_id : String) (p : Proposal) (require_signed : Bool) : Prop :=
  ∃ d s, ((evaluate_mandate H pending agent_id org_id p require_signed).eval (World.exec i) answers
    w).value = some (d, s) ∧ d.ok = true

/-- `evaluate_mandate`, run alone, asks for a review. -/
def EvaluatesReview (H : Host) (i : Nat) (answers : List Answer) (w : World) (pending : Session)
    (agent_id org_id : String) (p : Proposal) (require_signed : Bool) : Prop :=
  ∃ d s, ((evaluate_mandate H pending agent_id org_id p require_signed).eval (World.exec i) answers
    w).value = some (d, s) ∧ d.review = true

/-- `submit_payment_intent`, run alone, answers with this decision. -/
def Decides (H : Host) (i : Nat) (answers : List Answer) (w : World) (ctx : RequestContext)
    (req : PaymentIntentRequest) (d : GovernanceDecision) : Prop :=
  ∃ v, ((submit_payment_intent H ctx req).eval (World.exec i) answers w).value = some (.intent v) ∧
    v.decision = d.value

/-- The agent the request is authenticated as. -/
def Sender (H : Host) (w : World) (ctx : RequestContext) (req : PaymentIntentRequest) (agent : Agent) :
    Prop :=
  ∃ tok a, resolve_session_token H req.session_token ctx.authorization = .ok tok ∧
    Authenticates H w tok none a ∧ a.agent = agent

section
variable {H : Host} {i : Nat} {answers : List Answer} {w w' : World} {ctx ctx' : RequestContext}
  {req : PaymentIntentRequest} {pending : Session} {agent_id org_id : String} {p : Proposal}
  {signed : Bool} {I X : List PaymentIntent} {M Y : List UserPaymentMandate}

theorem evaluate_permits (hpending : pending.OnlyProofs) (hsaved : ∃ db, w.db.applyAll pending = .ok db) :
    EvaluatesOk H i answers w pending agent_id org_id p signed ↔
      active_mandates w.db agent_id org_id p.now ≠ [] ∧
      (∀ m ∈ active_mandates w.db agent_id org_id p.now, w.Open i (mandateGate H m.mandate_id)) ∧
      ∀ m ∈ active_mandates w.db agent_id org_id p.now, Admits H w.db m p signed := by
  obtain ⟨hdied, hspec⟩ := Prog.eval_spec answers (@evaluate_mandate_wp H w [] i agent_id org_id p signed
    pending hpending)
  constructor
  · intro h
    obtain ⟨d, s, hv, hok⟩ := h
    exact (hspec d s hv).2.ok.mp hok
  · intro h
    cases hv : ((evaluate_mandate H pending agent_id org_id p signed).eval (World.exec i) answers w).value with
    | none =>
      rcases hdied hv with ⟨x, hx⟩ | ⟨m, hm, hnone⟩
      · obtain ⟨db, hdb⟩ := hsaved
        rw [hx] at hdb
        exact absurd hdb nofun
      · obtain ⟨d, hd, -⟩ := h.2.2 m hm
        rw [hnone] at hd
        exact absurd hd nofun
    | some r =>
      obtain ⟨d, s⟩ := r
      exact ⟨d, s, hv, (hspec d s hv).2.ok.mpr h⟩

theorem evaluate_reviews (hpending : pending.OnlyProofs) :
    EvaluatesReview H i answers w pending agent_id org_id p signed ↔
      EvaluatesOk H i answers w pending agent_id org_id p signed ∧
      ∃ m ∈ active_mandates w.db agent_id org_id p.now, Questions H w.db m p signed := by
  obtain ⟨-, hspec⟩ := Prog.eval_spec answers (@evaluate_mandate_wp H w [] i agent_id org_id p signed
    pending hpending)
  constructor
  · intro h
    obtain ⟨d, s, hv, hreview⟩ := h
    obtain ⟨hok, hasked⟩ := (hspec d s hv).2.review.mp hreview
    exact ⟨⟨d, s, hv, hok⟩, hasked⟩
  · intro h
    obtain ⟨⟨d, s, hv, hok⟩, hasked⟩ := h
    exact ⟨d, s, hv, (hspec d s hv).2.review.mpr ⟨hok, hasked⟩⟩

/-- Of a payment that a mandate admits, it asks for a review above its own threshold. -/
theorem questions_iff {db : DB} {m : UserPaymentMandate} (h : Admits H db m p signed) :
    Questions H db m p signed ↔ ∃ cap, m.require_review_above = some cap ∧ p.amount_minor_units > cap := by
  obtain ⟨d, hd, hok⟩ := h
  have hd' := accepted_permitted hd hok
  rw [← permitted_review (p := p), ← hd']
  constructor
  · intro hq
    obtain ⟨e, he, hreview⟩ := hq
    rw [← Option.some.inj (he.symm.trans hd)]
    exact hreview
  · exact fun hreview => ⟨d, hd, hreview⟩

theorem decides_due {d : GovernanceDecision} (h : Decides H i answers w ctx req d) :
    ∃ agent, Sender H w ctx req agent ∧ d = decisionFor H i w agent req := by
  obtain ⟨v, hv, hd⟩ := h
  obtain ⟨tok, a, htok, ha, hword⟩ := Prog.eval_spec answers (@submit_wp H w i req ctx) v hv
  exact ⟨a.agent, ⟨tok, a, htok, ha, rfl⟩, value_injective (hd.symm.trans hword)⟩

/-- One token names one agent. -/
theorem sender_unique {req' : PaymentIntentRequest} {agent agent' : Agent} (h : Sender H w ctx req agent)
    (h' : Sender H w' ctx' req' agent') (hheader : ctx'.authorization = ctx.authorization)
    (htoken : req'.session_token = req.session_token) (hagents : w'.db.agents = w.db.agents)
    (hclock : w'.clock = w.clock) : agent' = agent := by
  obtain ⟨tok, a, htok, ha, hagent⟩ := h
  obtain ⟨tok', a', htok', ha', hagent'⟩ := h'
  rw [hheader, htoken] at htok'
  have htokens := Except.ok.inj (htok'.symm.trans htok)
  have hclaims := ha'.claims
  rw [hclock, htokens] at hclaims
  have hfound := ha'.agent
  rw [hagents, Option.some.inj (hclaims.symm.trans ha.claims)] at hfound
  rw [← hagent, ← hagent']
  exact Option.some.inj (hfound.symm.trans ha.agent)

/-- With less room, for a larger amount, and with at most a denial newly in its place, a
request is decided no higher. -/
theorem decides_le {agent : Agent} {d d' : GovernanceDecision} {a' : Int}
    (hsender : Sender H w ctx req agent) (hagents : w'.db.agents = w.db.agents)
    (htight : Tightens agent w w') (hheader : ctx'.authorization = ctx.authorization)
    (hstanding : standing w' agent req = standing w agent req ∨
      ∃ x, standing w' agent req = some x ∧ x.decision = .deny)
    (hpos : 0 < req.amount_minor_units ∨ a' = req.amount_minor_units) (hle : req.amount_minor_units ≤ a')
    (hd : Decides H i answers w ctx req d)
    (hd' : Decides H i answers w' ctx' { req with amount_minor_units := a' } d') : d'.rank ≤ d.rank := by
  obtain ⟨agent₁, hagent₁, rfl⟩ := decides_due hd
  obtain ⟨agent₂, hagent₂, rfl⟩ := decides_due hd'
  obtain rfl := sender_unique hsender hagent₁ rfl rfl rfl rfl
  obtain rfl := sender_unique hsender hagent₂ hheader rfl hagents htight.clock
  have hsame : standing w' agent₂ { req with amount_minor_units := a' } = standing w' agent₂ req := rfl
  unfold decisionFor
  rw [hsame]
  rcases hstanding with hstanding | ⟨x, hx, hdeny⟩
  · rw [hstanding]
    cases standing w agent₂ req with
    | some x => exact le_rfl
    | none => exact governance_le htight hpos hle
  · rw [hx]
    dsimp only
    rw [hdeny]
    exact Nat.zero_le _

theorem saved_rows (hpending : pending.OnlyProofs) : ∀ {db db' : DB}, db'.proofs = db.proofs →
    (∃ d, db.applyAll pending = .ok d) → ∃ d, db'.applyAll pending = .ok d := by
  induction pending with
  | nil => exact fun {_ db'} _ _ => ⟨db', rfl⟩
  | cons x pending ih =>
    intro db db' hproofs hsaved
    obtain ⟨d, hd⟩ := hsaved
    obtain ⟨mid, hmid, hrest⟩ := applyAll_cons hd
    obtain ⟨q, rfl⟩ := hpending x List.mem_cons_self
    obtain ⟨ps, hps, hrows⟩ := Option.bind_eq_some_iff.mp hmid
    have hmid' : db'.apply (.insertProof q) = some { db' with proofs := ps } := by
      show (insertUnique (fun b => b.jti == q.jti) q db'.proofs).bind _ = _
      rw [hproofs, hps]
      rfl
    have hsame : ({ db' with proofs := ps } : DB).proofs = mid.proofs := by rw [← Option.some.inj hrows]
    obtain ⟨d', hd'⟩ := ih (fun y hy => hpending y (List.mem_cons_of_mem _ hy)) hsame ⟨d, hrest⟩
    refine ⟨d', ?_⟩
    unfold DB.applyAll
    rw [hmid']
    exact hd'

/-- The verdict of an evaluation is the same on the same rows in another order. -/
theorem evaluate_perm (hpending : pending.OnlyProofs) (hsaved : ∃ db, w.db.applyAll pending = .ok db)
    (hI : I.Perm w.db.intents) (hM : M.Perm w.db.mandates) :
    (EvaluatesOk H i answers (w.withRows I M) pending agent_id org_id p signed ↔
      EvaluatesOk H i answers w pending agent_id org_id p signed) ∧
    (EvaluatesReview H i answers (w.withRows I M) pending agent_id org_id p signed ↔
      EvaluatesReview H i answers w pending agent_id org_id p signed) := by
  have hproofs : (w.withRows I M).db.proofs = w.db.proofs := rfl
  have hsaved' := saved_rows hpending hproofs hsaved
  have hmem : ∀ m, m ∈ active_mandates (w.withRows I M).db agent_id org_id p.now ↔
      m ∈ active_mandates w.db agent_id org_id p.now := by
    intro m
    rw [mem_active, mem_active]
    exact and_congr_left fun _ => hM.mem_iff
  have hnone : active_mandates (w.withRows I M).db agent_id org_id p.now ≠ [] ↔
      active_mandates w.db agent_id org_id p.now ≠ [] := by
    rw [← resolve_active, ← resolve_active, resolve_perm hM]
  -- a permutation adds nothing, in either direction: what is spent is the same
  have hless : ∀ x ∈ ([] : List PaymentIntent), x.decision ≠ .deny → 0 < x.amount_minor_units :=
    fun _ h => absurd h List.not_mem_nil
  have hmore : (w.withRows I M).db.intents.Perm (w.db.intents ++ []) := by
    rw [List.append_nil]
    exact hI
  have hback : w.db.intents.Perm ((w.withRows I M).db.intents ++ []) := by
    rw [List.append_nil]
    exact hI.symm
  have hadmits : ∀ m, Admits H (w.withRows I M).db m p signed ↔ Admits H w.db m p signed := fun m =>
    ⟨admits_anti le_rfl (spent_rows hmore hless), admits_anti le_rfl (spent_rows hback hless)⟩
  have hpermits : EvaluatesOk H i answers (w.withRows I M) pending agent_id org_id p signed ↔
      EvaluatesOk H i answers w pending agent_id org_id p signed := by
    rw [evaluate_permits hpending hsaved', evaluate_permits hpending hsaved, hnone]
    refine and_congr_right fun _ => and_congr ?_ ?_
    · exact forall_congr' fun m => imp_congr (hmem m) Iff.rfl
    · exact forall_congr' fun m => imp_congr (hmem m) (hadmits m)
  refine ⟨hpermits, ?_⟩
  rw [evaluate_reviews hpending, evaluate_reviews hpending, hpermits]
  refine and_congr_right fun h => exists_congr fun m => ?_
  rw [hmem]
  refine and_congr_right fun hm => ?_
  have hadmitted := ((evaluate_permits hpending hsaved).mp h).2.2 m hm
  rw [questions_iff hadmitted, questions_iff ((hadmits m).mpr hadmitted)]

/-- **Governance is monotone.** The decision does not rise (a) with the amount, (b) with
recorded intents, as long as none but a denial takes the place of the request's own, (c) with
active mandates next to those there are; an evaluation permits what every active mandate
permits and asks for the reviews that any of them asks for; and the order of the rows does
not matter. -/
theorem governance_monotone :
    -- (a) amounts
    (∀ ctx' a' d d', ctx'.authorization = ctx.authorization → 0 < req.amount_minor_units →
      req.amount_minor_units ≤ a' → Decides H i answers w ctx req d →
      Decides H i answers w ctx' { req with amount_minor_units := a' } d' → d'.rank ≤ d.rank) ∧
    -- (b) recorded intents
    (∀ I X agent d d', Sender H w ctx req agent → (w.db.intents.map PaymentIntent.slot).Nodup →
      I.Perm (w.db.intents ++ X) →
      (∀ x ∈ X, x.decision ≠ .deny →
        0 < x.amount_minor_units ∧ x.slot ≠ (agent.agent_id, req.idempotency_key)) →
      Decides H i answers w ctx req d → Decides H i answers (w.withRows I w.db.mandates) ctx req d' →
      d'.rank ≤ d.rank) ∧
    -- (c) active mandates
    (∀ M Y agent d d', Sender H w ctx req agent → agent.mandates w ≠ [] →
      M.Perm (w.db.mandates ++ Y) → Decides H i answers w ctx req d →
      Decides H i answers (w.withRows w.db.intents M) ctx req d' → d'.rank ≤ d.rank) ∧
    (∀ (pending : Session) agent_id org_id p signed, pending.OnlyProofs → (∃ db, w.db.applyAll pending = .ok db) →
      active_mandates w.db agent_id org_id p.now ≠ [] →
      (∀ m ∈ active_mandates w.db agent_id org_id p.now, w.Open i (mandateGate H m.mandate_id)) →
      (EvaluatesOk H i answers w pending agent_id org_id p signed ↔
        ∀ m ∈ active_mandates w.db agent_id org_id p.now, Admits H w.db m p signed) ∧
      (EvaluatesReview H i answers w pending agent_id org_id p signed ↔
        EvaluatesOk H i answers w pending agent_id org_id p signed ∧
          ∃ m ∈ active_mandates w.db agent_id org_id p.now, Questions H w.db m p signed)) ∧
    -- the order of the rows
    ∀ I M, I.Perm w.db.intents → M.Perm w.db.mandates →
      (∀ d d', (w.db.intents.map PaymentIntent.slot).Nodup → Decides H i answers w ctx req d →
        Decides H i answers (w.withRows I M) ctx req d' → d' = d) ∧
      ∀ (pending : Session) agent_id org_id p signed, pending.OnlyProofs → (∃ db, w.db.applyAll pending = .ok db) →
        (EvaluatesOk H i answers (w.withRows I M) pending agent_id org_id p signed ↔
          EvaluatesOk H i answers w pending agent_id org_id p signed) ∧
        (EvaluatesReview H i answers (w.withRows I M) pending agent_id org_id p signed ↔
          EvaluatesReview H i answers w pending agent_id org_id p signed) := by
  have hnoIntent : w.db.intents.Perm (w.db.intents ++ []) := by rw [List.append_nil]
  have hnoMandate : w.db.mandates.Perm (w.db.mandates ++ []) := by rw [List.append_nil]
  have hless : ∀ x ∈ ([] : List PaymentIntent), x.decision ≠ .deny → 0 < x.amount_minor_units :=
    fun _ h => absurd h List.not_mem_nil
  refine ⟨?_, ?_, ?_, ?_, ?_⟩
  · intro ctx' a' d d' hheader hpos hle hd hd'
    obtain ⟨agent, hsender, -⟩ := decides_due hd
    have htight : Tightens agent w w := tightens_rows hnoIntent hless hnoMandate (.inl rfl)
    exact decides_le hsender rfl htight hheader (.inl rfl) (.inl hpos) hle hd hd'
  · intro I X agent d d' hsender hkeys hI hX hd hd'
    have htight : Tightens agent w (w.withRows I w.db.mandates) :=
      tightens_rows hI (fun x hx hkept => (hX x hx hkept).1) hnoMandate (.inl rfl)
    have hagents : (w.withRows I w.db.mandates).db.agents = w.db.agents := rfl
    exact decides_le hsender hagents htight rfl
      (standing_rows hkeys hI fun x hx hkept => (hX x hx hkept).2) (.inr rfl) le_rfl hd hd'
  · intro M Y agent d d' hsender hsome hM hd hd'
    have htight : Tightens agent w (w.withRows w.db.intents M) :=
      tightens_rows hnoIntent hless hM (.inr hsome)
    have hagents : (w.withRows w.db.intents M).db.agents = w.db.agents := rfl
    exact decides_le hsender hagents htight rfl (.inl rfl) (.inr rfl) le_rfl hd hd'
  · intro pending agent_id org_id p signed hpending hsaved hsome hopen
    refine ⟨(evaluate_permits hpending hsaved).trans ⟨fun h => h.2.2, fun h => ⟨hsome, hopen, h⟩⟩, ?_⟩
    exact evaluate_reviews hpending
  · intro I M hI hM
    refine ⟨fun d d' hkeys hd hd' => ?_, fun pending agent_id org_id p signed hpending hsaved =>
      evaluate_perm hpending hsaved hI hM⟩
    obtain ⟨agent, hsender, -⟩ := decides_due hd
    obtain ⟨agent', hsender', -⟩ := decides_due hd'
    obtain rfl := sender_unique hsender hsender' rfl rfl rfl rfl
    -- neither order leaves more room than the other
    have hI' : I.Perm (w.db.intents ++ []) := by
      rw [List.append_nil]
      exact hI
    have hM' : M.Perm (w.db.mandates ++ []) := by
      rw [List.append_nil]
      exact hM
    have hback : w.db.intents.Perm ((w.withRows I M).db.intents ++ []) := by
      rw [List.append_nil]
      exact hI.symm
    have hback' : w.db.mandates.Perm ((w.withRows I M).db.mandates ++ []) := by
      rw [List.append_nil]
      exact hM.symm
    have hfalse : ∀ x ∈ ([] : List PaymentIntent), x.decision ≠ .deny →
        x.slot ≠ (agent'.agent_id, req.idempotency_key) := fun _ h => absurd h List.not_mem_nil
    have hstanding := standing_rows (M := M) hkeys hI' hfalse
    have hkeys' : ((w.withRows I M).db.intents.map PaymentIntent.slot).Nodup :=
      (hI.map _).nodup_iff.mpr hkeys
    have hstanding' := standing_rows (M := w.db.mandates) hkeys' hback hfalse
    have htight : Tightens agent' w (w.withRows I M) := tightens_rows hI' hless hM' (.inl rfl)
    have htight' : Tightens agent' (w.withRows I M)
        ((w.withRows I M).withRows w.db.intents w.db.mandates) :=
      tightens_rows hback hless hback' (.inl rfl)
    have hagents : (w.withRows I M).db.agents = w.db.agents := rfl
    have hdown : d'.rank ≤ d.rank :=
      decides_le hsender hagents htight rfl hstanding (.inr rfl) le_rfl hd hd'
    have hup : d.rank ≤ d'.rank :=
      decides_le hsender' hagents.symm htight' rfl hstanding' (.inr rfl) le_rfl hd' hd
    exact rank_injective (le_antisymm hdown hup)

end

namespace Sample

/-- The agent, under these mandates. -/
def under (mandates : List UserPaymentMandate) : World :=
  world { db [] [] with mandates := mandates }

/-- A mandate below the amount of the proposal. -/
def tight : UserPaymentMandate := { mandate with mandate_id := "tight", max_per_transaction := 50 }

/-- The session that the agent's token opens. -/
theorem under_authenticates (mandates : List UserPaymentMandate) :
    Authenticates (host false []) (under mandates) "agent" none
      ⟨agent ["make_payment"] 1000, ⟨some "paari_session", some "agent", some "agent", none, ""⟩, []⟩ where
  claims := rfl
  expected := nofun
  agent := rfl
  active := rfl
  credential := ⟨credential, List.mem_cons_self, rfl, rfl, (by decide : (0 : Int) ≤ 1000000000000000)⟩
  parent := ⟨parent, rfl, rfl⟩
  valid := nofun
  pending := fun _ h => absurd h List.not_mem_nil

/-- An intent that was allowed, under the key of the proposal. -/
def answered : PaymentIntent :=
  intentRow (agent ["make_payment"] 1000) proposal { decision := .allow, reasons := [] } "intent" 0

end Sample

/-- Close to the limit, the payment is parked; under a second, tighter mandate it is denied. -/
theorem governance_monotone_step_up :
    Decides (Sample.host false []) 0 [] (Sample.capable "make_payment") Sample.ctx Sample.proposal .allow ∧
    Decides (Sample.host false []) 0 [] (Sample.capable "make_payment") Sample.ctx
      { Sample.proposal with amount_minor_units := 900 } .review ∧
    GovernanceDecision.review.rank ≤ GovernanceDecision.allow.rank ∧
    Decides (Sample.host false []) 0 [] (Sample.under [Sample.mandate]) Sample.ctx Sample.proposal .allow ∧
    Decides (Sample.host false []) 0 [] ((Sample.under [Sample.mandate]).withRows []
      [Sample.mandate, Sample.tight]) Sample.ctx Sample.proposal .deny ∧
    GovernanceDecision.deny.rank ≤ GovernanceDecision.allow.rank :=
  have hallow : Decides (Sample.host false []) 0 [] (Sample.capable "make_payment") Sample.ctx
      Sample.proposal .allow := ⟨_, rfl, rfl⟩
  have hreview : Decides (Sample.host false []) 0 [] (Sample.capable "make_payment") Sample.ctx
      { Sample.proposal with amount_minor_units := 900 } .review := ⟨_, rfl, rfl⟩
  have hone : Decides (Sample.host false []) 0 [] (Sample.under [Sample.mandate]) Sample.ctx
      Sample.proposal .allow := ⟨_, rfl, rfl⟩
  have htwo : Decides (Sample.host false []) 0 [] ((Sample.under [Sample.mandate]).withRows []
      [Sample.mandate, Sample.tight]) Sample.ctx Sample.proposal .deny := ⟨_, rfl, rfl⟩
  ⟨hallow, hreview, (@governance_monotone (Sample.host false []) 0 [] (Sample.capable "make_payment")
    Sample.ctx Sample.proposal).1 Sample.ctx 900 .allow .review rfl (by decide) (by decide) hallow hreview,
    hone, htwo, (@governance_monotone (Sample.host false []) 0 [] (Sample.under [Sample.mandate])
      Sample.ctx Sample.proposal).2.2.1 [Sample.mandate, Sample.tight] [Sample.tight]
      (Sample.agent ["make_payment"] 1000) .allow .deny
      ⟨"agent", _, rfl, Sample.under_authenticates _, rfl⟩ (fun h => absurd h nofun) (.refl _) hone htwo⟩

/-- A request above the limit is denied, unless an intent is on record under its key: then
it is answered with that one's decision. -/
theorem replay_raises_decision :
    Decides (Sample.host false []) 0 [] (Sample.capable "make_payment") Sample.ctx
      { Sample.proposal with amount_minor_units := 2000 } .deny ∧
    Decides (Sample.host false []) 0 []
      ((Sample.capable "make_payment").withRows [Sample.answered] []) Sample.ctx
      { Sample.proposal with amount_minor_units := 2000 } .allow ∧
    [Sample.answered].Perm ((Sample.capable "make_payment").db.intents ++ [Sample.answered]) ∧
    0 < Sample.answered.amount_minor_units ∧
    ¬GovernanceDecision.allow.rank ≤ GovernanceDecision.deny.rank :=
  ⟨⟨_, rfl, rfl⟩, ⟨_, rfl, rfl⟩, .refl _, by decide, by decide⟩

end Paari
