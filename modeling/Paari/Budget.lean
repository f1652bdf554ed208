import Mathlib.Data.List.Dedup
import Paari.Verdicts

/-!
# A mandate's budget under racing submissions

Every active mandate is checked behind a gate that one request holds at a time, from the
aggregation to the commit of the intent. What is aggregated ends at the instant the request
captured when it came in, and requests need not reach the gate in the order of these
instants: a row that is later than the instant is not counted. `InOrder` says of a run that
no intent is stored behind a later one; `Budgeted` is what the store then keeps.
-/

namespace Paari

open Atomic
open Host (HOUR DAY)

/-! ## Windows -/

/-- What was spent in the window of length `delta` that ends at `t`. -/
def windowSum (delta : Int) (t : Instant) (spent : List PaymentIntent) : Int :=
  ((spent.filter fun i => decide (t - delta ≤ i.created_at) && decide (i.created_at ≤ t)).map
    PaymentIntent.amount_minor_units).sum

/-- Payments in the order of their instants, each within the cap when it was made. -/
inductive Paced (delta cap : Int) : List PaymentIntent → Prop
  | nil : Paced delta cap []
  | snoc {spent : List PaymentIntent} {i : PaymentIntent} (h : Paced delta cap spent)
      (order : ∀ k ∈ spent, k.created_at ≤ i.created_at)
      (within : windowSum delta i.created_at spent + i.amount_minor_units ≤ cap) :
      Paced delta cap (spent ++ [i])

/-- A window that ends later and holds nothing newer holds no more. -/
theorem windowSum_le (delta : Int) {t t' : Instant} (ht : t ≤ t') :
    ∀ {spent : List PaymentIntent}, (∀ k ∈ spent, 0 < k.amount_minor_units) →
      (∀ k ∈ spent, k.created_at ≤ t) → windowSum delta t' spent ≤ windowSum delta t spent := by
  intro spent
  induction spent with
  | nil => exact fun _ _ => le_refl _
  | cons k spent ih =>
    intro hpos hlast
    have hrest := ih (fun k hk => hpos k (List.mem_cons_of_mem _ hk))
      fun k hk => hlast k (List.mem_cons_of_mem _ hk)
    have hk := hpos k List.mem_cons_self
    have hkt := hlast k List.mem_cons_self
    unfold windowSum at hrest ⊢
    rw [List.filter_cons, List.filter_cons]
    by_cases hin' : t' - delta ≤ k.created_at
    · have hin : t - delta ≤ k.created_at := le_trans (Int.sub_le_sub_right ht delta) hin'
      simp only [hin, hin', hkt, le_trans hkt ht, decide_true, Bool.and_self, if_true, List.map_cons,
        List.sum_cons]
      exact Int.add_le_add_left hrest _
    · simp only [hin', decide_false, Bool.false_and, Bool.false_eq_true, if_false]
      split
      · rw [List.map_cons, List.sum_cons]
        exact le_trans hrest (Int.le_add_of_nonneg_left hk.le)
      · exact hrest

theorem windowSum_snoc (delta : Int) (t : Instant) (spent : List PaymentIntent) (i : PaymentIntent) :
    windowSum delta t (spent ++ [i]) = windowSum delta t spent +
      if t - delta ≤ i.created_at ∧ i.created_at ≤ t then i.amount_minor_units else 0 := by
  unfold windowSum
  rw [List.filter_append, List.map_append, List.sum_append]
  congr 1
  have hin : (decide (t - delta ≤ i.created_at) && decide (i.created_at ≤ t)) = true ↔
      t - delta ≤ i.created_at ∧ i.created_at ≤ t := by
    rw [Bool.and_eq_true, decide_eq_true_eq, decide_eq_true_eq]
  by_cases h : t - delta ≤ i.created_at ∧ i.created_at ≤ t
  · rw [if_pos h, List.filter_cons, if_pos (hin.mpr h), List.filter_nil, List.map_singleton,
      List.sum_singleton]
  · rw [if_neg h, List.filter_cons, if_neg fun hp => h (hin.mp hp), List.filter_nil]
    rfl

/-- **Payments that are paced stay within the cap in every window.** -/
theorem Paced.bound {delta cap : Int} (hcap : 0 ≤ cap) {spent : List PaymentIntent}
    (h : Paced delta cap spent) (hpos : ∀ k ∈ spent, 0 < k.amount_minor_units) (t : Instant) :
    windowSum delta t spent ≤ cap := by
  induction h with
  | nil => exact hcap
  | @snoc spent i _ order within ih =>
    have hpos' : ∀ k ∈ spent, 0 < k.amount_minor_units := fun k hk =>
      hpos k (List.mem_append_left _ hk)
    rw [windowSum_snoc]
    split
    · next hin =>
      have hle := windowSum_le delta hin.2 hpos' order
      exact le_trans (Int.add_le_add_right hle _) within
    · rw [Int.add_zero]
      exact ih hpos'

/-! ## The store -/

/-- The payment counts against the mandate. -/
def UserPaymentMandate.counts (M : UserPaymentMandate) (i : PaymentIntent) : Bool :=
  i.agent_id == M.agent_id && decide (i.decision ≠ .deny)

/-- The payments of the mandate's agent that were not denied, in the order of their commits. -/
def spentOf (M : UserPaymentMandate) (db : DB) : List PaymentIntent := db.intents.filter M.counts

/-- A payment under the mandate: in its organization and currency, of a positive amount, and
not before it. -/
structure UserPaymentMandate.Bears (M : UserPaymentMandate) (i : PaymentIntent) : Prop where
  org : i.org_id = M.org_id
  currency : i.currency = M.currency
  amount : 0 < i.amount_minor_units
  since : M.valid_from ≤ i.created_at

/-- What the agent has spent keeps to the mandate. -/
structure Budgeted (M : UserPaymentMandate) (db : DB) : Prop where
  bears : ∀ i ∈ spentOf M db, M.Bears i
  daily : Paced DAY M.max_daily_amount (spentOf M db)
  hourly : ∀ cap, M.max_per_hour = some cap → Paced HOUR cap (spentOf M db)

/-- What `_spend_since` sums is the window of what was spent. -/
theorem spend_since_eq {M : UserPaymentMandate} {db : DB} (h : ∀ i ∈ spentOf M db, M.Bears i)
    (delta : Int) (now : Instant) :
    spend_since db M (window_start now delta M) now = windowSum delta now (spentOf M db) := by
  unfold spend_since windowSum spentOf
  rw [List.filter_filter]
  congr 2
  refine List.filter_congr fun i hi => ?_
  rw [Bool.and_true]
  by_cases hcounts : M.counts i = true
  · have hbears := h i (List.mem_filter.mpr ⟨hi, hcounts⟩)
    have hparts : i.agent_id = M.agent_id ∧ i.decision ≠ .deny := by
      simpa [UserPaymentMandate.counts] using hcounts
    have hstart : window_start now delta M ≤ i.created_at ↔ now - delta ≤ i.created_at := by
      unfold window_start
      split
      · next hlt => exact ⟨fun h => le_trans hlt.le h, fun _ => hbears.since⟩
      · exact Iff.rfl
    simp [charged, hcounts, hbears.org, hbears.currency, hparts.1, hparts.2, hstart]
  · have hparts : ¬ (i.agent_id = M.agent_id ∧ i.decision ≠ .deny) := by
      simpa [UserPaymentMandate.counts] using hcounts
    have hcharged : charged M (window_start now delta M) now i = false := by
      by_contra hne
      refine hparts ?_
      simp only [charged, Bool.and_eq_true, beq_iff_eq, decide_eq_true_eq, Bool.not_eq_false] at hne
      exact ⟨hne.1.1.1.1.2, hne.1.2⟩
    rw [hcharged]
    simp [hcounts]

/-! ## The discipline -/

/-- The gate of a mandate. -/
def mandateGate (H : Host) (mandate_id : String) : Gate := gateOf H ("paari:mandate:" ++ mandate_id)

/-- The intents a transaction inserts. -/
def insertsOf (ws : List Write) : List PaymentIntent :=
  ws.filterMap fun | .insertIntent i => some i | _ => none

/-- The mandate is there, and its agent is in its organization and spends in its currency. -/
structure Standing (M : UserPaymentMandate) (db : DB) : Prop where
  mandate : M ∈ db.mandates
  agent : ∀ a ∈ db.agents, a.agent_id = M.agent_id → a.org_id = M.org_id ∧ a.currency = M.currency

/-- The mandate is active at `now`. Where gates are named, the commit that precedes each
releases the one before, so that an evaluation ends up with the last: it is that of `L`. -/
structure Anchored (H : Host) (M : UserPaymentMandate) (L : String) (db : DB) (now : Instant) : Prop where
  live : M.live now = true
  last : H.postgres = true →
    L ∈ (active_mandates db M.agent_id M.org_id now).map UserPaymentMandate.mandate_id ∧
    ∀ id ∈ (active_mandates db M.agent_id M.org_id now).map UserPaymentMandate.mandate_id, id ≤ L

/-- What an evaluation at `now` relies on. -/
def Relied (H : Host) (M : UserPaymentMandate) (L : String) (now : Instant) (db : DB) : Prop :=
  Standing M db ∧ Anchored H M L db now

/-- Whether a request holds the gate of the mandate, what it has read under it, and all it
has read. -/
structure Till where
  held : Bool
  under : List DB
  seen : List DB

namespace Till

def read (q : Till) (db : DB) : Till :=
  { q with under := if q.held then db :: q.under else q.under, seen := db :: q.seen }

/-- After a try at a gate: refused, the request is rolled back. -/
def tryGate (q : Till) (isMandates free : Bool) : Till :=
  if free then { q with held := q.held || isMandates } else { q with held := false, under := [] }

/-- After the end of a transaction. -/
def close (q : Till) : Till := { q with held := false, under := [] }

/-- The payment has been checked against the mandate behind its gate. -/
def Clears (M : UserPaymentMandate) (q : Till) (i : PaymentIntent) : Prop :=
  q.held = true ∧ ∃ db ∈ q.under,
    i.amount_minor_units ≤ M.max_daily_amount - daily_spend db M i.created_at ∧
    ∀ cap, M.max_per_hour = some cap → i.amount_minor_units ≤ cap - hourly_spend db M i.created_at

/-- What a request may commit: at most one intent, and one that counts only when it has been
checked. -/
structure Allows (H : Host) (M : UserPaymentMandate) (L : String) (q : Till) (ws : List Write) : Prop where
  tables : ∀ x ∈ ws, x.table ≠ .mandates ∧ x.table ≠ .agents ∧
    ∀ id d v rs, x ≠ .decideIntent id d v rs
  single : insertsOf ws = [] ∨ ∃ i, insertsOf ws = [i] ∧
    (M.counts i = true → (∀ db ∈ q.seen, Relied H M L i.created_at db) → M.Bears i ∧ q.Clears M i)

/-- Reading on. -/
structure Later (q q' : Till) : Prop where
  held : q'.held = q.held
  under : q.under ⊆ q'.under
  seen : q.seen ⊆ q'.seen

theorem Later.refl (q : Till) : q.Later q := ⟨rfl, List.Subset.refl _, List.Subset.refl _⟩

theorem Later.trans {a b c : Till} (h : a.Later b) (h' : b.Later c) : a.Later c :=
  ⟨h'.held.trans h.held, List.Subset.trans h.under h'.under, List.Subset.trans h.seen h'.seen⟩

theorem later_read (q : Till) (db : DB) : q.Later (q.read db) := by
  refine ⟨rfl, ?_, List.subset_cons_self _ _⟩
  unfold read
  dsimp only
  split
  · exact List.subset_cons_self _ _
  · exact List.Subset.refl _

theorem Clears.mono {M : UserPaymentMandate} {q q' : Till} (h : q.Later q') {i : PaymentIntent}
    (hi : q.Clears M i) : q'.Clears M i := by
  obtain ⟨hheld, db, hdb, hrest⟩ := hi
  exact ⟨h.held.trans hheld, db, h.under hdb, hrest⟩

end Till

/-- Handlers that store a payment of the mandate only as checked behind its gate. -/
def budgeting (H : Host) (M : UserPaymentMandate) (L : String) : Protocol World Stmt Call Answer Till where
  stmt q s w q' := match s with
    | .commit ws => q.Allows H M L ws ∧ q' = q.close
    | .select => q' = q.read w.db
    | .try_gate g => q' = q.tryGate (decide (g = mandateGate H L)) (w.free g)
    | .rollback => q' = q.close
    | _ => q' = q
  call q _ _ q' := q' = q

section
variable {H : Host} {M : UserPaymentMandate} {L : String} {α β : Type} {Post : β → Till → Prop} {q : Till}

theorem budgeting_query {f : DB → α} {k : α → Handler β}
    (h : ∀ db q', q.Later q' → db ∈ q'.seen → (q.held = true → db ∈ q'.under) →
      (k (f db)).Conforms (budgeting H M L) Post q') :
    (Handler.query f >>= k).Conforms (budgeting H M L) Post q := by
  refine fun w => ⟨_, rfl, h w.db _ (q.later_read w.db) List.mem_cons_self fun hheld => ?_⟩
  unfold Till.read
  rw [hheld]
  exact List.mem_cons_self

theorem budgeting_now {k : Instant → Handler β}
    (h : ∀ t q', q.Later q' → (k t).Conforms (budgeting H M L) Post q') :
    (Handler.now >>= k).Conforms (budgeting H M L) Post q :=
  fun w => ⟨_, rfl, h w.clock _ (q.later_read w.db)⟩

theorem budgeting_fresh {k : Nat → Handler β} (h : ∀ n, (k n).Conforms (budgeting H M L) Post q) :
    (Handler.fresh >>= k).Conforms (budgeting H M L) Post q := fun w => ⟨q, rfl, h w.next⟩

theorem budgeting_audit {s : Session} {a : AuditArgs} {k : Session → Handler β}
    (h : ∀ e q', q.Later q' → (k (s ++ [.insertAudit e])).Conforms (budgeting H M L) Post q') :
    (record_audit H s a >>= k).Conforms (budgeting H M L) Post q :=
  fun w => ⟨_, rfl, h _ _ (q.later_read w.db)⟩

theorem budgeting_commit {ws : Session} {k : Unit → Handler β} (hws : q.Allows H M L ws)
    (h : (k ()).Conforms (budgeting H M L) Post q.close) :
    (Handler.commit ws >>= k).Conforms (budgeting H M L) Post q := by
  exact Handler.conforms_commit fun w => ⟨_, ⟨hws, rfl⟩, fun _ _ => h⟩

theorem budgeting_tryCommit {ws : Session} {k : Except Write Unit → Handler β}
    (hws : q.Allows H M L ws) (h : ∀ r, (k r).Conforms (budgeting H M L) Post q.close) :
    (Handler.tryCommit ws >>= k).Conforms (budgeting H M L) Post q :=
  fun _ => ⟨_, ⟨hws, rfl⟩, h _⟩

theorem budgeting_reads {R : α → Prop} {p : Handler α} {k : α → Handler β} (hp : p.Reads R)
    (hk : ∀ a q', q.Later q' → R a → (k a).Conforms (budgeting H M L) Post q') :
    (p >>= k).Conforms (budgeting H M L) Post q := by
  have hstep : ∀ (q : Till) (s : Stmt) (w : World), s = .select →
      ∃ q', (budgeting H M L).stmt q s w q' ∧ q.Later q' := by
    rintro q s w rfl
    exact ⟨_, rfl, q.later_read w.db⟩
  exact Prog.conforms_seq
    (Prog.conforms_of_quiet Till.Later.refl (fun _ _ _ => Till.Later.trans) hstep hp)
    fun a q' h => hk a q' h.1 h.2

theorem Write.Logs.aside {x : Write} (h : x.Logs) : x.table ≠ .mandates ∧ x.table ≠ .agents ∧
    ∀ id d v rs, x ≠ .decideIntent id d v rs := by
  rcases h with ⟨e, rfl⟩ | ⟨p, rfl⟩
  · exact ⟨nofun, nofun, fun _ _ _ _ => nofun⟩
  · exact ⟨nofun, nofun, fun _ _ _ _ => nofun⟩

theorem insertsOf_logs {ws : List Write} (hws : ∀ x ∈ ws, x.Logs) : insertsOf ws = [] := by
  refine List.filterMap_eq_nil_iff.mpr fun x hx => ?_
  rcases hws x hx with ⟨e, rfl⟩ | ⟨p, rfl⟩ <;> rfl

theorem Till.Allows.of_logs {ws : List Write} (hws : ∀ x ∈ ws, x.Logs) : q.Allows H M L ws :=
  ⟨fun x hx => (hws x hx).aside, .inl (insertsOf_logs hws)⟩

/-! ## The gate -/

/-- An evaluation that takes these gates in this order ends up holding that of `L`. -/
def Reaches (H : Host) (L : String) (ids : List String) : Prop :=
  H.postgres = false ∧ ids ≠ [] ∨ L ∈ ids ∧ ids.Pairwise (· ≤ ·) ∧ ∀ id ∈ ids, id ≤ L

theorem reaches_cons {id : String} {ids : List String} (h : Reaches H L (id :: ids)) :
    ids = [] ∧ mandateGate H id = mandateGate H L ∨ Reaches H L ids := by
  cases ids with
  | nil =>
    refine .inl ⟨rfl, ?_⟩
    rcases h with ⟨hdialect, -⟩ | ⟨hmem, -, -⟩
    · simp [gateOf, mandateGate, hdialect]
    · rw [List.mem_singleton.mp hmem]
  | cons id' ids =>
    refine .inr ?_
    rcases h with ⟨hdialect, -⟩ | ⟨hmem, hsorted, hle⟩
    · exact .inl ⟨hdialect, nofun⟩
    · obtain ⟨hhead, htail⟩ := List.pairwise_cons.mp hsorted
      refine .inr ⟨?_, htail, fun k hk => hle k (List.mem_cons_of_mem _ hk)⟩
      rcases List.mem_cons.mp hmem with heq | hmem
      · -- the same id again: nothing sorts after it
        have hge : L ≤ id' := heq ▸ hhead id' List.mem_cons_self
        have hsame := le_antisymm hge (hle id' (by simp))
        exact List.mem_cons.mpr (.inl hsame)
      · exact hmem

theorem acquireEach_budgeting {ids : List String} : ∀ {pending : Session} {q : Till},
    pending.All Write.Logs →
      (acquireEach H pending ids).Conforms (budgeting H M L)
        (fun got q' => q.seen ⊆ q'.seen ∧ (got = true → Reaches H L ids → q'.held = true)) q := by
  induction ids with
  | nil =>
    intro pending q _
    refine ⟨List.Subset.refl _, fun _ h => ?_⟩
    rcases h with ⟨-, hne⟩ | ⟨hmem, -⟩
    · exact absurd rfl hne
    · exact absurd hmem List.not_mem_nil
  | cons id ids ih =>
    intro pending q hpending
    have hgate : (acquire_mandate_serialization H pending id).Conforms (budgeting H M L)
        (fun got q' => q.seen ⊆ q'.seen ∧
          (got = true → mandateGate H id = mandateGate H L → q'.held = true)) q := by
      refine budgeting_commit (.of_logs hpending) fun w => ⟨_, rfl, ?_, fun hfree hgate => ?_⟩
      · unfold Till.tryGate
        split <;> exact List.Subset.refl _
      · unfold Till.tryGate
        rw [hfree, show gateOf H ("paari:mandate:" ++ id) = mandateGate H L from hgate]
        simp
    refine Prog.conforms_seq hgate fun got q' h => ?_
    cases got with
    | false => exact ⟨h.1, nofun⟩
    | true =>
      cases ids with
      | nil =>
        refine ⟨h.1, fun _ hr => h.2 rfl ?_⟩
        rcases reaches_cons hr with ⟨-, hsame⟩ | ⟨-, hne⟩ | ⟨hmem, -⟩
        · exact hsame
        · exact absurd rfl hne
        · exact absurd hmem List.not_mem_nil
      | cons id' ids =>
        refine Prog.conforms_mono (fun got' q'' h' =>
          ⟨List.Subset.trans h.1 h'.1, fun hgot hr => h'.2 hgot ?_⟩) (ih Session.all_nil)
        rcases reaches_cons hr with ⟨hnil, -⟩ | hr
        · exact absurd hnil nofun
        · exact hr

/-! ## The evaluation -/

/-- What passes the check of a mandate is within what is left of its budgets. -/
theorem check_one_within {db : DB} {p : Proposal} {signed : Bool} {d : MandateDecision}
    (h : check_one H db M p signed = some d) (hok : d.ok = true) :
    p.amount_minor_units ≤ M.max_daily_amount - daily_spend db M p.now ∧
      ∀ cap, M.max_per_hour = some cap → p.amount_minor_units ≤ cap - hourly_spend db M p.now := by
  obtain ⟨-, hbudgets⟩ := check_one_ok.mp ⟨d, h, hok⟩
  exact ⟨hbudgets.daily, hbudgets.hourly⟩

/-- One check after another, on rows read under the gate while it is held. -/
theorem checkEach_budgeting {p : Proposal} {signed : Bool} {ms : List UserPaymentMandate} :
    ∀ {q : Till}, (checkEach H p signed ms).Conforms (budgeting H M L) (fun ds q' => q.Later q' ∧
      (q.held = true → ∀ m ∈ ms, ∃ d ∈ ds, ∃ db ∈ q'.under, check_one H db m p signed = some d)) q := by
  induction ms with
  | nil => exact fun {q} => ⟨.refl q, fun _ m hm => absurd hm List.not_mem_nil⟩
  | cons m ms ih =>
    intro q
    refine budgeting_query fun db q₁ h₁ _ hunder => ?_
    split
    · trivial
    next d hd =>
    refine Prog.conforms_seq ih fun ds q₂ h₂ => ⟨h₁.trans h₂.1, fun hheld m' hm' => ?_⟩
    rcases List.mem_cons.mp hm' with rfl | hm'
    · exact ⟨d, List.mem_cons_self, db, h₂.1.under (hunder hheld), hd⟩
    · obtain ⟨d', hd', hrest⟩ := h₂.2 (h₁.held.trans hheld) m' hm'
      exact ⟨d', List.mem_cons_of_mem _ hd', hrest⟩

theorem combine_ok {active : List UserPaymentMandate} {ds : List MandateDecision}
    (h : (combine active ds).ok = true) : ∀ d ∈ ds, d.ok = true := by
  unfold combine at h
  dsimp only at h
  split at h
  · exact absurd h Bool.false_ne_true
  next hnone =>
  intro d hd
  simpa using List.find?_eq_none.mp hnone d hd

/-- The mandate is among the active ones of its agent. -/
theorem Relied.active {db : DB} {now : Instant} (h : Relied H M L now db) :
    M ∈ active_mandates db M.agent_id M.org_id now := by
  unfold active_mandates scope_query
  rw [List.mem_insertionSort]
  refine List.mem_filter.mpr ⟨List.mem_filter.mpr ⟨h.1.mandate, ?_⟩, h.2.live⟩
  simp

theorem Relied.reaches {db : DB} {now : Instant} (h : Relied H M L now db) : Reaches H L
    ((((active_mandates db M.agent_id M.org_id now).map UserPaymentMandate.mandate_id).dedup).insertionSort
      (· ≤ ·)) := by
  by_cases hdialect : H.postgres = true
  · obtain ⟨hmem, hle⟩ := h.2.last hdialect
    refine .inr ⟨?_, List.pairwise_insertionSort _ _, fun id hid => hle id ?_⟩
    · rw [List.mem_insertionSort, List.mem_dedup]
      exact hmem
    · rwa [List.mem_insertionSort, List.mem_dedup] at hid
  · refine .inl ⟨by simpa using hdialect, ?_⟩
    refine @List.ne_nil_of_mem _ M.mandate_id _ ?_
    rw [List.mem_insertionSort, List.mem_dedup]
    exact List.mem_map_of_mem h.active

/-- What an evaluation says of a payment under the mandate: it is not passed over, and when
it is let through it has been checked behind the gate. -/
def Evaluated (H : Host) (M : UserPaymentMandate) (L agent_id org_id : String) (p : Proposal)
    (d : MandateDecision) (q : Till) : Prop :=
  agent_id = M.agent_id → org_id = M.org_id → (∀ db ∈ q.seen, Relied H M L p.now db) →
    d.state = .lapsed ∨ d.state = .active ∧ (d.ok = true → q.held = true ∧
      ∃ db ∈ q.under, ∃ signed d', check_one H db M p signed = some d' ∧ d'.ok = true)

theorem evaluate_mandate_budgeting {s : Session} (hs : s.All Write.Logs) (agent_id org_id : String)
    (p : Proposal) (signed : Bool) :
    (evaluate_mandate H s agent_id org_id p signed).Conforms (budgeting H M L)
      (fun r q' => q.seen ⊆ q'.seen ∧ r.2.All Write.Logs ∧ Evaluated H M L agent_id org_id p r.1 q') q := by
  refine budgeting_query fun db q₁ h₁ hdb _ => ?_
  split
  · next hempty =>
    refine budgeting_query fun _ q₂ h₂ _ _ => ⟨(h₁.trans h₂).seen, hs, ?_⟩
    rintro rfl rfl htrust
    have hmem := (htrust db (h₂.seen hdb)).active
    rw [List.isEmpty_iff.mp hempty] at hmem
    exact absurd hmem List.not_mem_nil
  refine Prog.conforms_seq (acquireEach_budgeting hs) fun got q₂ h₂ => ?_
  split
  · exact ⟨List.Subset.trans h₁.seen h₂.1, Session.all_nil, fun _ _ _ => .inr ⟨rfl, nofun⟩⟩
  next hgot =>
  refine budgeting_query fun db₃ q₃ h₃ hdb₃ _ => ?_
  have hseen₃ : q.seen ⊆ q₃.seen := List.Subset.trans h₁.seen (List.Subset.trans h₂.1 h₃.seen)
  split
  · exact ⟨hseen₃, Session.all_nil, fun _ _ _ => .inl rfl⟩
  refine Prog.conforms_seq checkEach_budgeting fun ds q₄ h₄ => ?_
  refine ⟨List.Subset.trans hseen₃ h₄.1.seen, Session.all_nil, ?_⟩
  rintro rfl rfl htrust
  have hseen : db ∈ q₄.seen := h₄.1.seen (h₃.seen (h₂.1 hdb))
  have hheld₂ : q₂.held = true := h₂.2 (by simpa using hgot) (htrust db hseen).reaches
  have hheld₃ := h₃.held.trans hheld₂
  refine .inr ⟨?_, fun hok => ⟨h₄.1.held.trans hheld₃, ?_⟩⟩
  · unfold combine
    dsimp only
    split
    · rfl
    · split <;> rfl
  · have hactive := (htrust db₃ (h₄.1.seen hdb₃)).active
    obtain ⟨d, hd, db', hdb', hcheck⟩ := h₄.2 hheld₃ M hactive
    exact ⟨db', hdb', signed, d, hcheck, combine_ok hok d hd⟩

/-! ## The handlers -/

/-- The agent is one that the request has read. -/
theorem authenticate_budgeting (ctx : RequestContext) (token : String) (expected : Option String) :
    (authenticate H ctx token expected).Conforms (budgeting H M L) (fun r q' => q.Later q' ∧
      ∀ a, r = .ok a → a.pending.All Write.Logs ∧ ∃ db ∈ q'.seen, a.agent ∈ db.agents) q := by
  have hraise : ∀ {q' : Till} (x : HttpError), q.Later q' →
      q.Later q' ∧ ∀ a : Authenticated, (Except.error (.error x) : Except Reply Authenticated) = .ok a →
        a.pending.All Write.Logs ∧ ∃ db ∈ q'.seen, a.agent ∈ db.agents :=
    fun x hq => ⟨hq, fun a h => absurd h (by simp)⟩
  refine budgeting_now fun t q₁ h₁ => ?_
  split
  · exact hraise _ h₁
  split
  · exact hraise _ h₁
  refine budgeting_query fun db q₂ h₂ hdb _ => ?_
  split
  · exact hraise _ (h₁.trans h₂)
  next agent hfind =>
  have hagent : agent ∈ db.agents := List.mem_of_find?_eq_some hfind
  split
  · exact hraise _ (h₁.trans h₂)
  refine budgeting_query fun _ q₃ h₃ _ _ => budgeting_now fun now q₄ h₄ => ?_
  have hq₄ : q.Later q₄ := h₁.trans (h₂.trans (h₃.trans h₄))
  split
  · exact hraise _ hq₄
  refine budgeting_query fun _ q₅ h₅ _ _ => ?_
  have hq₅ := hq₄.trans h₅
  have hdb₅ : db ∈ q₅.seen := h₅.seen (h₄.seen (h₃.seen hdb))
  split
  · exact hraise _ hq₅
  split
  · exact hraise _ hq₅
  split
  · refine ⟨hq₅, ?_⟩
    rintro a ⟨rfl⟩
    exact ⟨Session.all_nil, db, hdb₅, hagent⟩
  split
  · exact hraise _ hq₅
  refine budgeting_now fun t' q₆ h₆ => ?_
  split
  · exact hraise _ (hq₅.trans h₆)
  refine budgeting_reads (verify_request_proof_reads _ _ _ _ _) fun burnt q₇ h₇ hburnt => ?_
  have hq₇ := hq₅.trans (h₆.trans h₇)
  split
  · exact hraise _ hq₇
  · refine ⟨hq₇, ?_⟩
    rintro a ⟨rfl⟩
    refine ⟨fun x hx => ?_, db, h₇.seen (h₆.seen hdb₅), hagent⟩
    obtain ⟨p, rfl⟩ := hburnt _ rfl x hx
    exact .inr ⟨p, rfl⟩

/-- What the request stores as its own payment at `now` is under the mandate and has been
checked, when it counts. -/
def Till.Passes (H : Host) (M : UserPaymentMandate) (L : String) (q : Till) (agent : Agent)
    (req : PaymentIntentRequest) (now : Instant) : Prop :=
  agent.agent_id = M.agent_id → (∀ db ∈ q.seen, Relied H M L now db) →
    ∀ i : PaymentIntent, i.org_id = agent.org_id → i.currency = req.currency →
      i.amount_minor_units = req.amount_minor_units → i.created_at = now → M.Bears i ∧ q.Clears M i

theorem Till.Passes.mono {q q' : Till} (h : q.Later q') {agent : Agent} {req : PaymentIntentRequest}
    {now : Instant} (hp : q.Passes H M L agent req now) : q'.Passes H M L agent req now := by
  intro hagent hrelied i horg hcurrency hamount hnow
  obtain ⟨hbears, hclears⟩ :=
    hp hagent (fun db hdb => hrelied db (h.seen hdb)) i horg hcurrency hamount hnow
  exact ⟨hbears, hclears.mono h⟩

theorem insertsOf_recorded {s : Session} (hs : s.All Write.Logs) (i : PaymentIntent)
    (e e' : AuditEvent) :
    insertsOf (s ++ [.insertIntent i] ++ [.insertAudit e] ++ [.insertAudit e']) = [i] := by
  have hlogs : insertsOf s = [] := insertsOf_logs hs
  unfold insertsOf at hlogs ⊢
  rw [List.filterMap_append, List.filterMap_append, List.filterMap_append, hlogs]
  rfl

theorem record_intent_budgeting {s : Session} (hs : s.All Write.Logs) {agent : Agent}
    {req : PaymentIntentRequest} {v : Verdict}
    (hv : v.decision = .deny ∨ ∃ now, v.now = some now ∧ q.Passes H M L agent req now) :
    (record_intent H s agent req v).Conforms (budgeting H M L) (fun _ _ => True) q := by
  refine budgeting_now fun t q₁ h₁ => budgeting_fresh fun n => budgeting_query fun db q₂ h₂ _ _ => ?_
  refine budgeting_audit fun e q₃ h₃ => budgeting_audit fun e' q₄ h₄ => ?_
  have hq : q.Later q₄ := h₁.trans (h₂.trans (h₃.trans h₄))
  refine budgeting_tryCommit ⟨fun x hx => ?_, .inr ⟨_, insertsOf_recorded hs _ e e', ?_⟩⟩ fun r => ?_
  · rcases recorded_writes hs _ e e' x hx with hlogs | rfl
    · exact hlogs.aside
    · exact ⟨nofun, nofun, fun _ _ _ _ => nofun⟩
  · intro hcounts hrelied
    have hparts : agent.agent_id = M.agent_id ∧ v.decision ≠ .deny := by
      unfold UserPaymentMandate.counts at hcounts
      obtain ⟨hagent, hdecision⟩ := Bool.and_eq_true_iff.mp hcounts
      exact ⟨beq_iff_eq.mp hagent, of_decide_eq_true hdecision⟩
    rcases hv with hdeny | ⟨now, hnow, hp⟩
    · exact absurd hdeny hparts.2
    · have hat : (intentRow agent req v (H.uuid4 n) (v.now.getD t)).created_at = now := by
        rw [hnow]
        rfl
      rw [hat] at hrelied
      exact hp.mono hq hparts.1 hrelied _ rfl rfl rfl hat
  · split
    · exact budgeting_query fun _ _ _ _ _ => trivial
    · refine budgeting_query fun _ _ _ _ _ => ?_
      split <;> trivial
    · trivial

theorem deny_budgeting {s : Session} (hs : s.All Write.Logs) (agent : Agent)
    (req : PaymentIntentRequest) (check : String) (reasons : List String) :
    (deny H s agent req check reasons).Conforms (budgeting H M L) (fun _ _ => True) q :=
  Prog.conforms_seq (record_intent_budgeting hs (.inl rfl)) fun _ _ _ => trivial

theorem decide_intent_budgeting {s : Session} (hs : s.All Write.Logs) {agent : Agent}
    (parent : ParentAuthority) {req : PaymentIntentRequest} {now : Instant} (d : MandateDecision)
    (hp : q.Passes H M L agent req now) :
    (decide_intent H s agent parent req now d).Conforms (budgeting H M L) (fun _ _ => True) q := by
  refine budgeting_query fun recent q₁ h₁ _ _ => ?_
  have hp := hp.mono h₁
  dsimp only
  split
  · exact Prog.conforms_seq (record_intent_budgeting hs (.inr ⟨now, rfl, hp⟩)) fun _ _ _ => trivial
  · refine Prog.conforms_seq (record_intent_budgeting hs (.inr ⟨now, rfl, hp⟩)) fun i q₂ _ => ?_
    refine budgeting_reads (mint_reads i) fun u q₃ _ _ => budgeting_audit fun e q₄ _ => ?_
    refine budgeting_commit ⟨fun x hx => ?_, .inl rfl⟩ trivial
    simp only [List.cons_append, List.nil_append, List.mem_cons, List.not_mem_nil, or_false] at hx
    rcases hx with rfl | rfl | rfl <;> exact ⟨nofun, nofun, fun _ _ _ _ => nofun⟩

/-- A payment that the mandates let through passes. -/
theorem Evaluated.passes {agent : Agent} {req : PaymentIntentRequest} {now : Instant}
    {p : Proposal} {d : MandateDecision} (h : Evaluated H M L agent.agent_id agent.org_id p d q)
    (hknown : ∃ db ∈ q.seen, agent ∈ db.agents) (hpositive : 0 < req.amount_minor_units)
    (hcurrency : req.currency = agent.currency) (hamount : p.amount_minor_units = req.amount_minor_units)
    (hnow : p.now = now) (hlapsed : d.state ≠ .lapsed) (hok : d.state = .active → d.ok = true) :
    q.Passes H M L agent req now := by
  intro hagent hrelied i horg hcur hamt hat
  obtain ⟨db, hdb, hmem⟩ := hknown
  obtain ⟨horg', hcur'⟩ := (hrelied db hdb).1.agent agent hmem hagent
  have hsince : M.valid_from ≤ now := by
    have hlive := (hrelied db hdb).2.live
    simp only [UserPaymentMandate.live, Bool.and_eq_true, decide_eq_true_eq] at hlive
    exact hlive.1.2
  refine ⟨⟨horg.trans horg', hcur.trans (hcurrency.trans hcur'), ?_, ?_⟩, ?_⟩
  · rw [hamt]
    exact hpositive
  · rw [hat]
    exact hsince
  · rcases h hagent horg' (hnow ▸ hrelied) with hl | ⟨hactive, hchecked⟩
    · exact absurd hl hlapsed
    · obtain ⟨hheld, db', hdb', signed, d', hcheck, hok'⟩ := hchecked (hok hactive)
      have hwithin := check_one_within hcheck hok'
      rw [hamount, hnow, ← hamt, ← hat] at hwithin
      exact ⟨hheld, db', hdb', hwithin⟩

theorem mandate_layer_budgeting {s : Session} (hs : s.All Write.Logs) {agent : Agent}
    (parent : ParentAuthority) {req : PaymentIntentRequest} {now : Instant}
    (policy : Host.MandatePolicy) (hknown : ∃ db ∈ q.seen, agent ∈ db.agents)
    (hpositive : 0 < req.amount_minor_units) (hcurrency : req.currency = agent.currency) :
    (mandate_layer H s agent parent req now policy).Conforms (budgeting H M L) (fun _ _ => True) q := by
  refine Prog.conforms_seq (evaluate_mandate_budgeting hs _ _ _ _) fun r q₁ h₁ => ?_
  obtain ⟨hseen, hr, heval⟩ := h₁
  obtain ⟨db, hdb, hmem⟩ := hknown
  dsimp only
  split
  · exact deny_budgeting hr _ _ _ _
  next hlapsed =>
  split
  · exact deny_budgeting hr _ _ _ _
  split
  · exact deny_budgeting hr _ _ _ _
  next hdenied =>
  refine decide_intent_budgeting hr _ _ (heval.passes ⟨db, hseen hdb, hmem⟩ hpositive hcurrency rfl rfl
    hlapsed fun hactive => ?_)
  simpa [hactive] using hdenied

theorem submit_payment_intent_budgeting (ctx : RequestContext) (req : PaymentIntentRequest) :
    (submit_payment_intent H ctx req).Conforms (budgeting H M L) (fun _ _ => True) q := by
  unfold submit_payment_intent
  cases htoken : resolve_session_token H req.session_token ctx.authorization with
  | error e => trivial
  | ok token =>
    show (Handler.attempt (authenticate H ctx token none) _).Conforms _ _ _
    refine Prog.conforms_seq (authenticate_budgeting ctx token none) fun r q₁ h₁ => ?_
    cases r with
    | error e => trivial
    | ok a =>
      obtain ⟨hs, db, hdb, hagent⟩ := h₁.2 a rfl
      dsimp only
      split
      · trivial
      refine budgeting_now fun now q₂ h₂ => budgeting_query fun _ q₃ h₃ _ _ => ?_
      split
      · exact budgeting_query fun _ _ _ _ _ => trivial
      refine budgeting_query fun _ q₄ h₄ _ _ => ?_
      split
      · exact deny_budgeting hs _ _ _ _
      split
      · exact deny_budgeting hs _ _ _ _
      split
      · trivial
      · exact deny_budgeting hs _ _ _ _
      next hrefusal =>
      obtain ⟨-, hpositive, -, hcurrency, -⟩ := terms_of_refusal hrefusal
      split
      · trivial
      · exact mandate_layer_budgeting hs _ _ ⟨db, h₄.seen (h₃.seen (h₂.seen hdb)), hagent⟩ hpositive
          hcurrency

end

/-! ## The run -/

section
variable {H : Host} {M : UserPaymentMandate} {L : String} {db db' : DB} {w w' : World}
  {ws : List Write} {qs : Nat → Till} {i : Nat}

theorem rollback_gates (w : World) (i : Nat) :
    (w.rollback i).gates = w.gates.filter fun h => h.2 ≠ i := by
  unfold World.rollback World.release
  dsimp only
  generalize w.reserved.filter (fun r => decide (r.session = i)) = rs
  induction rs with
  | nil => rfl
  | cons r rs ih =>
    rw [List.foldr_cons]
    exact ih

theorem applyAll_intents (hws : ∀ x ∈ ws, ∀ id d v rs, x ≠ .decideIntent id d v rs) :
    ∀ {db db' : DB}, db.applyAll ws = .ok db' → db'.intents = db.intents ++ insertsOf ws := by
  induction ws with
  | nil =>
    intro db db' h
    rw [← Except.ok.inj h]
    exact (List.append_nil _).symm
  | cons x ws ih =>
    intro db db' h
    obtain ⟨mid, hmid, hrest⟩ := applyAll_cons h
    rw [ih (fun y hy => hws y (List.mem_cons_of_mem _ hy)) hrest]
    unfold insertsOf
    rcases apply_intents hmid with ⟨k, rfl, heq, -⟩ | ⟨id, d, v, rs, rfl, -⟩ | heq
    · rw [heq, List.append_assoc]
      rfl
    · exact absurd rfl (hws _ List.mem_cons_self id d v rs)
    · rw [heq, List.filterMap_cons]
      cases x with
      | insertIntent k =>
        obtain ⟨rows, hrows, hmid'⟩ := Option.bind_eq_some_iff.mp hmid
        obtain ⟨rfl, -⟩ := insertUnique_eq hrows
        rw [← Option.some.inj hmid'] at heq
        exact absurd heq (by simp)
      | _ => rfl

theorem applyAll_spent (hws : ∀ x ∈ ws, ∀ id d v rs, x ≠ .decideIntent id d v rs)
    (h : db.applyAll ws = .ok db') :
    spentOf M db' = spentOf M db ++ (insertsOf ws).filter M.counts := by
  unfold spentOf
  rw [applyAll_intents hws h, List.filter_append]

theorem Uses.spent (h : Uses db db') : spentOf M db' = spentOf M db := by
  obtain ⟨as, -, rfl⟩ := h
  rfl

theorem Uses.mandates (h : Uses db db') : db'.mandates = db.mandates := by
  obtain ⟨as, -, rfl⟩ := h
  rfl

theorem Uses.agents (h : Uses db db') : db'.agents = db.agents := by
  obtain ⟨as, -, rfl⟩ := h
  rfl

theorem Standing.of_eq (h : Standing M db) (hm : db'.mandates = db.mandates)
    (ha : db'.agents = db.agents) : Standing M db' := ⟨hm ▸ h.mandate, ha ▸ h.agent⟩

theorem Anchored.of_eq {now : Instant} (h : Anchored H M L db now) (hm : db'.mandates = db.mandates) :
    Anchored H M L db' now := by
  have hactive : active_mandates db' M.agent_id M.org_id now = active_mandates db M.agent_id M.org_id now := by
    unfold active_mandates scope_query
    rw [hm]
  exact ⟨h.live, hactive ▸ h.last⟩

/-- No payment of the mandate is stored behind a later one, and each is made while the
mandate is active. -/
def InOrder (H : Host) (M : UserPaymentMandate) (L : String) (_ : List (Event World Stmt Call Answer)) :
    Event World Stmt Call Answer → Prop
  | .stmt _ (.commit ws) w => ∀ i ∈ insertsOf ws, M.counts i = true →
      Anchored H M L w.db i.created_at ∧ ∀ k ∈ spentOf M w.db, k.created_at ≤ i.created_at
  | _ => True

instance (now : Instant) : Decidable (Anchored H M L db now) :=
  decidable_of_iff (M.live now = true ∧ (H.postgres = true →
    L ∈ (active_mandates db M.agent_id M.org_id now).map UserPaymentMandate.mandate_id ∧
    ∀ id ∈ (active_mandates db M.agent_id M.org_id now).map UserPaymentMandate.mandate_id, id ≤ L))
    ⟨fun h => ⟨h.1, h.2⟩, fun h => ⟨h.live, h.last⟩⟩

instance (tr : List (Event World Stmt Call Answer)) : DecidablePred (InOrder H M L tr)
  | .stmt _ (.commit ws) w => inferInstanceAs (Decidable (∀ i ∈ insertsOf ws, M.counts i = true →
      Anchored H M L w.db i.created_at ∧ ∀ k ∈ spentOf M w.db, k.created_at ≤ i.created_at))
  | .stmt _ .select _ | .stmt _ .fresh _ | .stmt _ (.try_gate _) _ | .stmt _ (.reserve _ _) _
  | .stmt _ .rollback _ | .call _ _ _ _ | .died _ _ => .isTrue trivial

/-- What a request's till says is so. -/
structure Till.Sound (H : Host) (M : UserPaymentMandate) (L : String) (w : World) (i : Nat)
    (q : Till) : Prop where
  held : q.held = true → (mandateGate H L, i) ∈ w.gates
  under : ∀ db ∈ q.under, q.held = true ∧ spentOf M db = spentOf M w.db
  seen : ∀ db ∈ q.seen, Standing M db ∧ db.mandates = w.db.mandates

/-- One request at a time holds the gate, and what is spent keeps to the mandate. -/
structure Budgeting (H : Host) (M : UserPaymentMandate) (L : String) (w : World)
    (qs : Nat → Till) : Prop where
  budgeted : Budgeted M w.db
  standing : Standing M w.db
  exclusive : ∀ i j, (mandateGate H L, i) ∈ w.gates → (mandateGate H L, j) ∈ w.gates → i = j
  sound : ∀ i, (qs i).Sound H M L w i

theorem Till.Sound.onward {q : Till} (h : q.Sound H M L w i) (hdb : Uses w.db w'.db)
    (hgates : (mandateGate H L, i) ∈ w.gates → (mandateGate H L, i) ∈ w'.gates) :
    q.Sound H M L w' i where
  held hheld := hgates (h.held hheld)
  under db hdb' := ⟨(h.under db hdb').1, (h.under db hdb').2.trans hdb.spent.symm⟩
  seen db hdb' := ⟨(h.seen db hdb').1, (h.seen db hdb').2.trans hdb.mandates.symm⟩

theorem Budgeted.of_eq (h : Budgeted M db) (heq : spentOf M db' = spentOf M db) : Budgeted M db' := by
  refine ⟨?_, ?_, ?_⟩ <;> rw [heq]
  · exact h.bears
  · exact h.daily
  · exact h.hourly

namespace Budgeting

/-- A step of one request that leaves the intents and the gates of the others. -/
theorem still (h : Budgeting H M L w qs) (hdb : Uses w.db w'.db)
    (hexclusive : ∀ i j, (mandateGate H L, i) ∈ w'.gates → (mandateGate H L, j) ∈ w'.gates → i = j)
    (hothers : ∀ j, j ≠ i → (mandateGate H L, j) ∈ w.gates → (mandateGate H L, j) ∈ w'.gates)
    {q' : Till} (hq : q'.Sound H M L w' i) :
    Budgeting H M L w' (Function.update qs i q') where
  budgeted := h.budgeted.of_eq hdb.spent
  standing := h.standing.of_eq hdb.mandates hdb.agents
  exclusive := hexclusive
  sound := (Function.forall_update_iff qs fun j q => q.Sound H M L w' j).mpr
    ⟨hq, fun j hj => (h.sound j).onward hdb (hothers j hj)⟩

/-- A request that is rolled back has closed its till. -/
theorem rollback (h : Budgeting H M L w qs) (i : Nat) :
    Budgeting H M L (w.rollback i) (Function.update qs i (qs i).close) := by
  have hgates := rollback_gates w i
  refine h.still (uses_rollback w i) (fun j k hj hk => ?_) (fun j hj hmem => ?_) ⟨nofun, nofun, ?_⟩
  · rw [hgates] at hj hk
    exact h.exclusive j k (List.mem_of_mem_filter hj) (List.mem_of_mem_filter hk)
  · rw [hgates]
    exact List.mem_filter.mpr ⟨hmem, decide_eq_true hj⟩
  · exact fun db hdb => ⟨((h.sound i).seen db hdb).1,
      ((h.sound i).seen db hdb).2.trans (uses_rollback w i).mandates.symm⟩

/-- What a transaction adds to the payments of the mandate. -/
theorem spends (h : Budgeting H M L w qs) (hws : (qs i).Allows H M L ws)
    (hok : ∀ k ∈ insertsOf ws, M.counts k = true →
      Anchored H M L w.db k.created_at ∧ ∀ k' ∈ spentOf M w.db, k'.created_at ≤ k.created_at) :
    (insertsOf ws).filter M.counts = [] ∨ ∃ k, (insertsOf ws).filter M.counts = [k] ∧
      (∀ k' ∈ spentOf M w.db, k'.created_at ≤ k.created_at) ∧ M.Bears k ∧ (qs i).Clears M k := by
  rcases hws.single with hnone | ⟨k, hk, hclear⟩
  · rw [hnone]
    exact .inl rfl
  by_cases hcounts : M.counts k = true
  · obtain ⟨hanchored, horder⟩ := hok k (hk ▸ List.mem_cons_self) hcounts
    have hrelied : ∀ db ∈ (qs i).seen, Relied H M L k.created_at db := fun db hdb =>
      ⟨((h.sound i).seen db hdb).1, hanchored.of_eq ((h.sound i).seen db hdb).2⟩
    obtain ⟨hbears, hclears⟩ := hclear hcounts hrelied
    refine .inr ⟨k, ?_, horder, hbears, hclears⟩
    rw [hk, List.filter_cons_of_pos hcounts, List.filter_nil]
  · refine .inl ?_
    rw [hk, List.filter_cons_of_neg hcounts, List.filter_nil]

/-- A payment that is stored behind the gate keeps to the budgets. -/
theorem budgets (h : Budgeting H M L w qs) {k : PaymentIntent}
    (hspent : spentOf M db' = spentOf M w.db ++ [k])
    (horder : ∀ k' ∈ spentOf M w.db, k'.created_at ≤ k.created_at) (hbears : M.Bears k)
    (hclears : (qs i).Clears M k) : Budgeted M db' := by
  obtain ⟨-, db₁, hdb₁, hday, hhour⟩ := hclears
  have hsame : spentOf M db₁ = spentOf M w.db := ((h.sound i).under db₁ hdb₁).2
  have hwindow : ∀ delta, spend_since db₁ M (window_start k.created_at delta M) k.created_at =
      windowSum delta k.created_at (spentOf M w.db) := by
    intro delta
    rw [← hsame]
    exact spend_since_eq (hsame ▸ h.budgeted.bears) delta _
  refine ⟨fun k' hk' => ?_, ?_, fun cap hcap => ?_⟩ <;> rw [hspent] at *
  · rcases List.mem_append.mp hk' with hk' | hk'
    · exact h.budgeted.bears k' hk'
    · rw [List.mem_singleton.mp hk']
      exact hbears
  · refine .snoc h.budgeted.daily horder ?_
    have hfits := hday
    unfold daily_spend at hfits
    rw [hwindow] at hfits
    omega
  · refine .snoc (h.budgeted.hourly cap hcap) horder ?_
    have hfits := hhour cap hcap
    unfold hourly_spend at hfits
    rw [hwindow] at hfits
    omega

theorem commit (h : Budgeting H M L w qs) (hws : (qs i).Allows H M L ws)
    (hok : ∀ k ∈ insertsOf ws, M.counts k = true →
      Anchored H M L w.db k.created_at ∧ ∀ k' ∈ spentOf M w.db, k'.created_at ≤ k.created_at)
    (hdb : w.db.applyAll ws = .ok db') :
    Budgeting H M L ({ w with db := db' }.release i) (Function.update qs i (qs i).close) := by
  have hspent : spentOf M db' = spentOf M w.db ++ (insertsOf ws).filter M.counts :=
    applyAll_spent (fun x hx => (hws.tables x hx).2.2) hdb
  have htables : db'.mandates = w.db.mandates ∧ db'.agents = w.db.agents := by
    refine applyAll_keeps_all (K := fun d => d.mandates = w.db.mandates ∧ d.agents = w.db.agents)
      (fun d d' x hx hap hd => ?_) hws.tables hdb ⟨rfl, rfl⟩
    have hframe := Frame.of_apply hap
    exact ⟨(hframe.mandates hx.1).trans hd.1, (hframe.agents hx.2.1).trans hd.2⟩
  have hgates : ({ w with db := db' }.release i).gates = w.gates.filter fun h => h.2 ≠ i := rfl
  have hadded := h.spends hws hok
  refine ⟨?_, h.standing.of_eq htables.1 htables.2, fun j k hj hk => ?_, ?_⟩
  · rcases hadded with hnone | ⟨k, hk, horder, hbears, hclears⟩
    · refine h.budgeted.of_eq ?_
      show spentOf M db' = _
      rw [hspent, hnone, List.append_nil]
    · exact h.budgets (hspent.trans (by rw [hk])) horder hbears hclears
  · rw [hgates] at hj hk
    exact h.exclusive j k (List.mem_of_mem_filter hj) (List.mem_of_mem_filter hk)
  · refine (Function.forall_update_iff qs fun j q =>
      q.Sound H M L ({ w with db := db' }.release i) j).mpr ⟨⟨?_, ?_, fun d hd => ?_⟩, fun j hj => ?_⟩
    · exact fun hheld => absurd hheld Bool.false_ne_true
    · exact fun d hd => absurd hd List.not_mem_nil
    · exact ⟨((h.sound i).seen d hd).1, ((h.sound i).seen d hd).2.trans htables.1.symm⟩
    · refine ⟨fun hheld => ?_, fun d hd => ?_, fun d hd => ?_⟩
      · rw [hgates]
        exact List.mem_filter.mpr ⟨(h.sound j).held hheld, decide_eq_true hj⟩
      · obtain ⟨hheld, hsame⟩ := (h.sound j).under d hd
        refine ⟨hheld, ?_⟩
        rcases hadded with hnone | ⟨k, -, -, -, hclears⟩
        · show _ = spentOf M db'
          rw [hspent, hnone, List.append_nil]
          exact hsame
        · -- the request that stores a payment is the one that holds the gate
          have hjold := (h.sound j).held hheld
          have hiold := (h.sound i).held hclears.1
          exact absurd (h.exclusive j i hjold hiold) hj
      · exact ⟨((h.sound j).seen d hd).1, ((h.sound j).seen d hd).2.trans htables.1.symm⟩

theorem stmt {tr : List (Event World Stmt Call Answer)} {s : Stmt} {q' : Till}
    (h : Budgeting H M L w qs) (hok : InOrder H M L tr (.stmt i s w))
    (hs : (budgeting H M L).stmt (qs i) s w q') :
    Budgeting H M L (w.exec i s) (Function.update qs i q') := by
  cases s with
  | select =>
    obtain rfl := hs
    have hsound := h.sound i
    refine h.still ⟨_, rfl, rfl⟩ h.exclusive (fun _ _ => id) ⟨hsound.held, fun d hd => ?_, fun d hd => ?_⟩
    · unfold Till.read at hd ⊢
      dsimp only at hd ⊢
      split at hd
      · next hheld =>
        rcases List.mem_cons.mp hd with rfl | hd
        · exact ⟨hheld, rfl⟩
        · exact hsound.under d hd
      · exact hsound.under d hd
    · rcases List.mem_cons.mp hd with rfl | hd
      · exact ⟨h.standing, rfl⟩
      · exact hsound.seen d hd
  | fresh =>
    obtain rfl := hs
    have hdb : Uses w.db (w.exec i .fresh).db := ⟨_, rfl, rfl⟩
    exact h.still hdb h.exclusive (fun _ _ => id) ((h.sound i).onward hdb id)
  | rollback =>
    obtain rfl := hs
    exact h.rollback i
  | reserve id spend =>
    obtain rfl := hs
    have hgates : (w.exec i (.reserve id spend)).gates = w.gates := by
      unfold World.exec
      dsimp only
      split <;> rfl
    have hne : ∀ ws, Stmt.reserve id spend ≠ .commit ws := fun _ => nofun
    have huses := uses_exec hne w i
    refine h.still huses ?_ (fun j _ hj => hgates ▸ hj) ((h.sound i).onward huses fun hi => hgates ▸ hi)
    rw [hgates]
    exact h.exclusive
  | try_gate g =>
    obtain rfl := hs
    unfold World.exec Till.tryGate
    dsimp only
    by_cases hfree : w.free g = true
    · rw [if_pos hfree, if_pos hfree]
      have hnone : ∀ j, g = mandateGate H L → (mandateGate H L, j) ∉ w.gates := by
        rintro j rfl hj
        have hne := List.all_eq_true.mp hfree _ hj
        simp at hne
      have hsound := h.sound i
      have hdb : Uses w.db { w with gates := (g, i) :: w.gates }.db := ⟨_, rfl, rfl⟩
      refine h.still hdb (fun j k hj hk => ?_) (fun j _ => List.mem_cons_of_mem _)
        ⟨fun hheld => ?_, fun d hd => ?_, hsound.seen⟩
      · rcases List.mem_cons.mp hj with hj | hj <;> rcases List.mem_cons.mp hk with hk | hk
        · exact (Prod.mk.inj hj).2.trans (Prod.mk.inj hk).2.symm
        · exact absurd hk (hnone k (Prod.mk.inj hj).1.symm)
        · exact absurd hj (hnone j (Prod.mk.inj hk).1.symm)
        · exact h.exclusive j k hj hk
      · rcases Bool.or_eq_true_iff.mp hheld with hheld | hgate
        · exact List.mem_cons_of_mem _ (hsound.held hheld)
        · rw [← of_decide_eq_true hgate]
          exact List.mem_cons_self
      · obtain ⟨hheld, hsame⟩ := hsound.under d hd
        exact ⟨Bool.or_eq_true_iff.mpr (.inl hheld), hsame⟩
    · rw [if_neg hfree, if_neg hfree]
      exact h.rollback i
  | commit ws =>
    obtain ⟨hws, rfl⟩ := hs
    show Budgeting H M L (w.commit i ws) _
    unfold World.commit
    cases hdb : w.db.applyAll ws with
    | ok db' => exact h.commit hws hok hdb
    | error x => exact h.rollback i

end Budgeting

end

/-- **A mandate's budgets hold in every window.** However submissions interleave, fail or
die: as long as none is stored behind a later one of the agent, and the mandate whose gate is
taken last stays the same, what the agent has spent keeps within the daily and hourly caps. -/
theorem budget_kept {H : Host} {M : UserPaymentMandate} {L : String} {reqs : List Request}
    (hreqs : ∀ r ∈ reqs, ∃ ctx req, r = .submit_intent ctx req) (hdaily : 0 ≤ M.max_daily_amount)
    (hhourly : ∀ cap, M.max_per_hour = some cap → 0 ≤ cap) {w : World} (hgates : w.gates = [])
    (hstanding : Standing M w.db) (hunspent : spentOf M w.db = [])
    {c : Pool World Stmt Call Answer Reply}
    (h : Pool.Reach machine (InOrder H M L) (Pool.start w (reqs.map (handler H))) c) (t : Instant) :
    windowSum DAY t (spentOf M c.store.db) ≤ M.max_daily_amount ∧
      ∀ cap, M.max_per_hour = some cap → windowSum HOUR t (spentOf M c.store.db) ≤ cap := by
  have hfollows : (Pool.start w (reqs.map (handler H))).Follows (budgeting H M L)
      (fun _ _ _ => True) fun _ => ⟨false, [], []⟩ := by
    intro j p hp
    simp only [Pool.start, List.getElem?_map, Option.map_eq_some_iff] at hp
    obtain ⟨r, hr, rfl⟩ := hp
    obtain ⟨ctx, req, rfl⟩ := hreqs r (List.mem_of_getElem? hr)
    exact submit_payment_intent_budgeting ctx req
  have hstart : Budgeting H M L w fun _ => ⟨false, [], []⟩ := by
    refine ⟨⟨?_, ?_, fun cap _ => ?_⟩, hstanding, fun i j hi => ?_, fun i => ⟨?_, ?_, ?_⟩⟩
    · rw [hunspent]
      exact fun k hk => absurd hk List.not_mem_nil
    · rw [hunspent]
      exact .nil
    · rw [hunspent]
      exact .nil
    · rw [hgates] at hi
      exact absurd hi List.not_mem_nil
    · exact fun hheld => absurd hheld Bool.false_ne_true
    · exact fun db hdb => absurd hdb List.not_mem_nil
    · exact fun db hdb => absurd hdb List.not_mem_nil
  obtain ⟨qs, hJ, -⟩ := Pool.sim (J := fun w' qs _ => Budgeting H M L w' qs)
    (fun _ _ _ _ _ _ hJ hok hs => hJ.stmt hok hs)
    (fun w' qs tr i c a q' hJ _ hc => by
      obtain rfl := hc
      rw [Function.update_eq_self]
      exact hJ)
    (fun w' qs _ i _ hJ _ _ => ⟨_, hJ.rollback i⟩)
    (fun _ _ _ _ hJ => ⟨hJ.budgeted, hJ.standing, hJ.exclusive, fun i =>
      ⟨(hJ.sound i).held, (hJ.sound i).under, (hJ.sound i).seen⟩⟩) hstart hfollows h
  have hpos : ∀ k ∈ spentOf M c.store.db, 0 < k.amount_minor_units := fun k hk =>
    (hJ.budgeted.bears k hk).amount
  exact ⟨hJ.budgeted.daily.bound hdaily hpos t, fun cap hcap =>
    (hJ.budgeted.hourly cap hcap).bound (hhourly cap hcap) hpos t⟩

namespace Sample

/-- A mandate for 150 INR a day. -/
def capped : UserPaymentMandate := { mandate with max_daily_amount := 150 }

/-- The agent under that mandate. -/
def budgeted : World :=
  world { db [] [] with agents := [agent ["make_payment"] 1000], mandates := [capped] }

/-- Two payments of 100 INR. -/
def payments : List Request :=
  [.submit_intent ctx proposal, .submit_intent ctx { proposal with idempotency_key := "other" }]

/-- The first goes through before the second comes in. -/
def successive : Pool World Stmt Call Answer Reply :=
  (Pool.start budgeted (payments.map (handler (host false [])))).run machine
    (List.replicate 40 (.run 0 (.ok .null)) ++ [.env 1] ++ List.replicate 40 (.run 1 (.ok .null)))

/-- The second comes in after the first, and overtakes it on the way to the gate. -/
def overtaken : Pool World Stmt Call Answer Reply :=
  (Pool.start budgeted (payments.map (handler (host false [])))).run machine
    (List.replicate 6 (.run 0 (.ok .null)) ++ [.env 1] ++ List.replicate 40 (.run 1 (.ok .null)) ++
      List.replicate 40 (.run 0 (.ok .null)))

end Sample

set_option maxRecDepth 4000 in
/-- One of the two payments is within the budget. -/
theorem budget_kept_successive : windowSum DAY 1 (spentOf Sample.capped Sample.successive.store.db) = 100 ∧
    windowSum DAY 1 (spentOf Sample.capped Sample.successive.store.db) ≤ 150 ∧
    ∀ cap, Sample.capped.max_per_hour = some cap →
      windowSum HOUR 1 (spentOf Sample.capped Sample.successive.store.db) ≤ cap := by
  have horder : Pool.Throughout (InOrder (Sample.host false []) Sample.capped "mandate")
      Sample.successive.trace := Pool.throughout_of_take (by decide +kernel)
  refine ⟨by decide +kernel, @budget_kept (Sample.host false []) Sample.capped "mandate" Sample.payments
    ?_ ?_ ?_ Sample.budgeted rfl ⟨?_, ?_⟩ rfl _ (Pool.reach_of_throughout _ _ .start horder) 1⟩
  · intro r hr
    simp only [Sample.payments, List.mem_cons, List.not_mem_nil, or_false] at hr
    rcases hr with rfl | rfl <;> exact ⟨_, _, rfl⟩
  · decide
  · exact fun _ hcap => absurd (show none = some _ from hcap) nofun
  · exact List.mem_singleton_self _
  · intro a ha _
    rw [List.mem_singleton.mp ha]
    exact ⟨rfl, rfl⟩

set_option maxRecDepth 4000 in
/-- Both payments go through, and exceed the budget together. -/
theorem budget_overtaken :
    Pool.Reach machine Pool.Free (Pool.start Sample.budgeted
      (Sample.payments.map (handler (Sample.host false [])))) Sample.overtaken ∧
    Standing Sample.capped Sample.budgeted.db ∧ (∀ t, 0 ≤ t → t ≤ 1 → Sample.capped.live t = true) ∧
    Sample.capped.max_daily_amount <
      windowSum DAY 1 (spentOf Sample.capped Sample.overtaken.store.db) := by
  refine ⟨Pool.reach_run _ _ _ _ .start, ⟨List.mem_singleton_self _, fun a ha _ => ?_⟩,
    fun t h0 h1 => ?_, by decide +kernel⟩
  · rw [List.mem_singleton.mp ha]
    exact ⟨rfl, rfl⟩
  · have hlt : t < 1000000000000000 := lt_of_le_of_lt h1 (by decide)
    simp [UserPaymentMandate.live, Sample.capped, Sample.mandate, h0, hlt]

end Paari
