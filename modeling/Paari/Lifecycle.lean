import Paari.Adoption
import Paari.Budget
import Paari.Revocation

/-!
# A mandate over its lifetime

A mandate is read in four places: the checks of a new intent, the re-check before an
authorization is executed, the resolution of its state, and the sweep that records its
expiry. What the readers agree on, what the sweep leaves as it was, and the one instant at
which the re-check is more generous than the rest.
-/

namespace Paari

open Atomic

/-! ## The re-check before execution -/

section
variable {H : Host} {w : World} {answers : List Answer} {i : Nat}

/-- The payment of an authorization, as the checks of a new intent would see it. -/
def BoundedAuthorization.payment (auth : BoundedAuthorization) (intent : Option PaymentIntent)
    (now : Instant) : Proposal where
  merchant := auth.merchant
  amount_minor_units := auth.amount_minor_units
  currency := auth.currency
  merchant_category := intent.bind PaymentIntent.merchant_category
  now := now

/-- The row of a mandate that the re-check reads. -/
def heldMandate (db : DB) (agent : Agent) (mandate_id : String) : Option UserPaymentMandate :=
  db.mandates.find? fun m =>
    m.mandate_id == mandate_id && m.agent_id == agent.agent_id && m.org_id == agent.org_id

/-- What the mandate block of the re-check has seen when it accepts. -/
theorem revalidate_mandate_ok {auth : BoundedAuthorization} {agent : Agent} {mandate_id : String}
    {now : Instant}
    (hok : ((revalidate_mandate H auth agent mandate_id now).eval (World.exec i) answers w).value =
      some (.ok ())) :
    ∃ m policy, heldMandate w.db agent mandate_id = some m ∧ m.status = .active ∧
      H.mandate_policy = .ok policy ∧ mandateRefusal H auth m now policy = some none ∧
      categoryAccepted H m (w.db.intents.find? fun x => x.intent_id == auth.intent_id) = true := by
  have hwp : (revalidate_mandate H auth agent mandate_id now).Wp (World.exec i)
      (fun _ _ r => r = some (.ok ()) → ∃ m policy, heldMandate w.db agent mandate_id = some m ∧
        m.status = .active ∧ H.mandate_policy = .ok policy ∧
        mandateRefusal H auth m now policy = some none ∧
        categoryAccepted H m (w.db.intents.find? fun x => x.intent_id == auth.intent_id) = true)
      [] w := by
    refine wp_query ?_
    split
    · exact nofun
    next m hm =>
    split
    · exact nofun
    next policy hpolicy =>
    split
    · exact nofun
    · exact nofun
    next hrefusal =>
    refine wp_query ?_
    split
    · exact nofun
    next hcategory =>
    obtain ⟨hfound, hactive⟩ := Option.filter_eq_some_iff.mp hm
    exact fun _ =>
      ⟨m, policy, hfound, by simpa using hactive, hpolicy, hrefusal, by simpa using hcategory⟩
  exact Prog.eval_spec answers hwp hok

/-- **The two readings of a mandate agree but at the instant it expires.** What the re-check
accepts, the checks of a new intent accept, budgets apart; the mandate is among the active
ones unless this is its last instant. -/
theorem execution_agrees {auth : BoundedAuthorization} {agent : Agent} {mandate_id : String}
    {now : Instant}
    (hok : ((revalidate_mandate H auth agent mandate_id now).eval (World.exec i) answers w).value =
      some (.ok ())) :
    ∃ m policy, heldMandate w.db agent mandate_id = some m ∧ H.mandate_policy = .ok policy ∧
      (m ∈ active_mandates w.db agent.agent_id agent.org_id now ∧
        TermsAccept H m
          (auth.payment (w.db.intents.find? fun x => x.intent_id == auth.intent_id) now)
          policy.require_signed_mandate ↔ now ≠ m.expires_at) := by
  obtain ⟨m, policy, hfound, hactive, hpolicy, hrefusal, hcategory⟩ := revalidate_mandate_ok hok
  obtain ⟨hfrom, hexpires, hsig, hcap, hcurrency, hmerchant⟩ := mandateRefusal_none hrefusal
  have hmem := List.mem_of_find?_eq_some hfound
  have hkey := hfound
  unfold heldMandate at hkey
  replace hkey := List.find?_some hkey
  simp only [Bool.and_eq_true, beq_iff_eq] at hkey
  obtain ⟨⟨-, hagent⟩, horg⟩ := hkey
  refine ⟨m, policy, hfound, hpolicy, fun h => ?_, fun hne => ⟨?_, hsig, hcurrency, hcap, hmerchant,
    fun hlist => ?_⟩⟩
  · obtain ⟨-, hlive⟩ := List.mem_filter.mp ((List.mem_insertionSort _).mp h.1)
    exact ne_of_lt (of_decide_eq_true (Bool.and_eq_true_iff.mp hlive).2)
  · refine (List.mem_insertionSort _).mpr (List.mem_filter.mpr ⟨List.mem_filter.mpr ⟨hmem, ?_⟩, ?_⟩)
    · rw [hagent, horg]
      exact Bool.and_eq_true_iff.mpr ⟨beq_self_eq_true _, beq_self_eq_true _⟩
    · unfold UserPaymentMandate.live
      rw [decide_eq_true hactive, decide_eq_true hfrom, decide_eq_true (lt_of_le_of_ne hexpires hne)]
      rfl
  · exact categoryAccepted_listed hcategory hlist

end

namespace Sample

/-- That mandate, and its authorization, at the given time. -/
def until_expiry (now : Instant) : World :=
  { world { db [mandated] [] with mandates := [mandate] } with clock := now }

end Sample

theorem execution_agrees_before_expiry :
    ((revalidate_mandate (Sample.host false []) Sample.mandated (Sample.agent [] 1000) "mandate" 0).eval
      (World.exec 0) [] (Sample.until_expiry 0)).value = some (.ok ()) ∧
    ∃ m policy, heldMandate (Sample.until_expiry 0).db (Sample.agent [] 1000) "mandate" = some m ∧
      (Sample.host false []).mandate_policy = .ok policy ∧
      (m ∈ active_mandates (Sample.until_expiry 0).db "agent" "default" 0 ∧
        TermsAccept (Sample.host false []) m (Sample.mandated.payment none 0)
          policy.require_signed_mandate ↔ 0 ≠ m.expires_at) :=
  ⟨rfl, @execution_agrees (Sample.host false []) (Sample.until_expiry 0) [] 0 Sample.mandated
    (Sample.agent [] 1000) "mandate" 0 rfl⟩

/-- At its last instant the mandate is no longer active, and executes. -/
theorem expiring_mandate_executes :
    ((revalidate_mandate (Sample.host false []) Sample.mandated (Sample.agent [] 1000) "mandate"
      1000000000000000).eval (World.exec 0) [] (Sample.until_expiry 1000000000000000)).value =
        some (.ok ()) ∧
    active_mandates (Sample.until_expiry 1000000000000000).db "agent" "default" 1000000000000000 = [] ∧
    resolve_state (Sample.until_expiry 1000000000000000).db "agent" "default" 1000000000000000 =
      .lapsed :=
  ⟨rfl, rfl, rfl⟩

/-! ## The sweep -/

/-- The rows the sweep at `s` selects. -/
def UserPaymentMandate.due (s : Instant) (m : UserPaymentMandate) : Bool :=
  decide (m.status = .active) && decide (m.expires_at ≤ s)

/-- What the sweep at `s` leaves of a row. -/
def UserPaymentMandate.swept (s : Instant) (m : UserPaymentMandate) : UserPaymentMandate :=
  if m.due s then { m with status := .expired } else m

section
variable {s t : Instant} {m : UserPaymentMandate}

theorem swept_of_not_due (h : m.due s = false) : m.swept s = m := by
  unfold UserPaymentMandate.swept
  rw [h]
  rfl

theorem due_not_live (hst : s ≤ t) (h : m.due s = true) : m.live t = false := by
  obtain ⟨-, hexpired⟩ := Bool.and_eq_true_iff.mp h
  have hover : ¬t < m.expires_at := not_lt.mpr (le_trans (of_decide_eq_true hexpired) hst)
  unfold UserPaymentMandate.live
  rw [decide_eq_false hover, Bool.and_false]

theorem swept_live (hst : s ≤ t) : (m.swept s).live t = m.live t := by
  cases h : m.due s with
  | false => rw [swept_of_not_due h]
  | true =>
    rw [due_not_live hst h]
    unfold UserPaymentMandate.swept
    rw [h]
    rfl

/-- A row that is live later was not due. -/
theorem swept_of_live (hst : s ≤ t) (h : m.live t = true) : m.swept s = m := by
  refine swept_of_not_due (Bool.eq_false_iff.mpr fun hdue => ?_)
  rw [due_not_live hst hdue] at h
  exact absurd h Bool.false_ne_true

@[simp] theorem swept_mandate_id : (m.swept s).mandate_id = m.mandate_id := by
  unfold UserPaymentMandate.swept
  split <;> rfl

@[simp] theorem swept_agent_id : (m.swept s).agent_id = m.agent_id := by
  unfold UserPaymentMandate.swept
  split <;> rfl

@[simp] theorem swept_org_id : (m.swept s).org_id = m.org_id := by
  unfold UserPaymentMandate.swept
  split <;> rfl

theorem swept_not_due {s' : Instant} (hs : s' ≤ s) : (m.swept s).due s' = false := by
  cases h : m.due s with
  | true =>
    unfold UserPaymentMandate.swept
    rw [h]
    rfl
  | false =>
    rw [swept_of_not_due h]
    refine Bool.eq_false_iff.mpr fun hdue => ?_
    obtain ⟨hactive, hexpired⟩ := Bool.and_eq_true_iff.mp hdue
    have hlater : m.due s = true := by
      unfold UserPaymentMandate.due
      rw [hactive, decide_eq_true (le_trans (of_decide_eq_true hexpired) hs)]
      rfl
    rw [h] at hlater
    exact absurd hlater Bool.false_ne_true

end

/-- The writes of a sweep: each row with the event about it. -/
def expiries : List (UserPaymentMandate × AuditEvent) → Session
  | [] => []
  | (m, e) :: rows => .setMandateStatus m.mandate_id .expired none :: .insertAudit e :: expiries rows

/-- The event that tells of an expiry. -/
def Tells (x : UserPaymentMandate × AuditEvent) : Prop :=
  x.2.transaction_id = "mandate:" ++ x.1.mandate_id ∧ x.2.kind = "user_mandate_expired" ∧
    x.2.detail.lookup "mandate_id" = some (.str x.1.mandate_id)

section
variable {H : Host} {w : World} {calls : List (Call × Option Answer)} {i : Nat}

/-- The event that is recorded tells what it was asked to. -/
theorem wp_record {s : Session} {a : AuditArgs} {α : Type} {k : Session → Handler α}
    {Q : World → List (Call × Option Answer) → Option α → Prop}
    (h : ∀ e, e.transaction_id = a.transaction_id → e.kind = a.kind → e.detail = a.detail →
      (k (s ++ [.insertAudit e])).Wp (World.exec i) Q calls w) :
    (record_audit H s a >>= k).Wp (World.exec i) Q calls w :=
  wp_record_audit (h _ rfl rfl rfl)

theorem expireMandates_wp {ms : List UserPaymentMandate} : ∀ {s : Session},
    (expireMandates H s ms).Wp (World.exec i) (fun w' _ r => w' = w ∧ ∃ rows,
      rows.map Prod.fst = ms ∧ (∀ x ∈ rows, Tells x) ∧ r = some (s ++ expiries rows)) calls w := by
  induction ms with
  | nil => exact fun {s} => ⟨rfl, [], rfl, fun _ h => absurd h List.not_mem_nil, by rw [expiries, List.append_nil]⟩
  | cons m ms ih =>
    intro s
    refine wp_record fun e htrace hkind hdetail => Prog.wp_mono ?_ ih
    intro w' _ r hpost
    obtain ⟨rfl, rows, hrows, htells, rfl⟩ := hpost
    refine ⟨rfl, (m, e) :: rows, by rw [List.map_cons, hrows], fun x hx => ?_, ?_⟩
    · rcases List.mem_cons.mp hx with rfl | hx
      · exact ⟨htrace, hkind, by rw [hdetail]; rfl⟩
      · exact htells x hx
    · rw [List.append_assoc, List.append_assoc]
      rfl

/-- What setting the status of these mandates makes of a row. -/
def expireIn (ids : List String) (r : UserPaymentMandate) : UserPaymentMandate :=
  if ids.contains r.mandate_id then { r with status := .expired } else r

theorem expireIn_cons (id : String) (ids : List String) (r : UserPaymentMandate) :
    expireIn ids (if r.mandate_id == id then
      { r with status := .expired, revoked_at := none.orElse fun _ => r.revoked_at } else r) =
      expireIn (id :: ids) r := by
  unfold expireIn
  rw [List.contains_cons]
  cases hid : r.mandate_id == id with
  | false => rfl
  | true =>
    rw [Bool.true_or, if_pos rfl, if_pos rfl]
    split <;> rfl

/-- The tables after the statuses were set one by one. -/
theorem applyAll_expiries : ∀ (rows : List (UserPaymentMandate × AuditEvent)) (db : DB),
    db.applyAll (expiries rows) = .ok { db with
      mandates := db.mandates.map
        (expireIn ((rows.map Prod.fst).map UserPaymentMandate.mandate_id))
      audits := db.audits ++ rows.map Prod.snd } := by
  intro rows
  induction rows with
  | nil =>
    intro db
    have hid : db.mandates.map (expireIn []) = db.mandates := List.map_id' db.mandates
    rw [List.map_nil, List.map_nil, List.map_nil, List.append_nil, hid]
    rfl
  | cons x rows ih =>
    intro db
    refine (ih _).trans (congrArg Except.ok ?_)
    unfold updateWhere
    rw [List.map_map, List.map_cons, List.map_cons, List.map_cons, List.append_assoc,
      List.singleton_append]
    congr 1
    exact List.map_congr_left fun r _ => expireIn_cons x.1.mandate_id _ r

/-- With unique ids, the rows set are those that were due. -/
theorem expireIn_due {s : Instant} {ms : List UserPaymentMandate}
    (hkeys : (ms.map UserPaymentMandate.mandate_id).Nodup) :
    ms.map (expireIn ((ms.filter (·.due s)).map UserPaymentMandate.mandate_id)) =
      ms.map (·.swept s) := by
  refine List.map_congr_left fun m hm => ?_
  have hids : ((ms.filter (·.due s)).map UserPaymentMandate.mandate_id).contains m.mandate_id = m.due s := by
    rw [Bool.eq_iff_iff, List.contains_iff_mem, List.mem_map]
    constructor
    · intro hsome
      obtain ⟨m', hm', hid⟩ := hsome
      obtain ⟨hmem, hdue⟩ := List.mem_filter.mp hm'
      rw [← List.inj_on_of_nodup_map hkeys hmem hm hid]
      exact hdue
    · exact fun hdue => ⟨m, List.mem_filter.mpr ⟨hm, hdue⟩, rfl⟩
  unfold expireIn UserPaymentMandate.swept
  rw [hids]

/-- The outcome of a sweep. -/
def mandateSweep (H : Host) (i : Nat) (answers : List Answer) (w : World) :
    Prog.Outcome World Call Answer Nat :=
  (sweep_expired_mandates H).eval (World.exec i) answers w

/-- What a sweep does. -/
theorem mandateSweep_spec {answers : List Answer}
    (hkeys : (w.db.mandates.map UserPaymentMandate.mandate_id).Nodup) :
    ∃ rows : List (UserPaymentMandate × AuditEvent),
      rows.map Prod.fst = w.db.mandates.filter (·.due w.clock) ∧ (∀ x ∈ rows, Tells x) ∧
      (mandateSweep H i answers w).value = some rows.length ∧
      (mandateSweep H i answers w).store.db = { w.db with
        mandates := w.db.mandates.map (·.swept w.clock)
        audits := w.db.audits ++ rows.map Prod.snd } := by
  have hdue := expireIn_due (s := w.clock) hkeys
  have hwp : (sweep_expired_mandates H).Wp (World.exec i) (fun w' _ r =>
      ∃ rows : List (UserPaymentMandate × AuditEvent),
        rows.map Prod.fst = w.db.mandates.filter (·.due w.clock) ∧ (∀ x ∈ rows, Tells x) ∧
        r = some rows.length ∧ w'.db = { w.db with
          mandates := w.db.mandates.map (·.swept w.clock)
          audits := w.db.audits ++ rows.map Prod.snd }) [] w := by
    refine wp_now (wp_query (Prog.wp_bind (Prog.wp_mono ?_ expireMandates_wp)))
    intro w' c r hpost
    obtain ⟨rfl, rows, hrows, htells, rfl⟩ := hpost
    have hrows : rows.map Prod.fst = w'.db.mandates.filter (·.due w'.clock) := hrows
    have hlen : (w'.db.mandates.filter (·.due w'.clock)).length = rows.length := by
      rw [← hrows, List.length_map]
    change (if !(w'.db.mandates.filter (·.due w'.clock)).isEmpty then _ else _ : Handler Nat).Wp _ _ _ _
    split
    · refine wp_commit (fun x hx => ?_) fun db' hdb => ?_
      · rw [List.nil_append, applyAll_expiries] at hx
        exact absurd hx nofun
      · rw [List.nil_append, applyAll_expiries, hrows, hdue] at hdb
        exact ⟨rows, hrows, htells, congrArg some hlen, (Except.ok.inj hdb).symm⟩
    · next hempty =>
      have hnone : w'.db.mandates.filter (·.due w'.clock) = [] := by simpa using hempty
      rw [hnone] at hrows hdue
      have hnil : rows = [] := List.map_eq_nil_iff.mp hrows
      -- nothing is due: nothing is written, and the sweep would not change a row
      have hsame : w'.db.mandates.map (·.swept w'.clock) = w'.db.mandates :=
        hdue.symm.trans (List.map_id' w'.db.mandates)
      refine ⟨rows, hrows.trans hnone.symm, htells, congrArg some hlen, ?_⟩
      rw [hsame, hnil, List.map_nil, List.append_nil]
  exact Prog.eval_spec answers hwp

end

/-! ## The readers after a sweep -/

/-- The tables as a sweep at `s` leaves them, with whatever log. -/
def DB.expired (s : Instant) (as : List AuditEvent) (db : DB) : DB :=
  { db with mandates := db.mandates.map (·.swept s), audits := as }

/-- A write of the mandates' table. -/
def Write.OfMandate : Write → Prop
  | .insertMandate _ => True
  | .setMandateStatus _ _ _ => True
  | _ => False

section
variable {s t : Instant} {db : DB} {agent_id org_id : String}

theorem scope_expired (as : List AuditEvent) : scope_query (db.expired s as) agent_id org_id =
    (scope_query db agent_id org_id).map (·.swept s) := by
  unfold scope_query DB.expired
  rw [List.filter_map]
  refine congrArg _ (List.filter_congr fun m _ => ?_)
  dsimp only [Function.comp]
  rw [swept_agent_id, swept_org_id]

/-- A map that spares what a filter keeps. -/
theorem filter_map_kept {α : Type} {f : α → α} {keep : α → Bool} (hkeep : ∀ a, keep (f a) = keep a)
    (hf : ∀ a, keep a = true → f a = a) (xs : List α) : (xs.map f).filter keep = xs.filter keep := by
  rw [List.filter_map, show keep ∘ f = keep from funext hkeep]
  exact (List.map_congr_left fun a ha => hf a (List.mem_filter.mp ha).2).trans (List.map_id _)

/-- A swept mandate had lapsed by the clock already. -/
theorem active_expired (hst : s ≤ t) (as : List AuditEvent) :
    active_mandates (db.expired s as) agent_id org_id t = active_mandates db agent_id org_id t := by
  unfold active_mandates
  rw [scope_expired, filter_map_kept (fun _ => swept_live hst) fun _ => swept_of_live hst]

theorem history_expired (as : List AuditEvent) :
    mandate_history_exists (db.expired s as) agent_id org_id = mandate_history_exists db agent_id org_id := by
  unfold mandate_history_exists
  rw [scope_expired, List.isEmpty_map]

theorem resolve_expired (hst : s ≤ t) (as : List AuditEvent) :
    resolve_state (db.expired s as) agent_id org_id t = resolve_state db agent_id org_id t := by
  unfold resolve_state
  rw [active_expired hst, history_expired]

theorem apply_expired {x : Write} (hx : ¬x.OfMandate) (as : List AuditEvent) :
    ∃ as', (db.expired s as).apply x = (db.apply x).map (DB.expired s as') := by
  cases x with
  | insertMandate r => exact absurd trivial hx
  | setMandateStatus id status revoked_at => exact absurd trivial hx
  | insertAudit e => exact ⟨as ++ [e], rfl⟩
  | updateTxn loaded cur =>
    refine ⟨as, ?_⟩
    unfold DB.apply DB.expired
    dsimp only
    cases db.txns.any (ProviderTransaction.clashes loaded cur) <;> rfl
  | _ =>
    refine ⟨as, ?_⟩
    first
    | rfl
    | unfold DB.apply DB.expired
      dsimp only
      cases insertUnique _ _ _ <;> rfl

theorem applyAll_expired : ∀ {ws : List Write} {db : DB}, (∀ x ∈ ws, ¬x.OfMandate) →
    ∀ as, (∀ d, db.applyAll ws = .ok d → ∃ as', (db.expired s as).applyAll ws = .ok (d.expired s as')) ∧
      ∀ x, db.applyAll ws = .error x → (db.expired s as).applyAll ws = .error x := by
  intro ws
  induction ws with
  | nil =>
    refine fun _ as => ⟨fun d hd => ⟨as, ?_⟩, fun x hx => by simp [DB.applyAll] at hx⟩
    rw [← Except.ok.inj hd]
    rfl
  | cons x ws ih =>
    intro db hws as
    obtain ⟨as', happly⟩ := @apply_expired s db x (hws x List.mem_cons_self) as
    unfold DB.applyAll
    rw [happly]
    cases db.apply x with
    | none => exact ⟨fun d hd => by simp at hd, fun y hy => hy⟩
    | some d => exact ih (fun y hy => hws y (List.mem_cons_of_mem _ hy)) as'

end

/-- The two worlds differ by what a sweep at `s` leaves, and by the log. -/
def Expired (s : Instant) (v v' : World) : Prop :=
  ∃ as, v' = { v with db := v.db.expired s as }

/-- A statement that leaves the mandates alone. -/
def SparesMandates (st : Stmt) : Prop := ∀ ws, st = .commit ws → ∀ x ∈ ws, ¬x.OfMandate

section
variable {s : Instant} {v v' : World} {i : Nat}

theorem expired_rollback (h : Expired s v v') : Expired s (v.rollback i) (v'.rollback i) := by
  obtain ⟨as, rfl⟩ := h
  have hundo : ∀ rs : List Reservation,
      rs.foldr (fun r u => u.setUsage r.authorization_id fun _ => r.usage_count)
        { v with db := v.db.expired s as } =
      (fun u : World => { u with db := u.db.expired s as })
        (rs.foldr (fun r u => u.setUsage r.authorization_id fun _ => r.usage_count) v) := by
    intro rs
    induction rs with
    | nil => rfl
    | cons r rs ih => rw [List.foldr_cons, List.foldr_cons, ih]; rfl
  refine ⟨as, ?_⟩
  unfold World.rollback
  rw [hundo]
  rfl

theorem expired_exec {st : Stmt} (hst : SparesMandates st) (h : Expired s v v') :
    Expired s (v.exec i st) (v'.exec i st) := by
  cases st with
  | select => exact h
  | fresh =>
    obtain ⟨as, rfl⟩ := h
    exact ⟨as, rfl⟩
  | rollback => exact expired_rollback h
  | try_gate g =>
    have hfree : v'.free g = v.free g := by
      obtain ⟨as, rfl⟩ := h
      rfl
    unfold World.exec
    dsimp only
    rw [hfree]
    split
    · obtain ⟨as, rfl⟩ := h
      exact ⟨as, rfl⟩
    · exact expired_rollback h
  | reserve id spend =>
    have hfree : v'.reservable id = v.reservable id := by
      obtain ⟨as, rfl⟩ := h
      rfl
    unfold World.exec
    dsimp only
    rw [hfree]
    split
    · obtain ⟨as, rfl⟩ := h
      exact ⟨as, rfl⟩
    · exact h
  | commit ws =>
    show Expired s (v.commit i ws) (v'.commit i ws)
    -- both commits are accepted, or both are refused and rolled back
    have hroll : Expired s (v.rollback i) (v'.rollback i) := expired_rollback h
    obtain ⟨as, rfl⟩ := h
    obtain ⟨hok, herror⟩ := @applyAll_expired s ws v.db (hst ws rfl) as
    unfold World.commit
    cases hws : v.db.applyAll ws with
    | ok d =>
      obtain ⟨as', hd⟩ := hok d hws
      rw [hd]
      exact ⟨as', rfl⟩
    | error x =>
      rw [herror x hws]
      exact hroll

/-- Two handlers that read the same on such worlds. -/
abbrev Handler.Alike {α β : Type} (s : Instant) (V : α → β → Prop) (p : Handler α) (q : Handler β) :
    Prop :=
  Prog.Alike (Expired s) SparesMandates V p q

theorem alike_eval {α β : Type} {V : α → β → Prop} {p : Handler α} {q : Handler β}
    (h : p.Alike s V q) (answers : List Answer) (hv : Expired s v v') :
    Option.Rel V (p.eval (World.exec i) answers v).value
      (q.eval (World.exec i) answers v').value := by
  have hexec : ∀ st v v', SparesMandates st → Expired s v v' →
      Expired s (World.exec i st v) (World.exec i st v') := fun _ _ _ => expired_exec
  exact (Prog.eval_alike hexec answers h hv).2

section
variable {α β γ δ : Type} {V : α → β → Prop}

theorem alike_query {f : DB → γ} {k : γ → Handler α} {k' : γ → Handler β}
    (hf : ∀ (db : DB) as, f (db.expired s as) = f db) (hk : ∀ c, (k c).Alike s V (k' c)) :
    (Handler.query f >>= k).Alike s V (Handler.query f >>= k') := by
  refine ⟨rfl, fun _ => nofun, fun v v' hv => ?_⟩
  obtain ⟨as, rfl⟩ := hv
  show (k (f v.db)).Alike s V (k' (f (v.db.expired s as)))
  rw [hf]
  exact hk _

/-- Two queries with related answers. -/
theorem alike_query_of {f : DB → γ} {f' : DB → δ} {W : γ → δ → Prop} {k : γ → Handler α}
    {k' : δ → Handler β} (hf : ∀ (db : DB) as, W (f db) (f' (db.expired s as)))
    (hk : ∀ c c', W c c' → (k c).Alike s V (k' c')) :
    (Handler.query f >>= k).Alike s V (Handler.query f' >>= k') := by
  refine ⟨rfl, fun _ => nofun, fun v v' hv => ?_⟩
  obtain ⟨as, rfl⟩ := hv
  exact hk _ _ (hf v.db as)

end

theorem alike_commit {ws : List Write} (hws : ∀ x ∈ ws, ¬x.OfMandate) :
    (Handler.commit ws).Alike s (· = ·) (Handler.commit ws) := by
  refine ⟨rfl, fun ws' h => ?_, fun v v' hv => ?_⟩
  · rw [← Stmt.commit.inj h]
    exact hws
  · obtain ⟨as, rfl⟩ := hv
    obtain ⟨hok, herror⟩ := @applyAll_expired s ws v.db hws as
    dsimp only
    cases hdb : v.db.applyAll ws with
    | ok d =>
      obtain ⟨as', hd⟩ := hok d hdb
      rw [hd]
      exact rfl
    | error x =>
      rw [herror x hdb]
      trivial

theorem alike_tryGate (g : Gate) : (Handler.tryGate g).Alike s (· = ·) (Handler.tryGate g) := by
  refine ⟨rfl, fun _ => nofun, fun v v' hv => ?_⟩
  obtain ⟨as, rfl⟩ := hv
  exact rfl

theorem acquireEach_alike {H : Host} {ids : List String} : ∀ {pending : Session},
    (∀ x ∈ pending, ¬x.OfMandate) →
      (acquireEach H pending ids).Alike s (· = ·) (acquireEach H pending ids) := by
  induction ids with
  | nil => exact fun _ => rfl
  | cons id ids ih =>
    intro pending hpending
    refine Prog.alike_bind (Prog.alike_bind (alike_commit hpending) fun _ _ _ => alike_tryGate _) ?_
    intro got _ heq
    obtain rfl := heq
    split
    · exact rfl
    · exact ih fun x hx => absurd hx List.not_mem_nil

theorem check_one_expired {H : Host} {db : DB} (as : List AuditEvent) (m : UserPaymentMandate)
    (p : Proposal) (signed : Bool) :
    check_one H (db.expired s as) m p signed = check_one H db m p signed := rfl

theorem checkEach_alike {H : Host} {p : Proposal} {signed : Bool} :
    ∀ ms : List UserPaymentMandate,
      (checkEach H p signed ms).Alike s (· = ·) (checkEach H p signed ms) := by
  intro ms
  induction ms with
  | nil => exact rfl
  | cons m ms ih =>
    refine alike_query (fun db as => check_one_expired as m p signed) fun d => ?_
    split
    · trivial
    · refine Prog.alike_bind ih ?_
      intro ds _ heq
      obtain rfl := heq
      exact rfl

theorem evaluate_mandate_alike {H : Host} {pending : Session} {agent_id org_id : String} {p : Proposal}
    {signed : Bool} (hpending : ∀ x ∈ pending, ¬x.OfMandate) (hs : s ≤ p.now) :
    (evaluate_mandate H pending agent_id org_id p signed).Alike s (· = ·)
      (evaluate_mandate H pending agent_id org_id p signed) := by
  refine alike_query (fun db as => active_expired hs as) fun active => ?_
  split
  · exact alike_query (fun db as => history_expired as) fun _ => rfl
  refine Prog.alike_bind (acquireEach_alike hpending) ?_
  intro got _ heq
  obtain rfl := heq
  split
  · exact rfl
  refine alike_query (fun db as => active_expired hs as) fun active => ?_
  split
  · exact rfl
  refine Prog.alike_bind (checkEach_alike _) ?_
  intro ds _ heq
  obtain rfl := heq
  exact rfl

theorem eval_now {β : Type} {k : Instant → Handler β} {answers : List Answer} :
    (Handler.now >>= k).eval (World.exec i) answers v = (k v.clock).eval (World.exec i) answers v :=
  rfl

/-- Of two re-checks, one accepts what the other does. -/
def SameAcceptance {α : Type} (r r' : Except Reply α) : Prop := ∀ a, r = .ok a ↔ r' = .ok a

theorem sameAcceptance_refl {α : Type} (r : Except Reply α) : SameAcceptance r r := fun _ => Iff.rfl

theorem sameAcceptance_error {α : Type} (e e' : Reply) :
    SameAcceptance (.error e : Except Reply α) (.error e') :=
  fun _ => ⟨nofun, nofun⟩

theorem same_value {α : Type} {r r' : Option α} (h : Option.Rel (· = ·) r r') : r = r' := by
  cases h with
  | some h => rw [h]
  | none => rfl

theorem same_acceptance {α : Type} {r r' : Option (Except Reply α)} (h : Option.Rel SameAcceptance r r')
    (a : α) : r = some (.ok a) ↔ r' = some (.ok a) := by
  cases h with
  | some h => rw [Option.some_inj, Option.some_inj, h a]
  | none => exact Iff.rfl

/-- After the instant of the sweep, the mandate block accepts what it would have. -/
theorem revalidate_mandate_alike {H : Host} {auth : BoundedAuthorization} {agent : Agent}
    {mandate_id : String} {now : Instant} (hs : s < now) :
    (revalidate_mandate H auth agent mandate_id now).Alike s SameAcceptance
      (revalidate_mandate H auth agent mandate_id now) := by
  refine alike_query_of (W := fun m m' => m' = m ∨ ∃ r : UserPaymentMandate, m = some r ∧
    r.due s = true ∧ m' = some { r with status := .expired }) (fun db as => ?_) ?_
  · have hfind : (db.expired s as).mandates.find? (fun m => m.mandate_id == mandate_id &&
        m.agent_id == agent.agent_id && m.org_id == agent.org_id) =
      (db.mandates.find? fun m => m.mandate_id == mandate_id && m.agent_id == agent.agent_id &&
        m.org_id == agent.org_id).map (·.swept s) := by
      refine List.find?_map.trans (congrArg (Option.map _) (congrArg (List.find? · _) ?_))
      funext m
      dsimp only [Function.comp]
      rw [swept_mandate_id, swept_agent_id, swept_org_id]
    rw [hfind]
    cases db.mandates.find? _ with
    | none => exact .inl rfl
    | some m =>
      cases hdue : m.due s with
      | false => exact .inl (congrArg some (swept_of_not_due hdue))
      | true =>
        exact .inr ⟨m, rfl, hdue, congrArg some (if_pos hdue)⟩
  intro m _ hpost
  obtain rfl | ⟨m, rfl, hdue, rfl⟩ := hpost
  · split
    · exact sameAcceptance_refl _
    split
    · exact sameAcceptance_refl _
    split
    · trivial
    · exact sameAcceptance_refl _
    refine alike_query (fun _ _ => rfl) fun intent => ?_
    split
    · exact sameAcceptance_refl _
    · exact sameAcceptance_refl _
  -- The row that was swept is refused for its status, the other for its window.
  · obtain ⟨hactive, hexpired⟩ := Bool.and_eq_true_iff.mp hdue
    have hlate : m.expires_at < now := lt_of_le_of_lt (of_decide_eq_true hexpired) hs
    rw [Option.filter_some, if_pos hactive, Option.filter_some, if_neg (by simp)]
    dsimp only
    split
    · exact sameAcceptance_error _ _
    next policy _ =>
    have hrefused : mandateRefusal H auth m now policy =
        some (some (http 403 "User payment mandate is outside its validity window")) :=
      if_pos (.inl hlate)
    rw [hrefused]
    exact sameAcceptance_error _ _

/-- So does the whole re-check. -/
theorem revalidate_execution_expired {H : Host} {auth : BoundedAuthorization} (answers : List Answer)
    (hs : s < v.clock) (hv : Expired s v v') :
    Option.Rel SameAcceptance ((revalidate_execution H auth).eval (World.exec i) answers v).value
      ((revalidate_execution H auth).eval (World.exec i) answers v').value := by
  unfold revalidate_execution
  rw [eval_query, eval_now, eval_query, eval_now]
  have hclock : v'.clock = v.clock := by
    obtain ⟨as, rfl⟩ := hv
    rfl
  -- the queries before the mandate block read no mandate, so both runs refuse alike
  have hagents : v'.db.agents = v.db.agents := by
    obtain ⟨as, rfl⟩ := hv
    rfl
  rw [hclock, hagents]
  refine alike_eval ?_ answers hv
  split
  · exact sameAcceptance_refl _
  refine alike_query (fun _ _ => rfl) fun parent => ?_
  split
  · exact sameAcceptance_refl _
  split
  · exact sameAcceptance_refl _
  refine alike_query (fun _ _ => rfl) fun cred => ?_
  split
  · exact sameAcceptance_refl _
  split
  · exact sameAcceptance_refl _
  split
  · exact sameAcceptance_refl _
  refine Prog.alike_bind (revalidate_mandate_alike hs) fun r r' h => ?_
  cases r with
  | ok u =>
    obtain rfl := (h u).mp rfl
    exact sameAcceptance_refl _
  | error e =>
    cases r' with
    | ok u => exact absurd ((h u).mpr rfl) nofun
    | error e' => exact sameAcceptance_error e e'

end

/-- **Sweeping is neutral.** At `t`, no earlier than the sweep, the readers answer as if it
had not run; it touches the status of the rows that were due and nothing else, with one
event about each; and it leaves nothing for an earlier sweep to do. -/
theorem sweep_neutral {H : Host} {i : Nat} {answers : List Answer} {w : World}
    (hkeys : (w.db.mandates.map UserPaymentMandate.mandate_id).Nodup) :
    -- what it changes
    (∃ rows : List (UserPaymentMandate × AuditEvent),
      rows.map Prod.fst = w.db.mandates.filter (·.due w.clock) ∧ (∀ x ∈ rows, Tells x) ∧
      (mandateSweep H i answers w).value = some rows.length ∧
      (mandateSweep H i answers w).store.db = { w.db with
        mandates := w.db.mandates.map (·.swept w.clock)
        audits := w.db.audits ++ rows.map Prod.snd }) ∧
    -- the readers of the lifecycle
    (∀ t, w.clock ≤ t → ∀ agent_id org_id,
      active_mandates (mandateSweep H i answers w).store.db agent_id org_id t =
        active_mandates w.db agent_id org_id t ∧
      resolve_state (mandateSweep H i answers w).store.db agent_id org_id t =
        resolve_state w.db agent_id org_id t) ∧
    -- the checks of a new intent
    (∀ (v : World) (j : Nat) (answers' : List Answer) (pending : Session) (agent_id org_id : String)
      (p : Proposal) (signed : Bool), v.db = w.db → w.clock ≤ p.now → (∀ x ∈ pending, ¬x.OfMandate) →
      ((evaluate_mandate H pending agent_id org_id p signed).eval (World.exec j) answers'
        { v with db := (mandateSweep H i answers w).store.db }).value =
      ((evaluate_mandate H pending agent_id org_id p signed).eval (World.exec j) answers' v).value) ∧
    -- the re-check before execution
    (∀ (v : World) (j : Nat) (answers' : List Answer) (auth : BoundedAuthorization) (agent : Agent),
      v.db = w.db → w.clock < v.clock →
      (((revalidate_execution H auth).eval (World.exec j) answers'
        { v with db := (mandateSweep H i answers w).store.db }).value = some (.ok agent) ↔
      ((revalidate_execution H auth).eval (World.exec j) answers' v).value = some (.ok agent))) ∧
    -- a second sweep
    ∀ (v : World) (j : Nat) (answers' : List Answer), v.db = (mandateSweep H i answers w).store.db →
      v.clock ≤ w.clock →
      (mandateSweep H j answers' v).value = some 0 ∧ (mandateSweep H j answers' v).store = v := by
  obtain ⟨rows, hrows, htells, hvalue, hdb⟩ := @mandateSweep_spec H w i answers hkeys
  have hexpired : (mandateSweep H i answers w).store.db =
      w.db.expired w.clock (w.db.audits ++ rows.map Prod.snd) := hdb
  have hworld : ∀ v : World, v.db = w.db →
      Expired w.clock v { v with db := (mandateSweep H i answers w).store.db } := by
    intro v hv
    exact ⟨w.db.audits ++ rows.map Prod.snd, by rw [hexpired, hv]⟩
  refine ⟨⟨rows, hrows, htells, hvalue, hdb⟩, fun t ht agent_id org_id => ?_, ?_, ?_, ?_⟩
  · rw [hexpired]
    exact ⟨active_expired ht _, resolve_expired ht _⟩
  · intro v j answers' pending agent_id org_id p signed hv hnow hpending
    have halike := @evaluate_mandate_alike w.clock H pending agent_id org_id p signed hpending hnow
    have hrel := alike_eval (i := j) halike answers' (hworld v hv)
    exact (same_value hrel).symm
  · intro v j answers' auth agent hv hlater
    have hrel := @revalidate_execution_expired w.clock v _ j H auth answers' hlater (hworld v hv)
    exact (same_acceptance hrel agent).symm
  · intro v j answers' hv hearlier
    have hnone : v.db.mandates.filter (·.due v.clock) = [] := by
      rw [hv, hexpired]
      refine List.filter_eq_nil_iff.mpr fun m hm => ?_
      obtain ⟨r, -, rfl⟩ := List.mem_map.mp hm
      rw [swept_not_due hearlier]
      exact Bool.false_ne_true
    unfold mandateSweep sweep_expired_mandates
    rw [eval_now, eval_query]
    have hrows : v.db.mandates.filter (fun m => decide (m.status = .active) &&
        decide (m.expires_at ≤ v.clock)) = [] := hnone
    rw [hrows]
    exact ⟨rfl, rfl⟩

theorem sweep_neutral_expired :
    resolve_state (mandateSweep (Sample.host false []) 0 [] (Sample.until_expiry 1000000000000000)).store.db
        "agent" "default" 1000000000000000 =
      resolve_state (Sample.until_expiry 1000000000000000).db "agent" "default" 1000000000000000 :=
  ((@sweep_neutral (Sample.host false []) 0 [] (Sample.until_expiry 1000000000000000)
    (by decide)).2.1 _ (by decide) "agent" "default").2

end Paari
