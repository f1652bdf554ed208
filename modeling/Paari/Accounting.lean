import Paari.Bookkeeping
import Paari.Revocation

/-!
# The trail of a payment accounts for its state

In a run in which no consumption of the payment settles anything and no review expires
on its trace, its audit trail accounts for its state after every request
(`trail_accounts`). The two conditions name what the code does not account for: a
consumption tells its first change twice and its failures not at all, and an expired
review is told under the names of a state change.
-/

namespace Paari

open Atomic

variable {H : Host} {w : World} {i : Nat} {t : String} {calls : List (Call × Option Answer)}

/-! ## Requests that tell of no state -/

theorem Stable.wp {P : Write → Prop} {K : DB → Prop} (h : Stable P K) {α : Type} {R : α → Prop}
    {p : Handler α} (hp : p.Writes P R) (hK : K w.db) :
    p.Wp (World.exec i) (fun w' _ res => K w'.db ∧ ∀ a, res = some a → R a) calls w :=
  hp.wp (K := fun w => K w.db) (fun _ _ hs hK => h.exec i hs hK) hK calls

theorem Stable.mono {P P' : Write → Prop} {K : DB → Prop} (h : Stable P' K) (hP : ∀ x, P x → P' x) :
    Stable P K where
  write := fun db db' x hx => h.write db db' x (hP x hx)
  use := h.use

theorem muted_keeps {α : Type} {R : α → Prop} {p : Handler α} (hb : Books t w.db)
    (hp : p.Writes (Write.Mute t none) R) : Keeps t i p calls w :=
  Prog.wp_mono (fun _ _ _ h => h.1.1) ((beside_stable t none).wp hp hb.beside)

theorem Write.Notes.mute {x : Write} (h : x.Notes) (id : Option String) : x.Mute t id := by
  rcases h with ⟨e, rfl, he⟩ | ⟨p, rfl⟩
  · exact fun _ => he
  · trivial

/-- Only `mfa_verify` mints among the requests whose events tell of no state. -/
theorem Request.Quiet.mute {r : Request} (hr : r.quiet = true) (hmint : ∀ req, r ≠ .mfa_verify req)
    {x : Write} (hx : r.Quiet x) : x.Mute t none := by
  rcases hx with hx | hx
  · exact hx.mute none
  · cases r with
    | mfa_verify req => exact absurd rfl (hmint req)
    | sweep key => exact absurd hr (by simp [Request.quiet])
    | submit_intent ctx req => exact absurd hr (by simp [Request.quiet])
    | consume ctx id token => exact absurd hr (by simp [Request.quiet])
    | revoke_authorization ctx id token => exact absurd hr (by simp [Request.quiet])
    | webhook raw signature => exact absurd hr (by simp [Request.quiet])
    | refund ctx id req => exact absurd hr (by simp [Request.quiet])
    | reconcile ctx id token => exact absurd hr (by simp [Request.quiet])
    | batch n => exact absurd hr (by simp [Request.quiet])
    | _ => cases x <;> first | trivial | simp [Request.mayWrite, Write.Enrols] at hx

theorem writes_reserve {P : Write → Prop} {β : Type} {R : β → Prop} {id : String} {spend : Spend}
    {k : Bool → Handler β} (h : ∀ b, (k b).Writes P R) :
    (Handler.reserve id spend >>= k).Writes P R :=
  fun _ => ⟨(), fun _ hs => absurd hs (by simp), h _⟩

theorem revoke_authorization_writes (ctx : RequestContext) (id token : String) :
    (revoke_authorization H ctx id token).Writes Write.Notes fun _ => True := by
  refine Handler.writes_query fun auth => ?_
  split
  · trivial
  refine writes_authenticated fun a ha => writes_reserve fun burned => ?_
  split
  · exact fun _ => ⟨(), fun _ hs => absurd hs (by simp), trivial⟩
  · refine Handler.writes_record_audit fun e he _ => Handler.writes_commit ?_ trivial
    exact (ha.notes fun _ h => h).append (Session.all_one (Write.notes_audit he rfl))

/-! ## The sweep -/

/-- Notes, and mandates that expire. -/
def Write.Aside (x : Write) : Prop := x.Notes ∨ ∃ id, x = .setMandateStatus id .expired none

theorem Write.Aside.mute {x : Write} (h : x.Aside) (id : Option String) : x.Mute t id := by
  rcases h with h | ⟨k, rfl⟩
  · exact h.mute id
  · trivial

/-- They leave the intents. -/
theorem Write.Aside.intents {x : Write} {db db' : DB} (hx : x.Aside) (h : db.apply x = some db') :
    db'.intents = db.intents := by
  refine (Frame.of_apply h).intents ?_
  rcases hx with (⟨e, rfl, -⟩ | ⟨p, rfl⟩) | ⟨k, rfl⟩ <;> exact nofun

theorem aside_stable (t : String) (intents : List PaymentIntent) :
    Stable Write.Aside fun db => Beside t none db ∧ db.intents = intents where
  write := by
    rintro db db' x hx h ⟨hb, hintents⟩
    exact ⟨(beside_stable t none).write db db' x (hx.mute none) h hb, (hx.intents h).trans hintents⟩
  use := fun db as hterms h => ⟨(beside_stable t none).use db as hterms h.1, h.2⟩

theorem rollback_clock (i : Nat) (w : World) : (w.rollback i).clock = w.clock := by
  unfold World.rollback World.release
  dsimp only
  generalize w.reserved.filter (fun r => decide (r.session = i)) = rs
  induction rs with
  | nil => rfl
  | cons r rs ih => exact ih

theorem exec_clock (i : Nat) (s : Stmt) (w : World) : (w.exec i s).clock = w.clock := by
  cases s with
  | select => rfl
  | fresh => rfl
  | rollback => exact rollback_clock i w
  | try_gate g =>
    unfold World.exec
    dsimp only
    split
    · rfl
    · exact rollback_clock i w
  | reserve id spend =>
    unfold World.exec
    dsimp only
    split <;> rfl
  | commit ws =>
    show (w.commit i ws).clock = _
    unfold World.commit
    split
    · rfl
    · exact rollback_clock i w

theorem sweep_keeps (hb : Books t w.db) (key : String)
    (hstale : (∃ u, H.require_admin key = .ok u) →
      ∀ j ∈ w.db.intents, j.stale w.clock = true → j.transaction_id ≠ t) :
    Keeps t i (sweep_mandate_lifecycle H key) calls w := by
  unfold sweep_mandate_lifecycle
  cases hadmin : H.require_admin key with
  | error e => exact hb
  | ok u =>
    have hstale := hstale ⟨u, hadmin⟩
    have hexpired : (sweep_expired_mandates H).Wp (World.exec i) (fun w' _ _ =>
        (Beside t none w'.db ∧ w'.db.intents = w.db.intents) ∧ w'.clock = w.clock) calls w := by
      refine Prog.wp_mono (fun _ _ _ h => h.1) ((sweep_expired_mandates_writes (P := Write.Aside)
        (fun _ => .inl) fun id => .inr ⟨id, rfl⟩).wp (K := fun w' =>
          (Beside t none w'.db ∧ w'.db.intents = w.db.intents) ∧ w'.clock = w.clock)
            (fun w' s hs hK => ?_) ⟨⟨hb.beside, rfl⟩, rfl⟩ calls)
      exact ⟨(aside_stable t w.db.intents).exec i hs hK.1, (exec_clock i s w').trans hK.2⟩
    show (sweep_expired_mandates H >>= _ : Handler Reply).Wp _ _ _ _
    refine Prog.wp_bind (Prog.wp_mono ?_ hexpired)
    rintro w' c r ⟨⟨hb', hintents⟩, hclock⟩
    cases r with
    | none => exact hb'.1
    | some n =>
      refine Prog.wp_bind (wp_now (wp_query ?_))
      have hrows : ∀ j ∈ w'.db.intents.filter (fun j => j.stale w'.clock), j.transaction_id ≠ t := by
        intro j hj
        obtain ⟨hmem, hj⟩ := List.mem_filter.mp hj
        rw [hintents] at hmem
        rw [hclock] at hj
        exact hstale j hmem hj
      -- every event is on the trace of its own review
      refine Prog.wp_bind (Prog.wp_mono ?_ ((beside_stable t none).wp (expireReviews_writes
        (P := Write.Mute t none) (fun _ _ _ => trivial) _ (fun j hj e he htrace =>
          absurd (he.symm.trans htrace) (hrows j hj)) Session.all_nil) hb'))
      rintro w'' c' r' ⟨hb'', hs⟩
      cases r' with
      | none => exact hb''.1
      | some s =>
        have hs := hs s rfl
        dsimp only
        split
        · refine wp_commit (fun _ _ => hb''.1.rollback i) fun db' hdb' => ?_
          exact (applyAll_keeps_all (beside_stable t none).write hs hdb' hb'').1
        · exact hb''.1

/-! ## Minting -/

theorem wp_tryCommit {α : Type} {ws : List Write} {k : Except Write Unit → Handler α}
    {Q : World → List (Call × Option Answer) → Option α → Prop}
    (hdone : ∀ db', w.db.applyAll ws = .ok db' →
      (k (.ok ())).Wp (World.exec i) Q calls ({ w with db := db' }.release i))
    (hlost : ∀ x, w.db.applyAll ws = .error x →
      (k (.error x)).Wp (World.exec i) Q calls (w.rollback i)) :
    (Handler.tryCommit ws >>= k).Wp (World.exec i) Q calls w := by
  show (k ((w.db.applyAll ws).map fun _ => ())).Wp (World.exec i) Q calls (w.commit i ws)
  unfold World.commit
  cases hdb : w.db.applyAll ws with
  | ok db' => exact hdone db' hdb
  | error x => exact hlost x hdb

/-- The row that a transaction inserted is the only one with its id. -/
theorem inserted_intent {db db' : DB} {ws : List Write} {intent : PaymentIntent}
    (hws : ∀ x ∈ ws, x.Aside ∨ x = .insertIntent intent) (hmem : .insertIntent intent ∈ ws)
    (h : db.applyAll ws = .ok db') :
    intent ∈ db'.intents ∧ ∀ j ∈ db'.intents, j.intent_id = intent.intent_id → j = intent := by
  have hrows : ∀ db db' : DB, db.apply (.insertIntent intent) = some db' →
      db'.intents = db.intents ++ [intent] ∧ ∀ j ∈ db.intents, j.intent_id ≠ intent.intent_id := by
    intro db db' h
    rcases apply_intents h with ⟨j, hj, heq, hnew⟩ | ⟨_, _, _, _, habs, -⟩ | hsame
    · obtain rfl := Write.insertIntent.inj hj
      exact ⟨heq, fun j hj => (hnew j hj).1⟩
    · exact absurd habs (by simp)
    · obtain ⟨rows, hrows, heq⟩ := Option.bind_eq_some_iff.mp h
      obtain ⟨rfl, -⟩ := insertUnique_eq hrows
      rw [← Option.some.inj heq] at hsame
      exact absurd hsame (by simp)
  refine applyAll_brings (J := fun _ => True) (P := fun x => x.Aside ∨ x = .insertIntent intent)
    (K := fun db => intent ∈ db.intents ∧ ∀ j ∈ db.intents, j.intent_id = intent.intent_id → j = intent)
    (fun _ _ _ _ _ _ _ => trivial) ?_ ?_ hmem hws h trivial
  · intro db db' hap _
    obtain ⟨heq, hnew⟩ := hrows db db' hap
    rw [heq]
    refine ⟨List.mem_append_right _ (List.mem_singleton_self _), fun j hj hid => ?_⟩
    rcases List.mem_append.mp hj with hj | hj
    · exact absurd hid (hnew j hj)
    · exact List.mem_singleton.mp hj
  · rintro db db' x (hx | rfl) hap ⟨hin, hk⟩
    · rw [hx.intents hap]
      exact ⟨hin, hk⟩
    · exact absurd rfl ((hrows db db' hap).2 intent hin)

section
variable {s : Session} {agent : Agent} {req : PaymentIntentRequest}

/-- The agent has no intent under the request's idempotency key. -/
def DB.Unclaimed (db : DB) (agent : Agent) (req : PaymentIntentRequest) : Prop :=
  db.intents.find? (fun i => i.agent_id == agent.agent_id && i.idempotency_key == req.idempotency_key) = none

/-- The writes of `_record_intent`. -/
def Write.Records (x : Write) : Prop := x.Aside ∨ ∃ intent, x = .insertIntent intent

theorem Write.Records.mute {x : Write} (h : x.Records) (t : String) : x.Mute t none := by
  rcases h with h | ⟨intent, rfl⟩
  · exact h.mute none
  · trivial

theorem records_stable (t : String) : Stable Write.Records (Beside t none) :=
  (beside_stable t none).mono fun _ h => h.mute t

variable {K : DB → Prop}

/-- The transaction of `_record_intent`. -/
theorem recorded_keeps {db db' : DB} (hstable : Stable Write.Records K) (hK : K db)
    (hs : s.All Write.Aside) {intent : PaymentIntent} {e e' : AuditEvent} (he : e.pair = none)
    (he' : e'.pair = none)
    (hdb : db.applyAll (s ++ [.insertIntent intent] ++ [.insertAudit e] ++ [.insertAudit e']) = .ok db') :
    K db' ∧ intent ∈ db'.intents ∧ ∀ j ∈ db'.intents, j.intent_id = intent.intent_id → j = intent := by
  have hwrites : ∀ x ∈ s ++ [.insertIntent intent] ++ [.insertAudit e] ++ [.insertAudit e'],
      x.Aside ∨ x = .insertIntent intent := by
    intro x hx
    rcases List.mem_append.mp hx with hx | hx
    · rcases List.mem_append.mp hx with hx | hx
      · rcases List.mem_append.mp hx with hx | hx
        · exact .inl (hs x hx)
        · exact .inr (List.mem_singleton.mp hx)
      · rw [List.mem_singleton.mp hx]
        exact .inl (.inl (.inl ⟨e, rfl, he⟩))
    · rw [List.mem_singleton.mp hx]
      exact .inl (.inl (.inl ⟨e', rfl, he'⟩))
  have hmem : Write.insertIntent intent ∈
      s ++ [.insertIntent intent] ++ [.insertAudit e] ++ [.insertAudit e'] := by simp
  obtain ⟨hin, hown⟩ := inserted_intent hwrites hmem hdb
  exact ⟨applyAll_keeps_all hstable.write (fun x hx => (hwrites x hx).imp id fun hx => ⟨_, hx⟩) hdb hK,
    hin, hown⟩

/-- What `_record_intent` returns is the request's own intent, as it is stored. -/
theorem record_intent_wp (hstable : Stable Write.Records K) (hK : K w.db) (hs : s.All Write.Aside)
    (hslot : w.db.Unclaimed agent req) (v : Verdict) :
    (record_intent H s agent req v).Wp (World.exec i) (fun w' _ res => K w'.db ∧
      ∀ intent, res = some intent → intent ∈ w'.db.intents ∧
        ∃ intent_id created_at, intent = intentRow agent req v intent_id created_at) calls w := by
  have hdied : ∀ {db : DB}, K db → K db ∧ ∀ intent : PaymentIntent, none = some intent →
      intent ∈ db.intents ∧ ∃ intent_id created_at, intent = intentRow agent req v intent_id created_at :=
    fun hK => ⟨hK, fun _ h => absurd h (by simp)⟩
  refine wp_now (wp_fresh (wp_query (wp_record_audit (wp_record_audit (wp_tryCommit ?_ ?_)))))
  · intro db' hdb'
    obtain ⟨hK', hin, hown⟩ := recorded_keeps hstable hK hs (by exact proposedAudit_mute _ _ _ _)
      (by rfl) hdb'
    refine wp_query ⟨hK', fun intent hintent => ?_⟩
    obtain rfl := Option.some.inj hintent
    -- the row read back is the one inserted
    have hfind : db'.intents.find? (fun j => j.intent_id == H.uuid4 w.next) =
        some (intentRow agent req v (H.uuid4 w.next) (v.now.getD w.clock)) := by
      cases hfind : db'.intents.find? fun j => j.intent_id == H.uuid4 w.next with
      | none => exact absurd (List.find?_eq_none.mp hfind _ hin) (by simp [intentRow])
      | some j =>
        have hid : j.intent_id = H.uuid4 w.next := by simpa using List.find?_some hfind
        exact congrArg some (hown j (List.mem_of_find?_eq_some hfind) hid)
    show Option.getD (db'.intents.find? fun j => j.intent_id == H.uuid4 w.next) _ ∈ db'.intents ∧
      ∃ intent_id created_at, Option.getD (db'.intents.find? fun j => j.intent_id == H.uuid4 w.next) _ =
        intentRow agent req v intent_id created_at
    rw [hfind]
    exact ⟨hin, _, _, rfl⟩
  · intro x _
    -- the slot is still free: no other request's intent stands there
    have hfree : (({ w with next := w.next + 1 } : World).rollback i).db.Unclaimed agent req := by
      unfold DB.Unclaimed
      rw [rollback_db]
      exact hslot
    have hK' : K (({ w with next := w.next + 1 } : World).rollback i).db :=
      hstable.rollback (w := { w with next := w.next + 1 }) i hK
    split
    · next habs => exact absurd habs (by simp)
    · refine wp_query ?_
      split
      · next existing hexisting => exact absurd (hfree.symm.trans hexisting) (by simp)
      · exact hdied hK'
    · exact hdied hK'

end

/-- Minting within a transaction. What is told besides is that the new payment is
`AUTHORIZED`. -/
theorem Books.minted {db db' : DB} (hb : Books t db) {a : BoundedAuthorization} {p post : Session}
    (hpre : p.All (Write.Mute t none))
    (hpost : ∀ x ∈ post, x.Mute t none ∨ ∃ e, x = .insertAudit e ∧
      e.transaction_id = a.transaction_id ∧ e.pair = some ("AUTHORIZED", "AUTHORIZED"))
    (hdb : db.applyAll (p ++ .insertAuthorization a :: .insertTxn (record_provider_txn a) :: post) =
      .ok db') : Books t db' := by
  induction p generalizing db with
  | cons x p ih =>
    obtain ⟨mid, hmid, hrest⟩ := applyAll_cons hdb
    refine ih ?_ (fun y hy => hpre y (List.mem_cons_of_mem _ hy)) hrest
    exact ((beside_stable t none).write db mid x (hpre x List.mem_cons_self) hmid hb.beside).1
  | nil =>
    obtain ⟨mid, hmid, hrest⟩ := applyAll_cons hdb
    obtain ⟨mid', hmid', hrest'⟩ := applyAll_cons hrest
    obtain ⟨hb', hnew⟩ := hb.mint hmid hmid'
    refine (applyAll_keeps_all (K := fun db => Books t db ∧ (a.transaction_id = t →
      ∃ u ∈ db.users, u.2 = t ∧ (db.Sole t u → db.foundState u.1 = .AUTHORIZED))) ?_ hpost hrest'
      ⟨hb', hnew⟩).1
    rintro db db' x hx hap ⟨hb, hnew⟩
    have hmuted : ∀ {x : Write}, x.Mute t none ∨ (∃ e, x = .insertAudit e) → db.apply x = some db' →
        db'.users = db.users ∧ ∀ k, db'.foundState k = db.foundState k := by
      rintro x (hx | ⟨e, rfl⟩) hap
      · refine ⟨hx.users hap, fun k => ?_⟩
        unfold DB.foundState
        rw [apply_stateOf hap, hx.onState (by simp)]
      · obtain rfl := Option.some.inj hap
        exact ⟨rfl, fun _ => rfl⟩
    obtain ⟨husers, hstate⟩ := hmuted (hx.imp id fun ⟨e, he, _⟩ => ⟨e, he⟩) hap
    refine ⟨?_, fun htrace => ?_⟩
    · rcases hx with hx | ⟨e, rfl, htrace, hpair⟩
      · exact ((beside_stable t none).write db db' x hx hap hb.beside).1
      · refine hb.audit (fun het => ?_) hap
        obtain ⟨u, hu, hut, hstart⟩ := hnew (htrace.symm.trans het)
        refine ⟨u, hu, hut, fun hsole => ?_⟩
        rw [hstart hsole, hpair]
        exact if_pos rfl
    · obtain ⟨u, hu, hut, hstart⟩ := hnew htrace
      refine ⟨u, husers ▸ hu, hut, fun hsole => ?_⟩
      rw [hstate]
      refine hstart ?_
      unfold DB.Sole at hsole ⊢
      rwa [husers] at hsole

/-- What an authorization takes over from its intent. -/
structure BoundedAuthorization.MintedFor (a : BoundedAuthorization) (j : PaymentIntent) : Prop where
  trace : a.transaction_id = j.transaction_id
  agent : a.agent_id = j.agent_id
  intent : a.intent_id = j.intent_id
  amount : a.amount_minor_units = j.amount_minor_units
  currency : a.currency = j.currency

theorem mint_reads (intent : PaymentIntent) :
    (mint_bounded_authorization H intent).Reads fun a => a.MintedFor intent :=
  Handler.reads_now fun _ => Handler.reads_now fun _ => ⟨rfl, rfl, rfl, rfl, rfl⟩

theorem wp_mint {α : Type} {intent : PaymentIntent} {k : BoundedAuthorization → Handler α}
    {Q : World → List (Call × Option Answer) → Option α → Prop} (hdied : Q w calls none)
    (hk : ∀ a : BoundedAuthorization, a.MintedFor intent → (k a).Wp (World.exec i) Q calls w) :
    (mint_bounded_authorization H intent >>= k).Wp (World.exec i) Q calls w := by
  refine Prog.wp_bind (Prog.wp_mono ?_ (reads_wp (mint_reads intent)))
  rintro w' c r ⟨rfl, rfl, hr⟩
  cases r with
  | none => exact hdied
  | some a => exact hk a (hr a rfl)

section
variable {s : Session} {agent : Agent} {parent : ParentAuthority} {req : PaymentIntentRequest}

theorem allow_keeps (hb : Books t w.db) (hs : s.All Write.Aside) (hslot : w.db.Unclaimed agent req)
    (now : Instant) (results : List PolicyResult) :
    Keeps t i (allow H s agent parent req now results) calls w := by
  refine Prog.wp_bind (Prog.wp_mono ?_ (record_intent_wp (records_stable t) hb.beside hs hslot _))
  rintro w' c r ⟨⟨hb', -⟩, hintent⟩
  cases r with
  | none => exact hb'
  | some intent =>
    obtain ⟨-, intent_id, created_at, rfl⟩ := hintent intent rfl
    refine wp_mint hb' fun a ha => wp_record_audit
      (wp_commit (fun _ _ => hb'.rollback i) fun db' hdb' => ?_)
    refine hb'.minted (p := []) Session.all_nil (fun x hx => .inr ?_) hdb'
    exact ⟨_, List.mem_singleton.mp hx, ha.trace.symm, rfl⟩

theorem decide_intent_keeps (hb : Books t w.db) (hs : s.All Write.Aside)
    (hslot : w.db.Unclaimed agent req) (now : Instant) (d : MandateDecision) :
    Keeps t i (decide_intent H s agent parent req now d) calls w := by
  refine wp_query ?_
  dsimp only
  split
  · refine Prog.wp_bind (Prog.wp_mono ?_ (record_intent_wp (records_stable t) hb.beside hs hslot _))
    rintro w' c r ⟨⟨hb', -⟩, -⟩
    cases r <;> exact hb'
  · exact allow_keeps hb hs hslot now _

theorem deny_keeps (hb : Books t w.db) (hs : s.All Write.Aside) (check : String)
    (reasons : List String) : Keeps t i (deny H s agent req check reasons) calls w :=
  muted_keeps hb (deny_writes (fun _ h => h.mute none) (fun _ => trivial)
    (fun x hx => (hs x hx).mute none) _ _ _ _)

theorem mandate_layer_keeps (hb : Books t w.db) (hs : s.All Write.Aside)
    (hslot : w.db.Unclaimed agent req) (now : Instant) (policy : Host.MandatePolicy) :
    Keeps t i (mandate_layer H s agent parent req now policy) calls w := by
  refine Prog.wp_bind (Prog.wp_mono ?_ ((aside_stable t w.db.intents).wp
    (evaluate_mandate_writes hs _ _ _ _) ⟨hb.beside, rfl⟩))
  rintro w' c r ⟨⟨hb', hintents⟩, hr⟩
  cases r with
  | none => exact hb'.1
  | some r =>
    obtain ⟨d, pending⟩ := r
    have hs' : pending.All Write.Aside := hr _ rfl
    have hslot' : w'.db.Unclaimed agent req := by
      unfold DB.Unclaimed
      rw [hintents]
      exact hslot
    dsimp only
    split
    · exact deny_keeps hb'.1 hs' _ _
    · split
      · exact deny_keeps hb'.1 hs' _ _
      · split
        · exact deny_keeps hb'.1 hs' _ _
        · refine decide_intent_keeps hb'.1 hs' ?_ now _
          exact hslot'

end

theorem submit_payment_intent_keeps (hb : Books t w.db) (ctx : RequestContext)
    (req : PaymentIntentRequest) : Keeps t i (submit_payment_intent H ctx req) calls w := by
  refine wp_authenticated hb (fun _ => hb) fun tok a _ ha => ?_
  have hs : a.pending.All Write.Aside := ha.pending.notes fun _ => .inl
  dsimp only
  split
  · exact hb
  refine wp_now (wp_query ?_)
  split
  · exact wp_query hb
  next hslot =>
  refine wp_query ?_
  split
  · exact deny_keeps hb hs _ _
  split
  · exact deny_keeps hb hs _ _
  split
  · exact hb
  · exact deny_keeps hb hs _ _
  split
  · exact hb
  · refine mandate_layer_keeps hb hs ?_ _ _
    exact hslot

theorem verify_mfa_challenge_keeps (hb : Books t w.db) (req : MFAVerifyRequest) :
    Keeps t i (verify_mfa_challenge H req) calls w := by
  refine wp_query ?_
  split
  · exact hb
  next intent _ =>
  refine wp_query (wp_now ?_)
  split
  · exact hb
  next challenge _ =>
  refine wp_query ?_
  split
  · exact hb
  refine wp_query ?_
  split
  · exact hb
  split
  · exact hb
  · exact hb
  refine wp_mint hb fun a _ => wp_record_audit (wp_record_audit
    (wp_commit (fun _ _ => hb.rollback i) fun db' hdb' => ?_))
  refine hb.minted (p := [.useChallenge challenge.challenge_id, .decideIntent _ _ _ _])
    (Session.all_cons trivial (Session.all_one trivial)) (fun x hx => .inl ?_) hdb'
  rcases List.mem_cons.mp hx with rfl | hx
  · exact Write.Notes.mute (Write.notes_audit rfl rfl) none
  · rw [List.mem_singleton.mp hx]
    exact Write.Notes.mute (Write.notes_audit rfl rfl) none

/-! ## Consumptions that settle nothing -/

/-- The request was cut off: a call of it went unanswered, or was answered with an HTTP
error that is passed on. An error on the capture is recorded instead. -/
def CutOff (calls : List (Call × Option Answer)) : Prop :=
  ∃ cl a, (cl, a) ∈ calls ∧ (a = none ∨ ((∃ e, a = some (.error (.http e))) ∧
    ∀ ref amount currency key, cl.op ≠ .capture_payment ref amount currency key))

/-- The organization has an adapter, and the deployment no mandate policy. -/
def Unconfigured (H : Host) (org_id : String) : Prop :=
  ∃ adapter e, get_agentic_provider H org_id = .ok adapter ∧ H.mandate_policy = .error e

theorem not_cutOff_nil : ¬ CutOff [] := fun ⟨_, _, h, _⟩ => absurd h List.not_mem_nil

theorem CutOff.append {more : List (Call × Option Answer)} (h : CutOff (calls ++ more)) :
    CutOff calls ∨ CutOff more := by
  obtain ⟨cl, a, hmem, ha⟩ := h
  rcases List.mem_append.mp hmem with hmem | hmem
  · exact .inl ⟨cl, a, hmem, ha⟩
  · exact .inr ⟨cl, a, hmem, ha⟩

/-- After an answer that is no error the request goes on. -/
theorem not_cutOff_ok (h : ¬ CutOff calls) {cl : Call} {r : Json} :
    ¬ CutOff (calls ++ [(cl, some (.ok r))]) := by
  intro hcut
  rcases hcut.append with hcut | ⟨cl', a, hmem, ha⟩
  · exact h hcut
  · obtain ⟨-, rfl⟩ := Prod.mk.inj (List.mem_singleton.mp hmem)
    rcases ha with ha | ⟨⟨e, ha⟩, -⟩ <;> exact absurd ha (by simp)

/-- Nothing was written where the request was cut off; an exception that is not passed on
was no such answer. -/
def Undone (db : DB) (w : World) (calls : List (Call × Option Answer)) :
    Option (Except Raised Reply) → Prop
  | some (.error raised) => ¬ CutOff calls ∨ w.db = db ∧ ∃ e, raised.exc = .http e
  | _ => CutOff calls → w.db = db

theorem Undone.of_not {db : DB} (h : ¬ CutOff calls) (res : Option (Except Raised Reply)) :
    Undone db w calls res := by
  match res with
  | none => exact fun hcut => absurd hcut h
  | some (.ok _) => exact fun hcut => absurd hcut h
  | some (.error _) => exact .inl h

/-- The rest of a request that was not cut off, when it asks nobody any more. -/
theorem undone_silent {db : DB} {p : Handler (Except Raised Reply)} (h : ¬ CutOff calls)
    (hp : p.Calls fun _ => False) : p.Wp (World.exec i) (Undone db) calls w := by
  refine Prog.wp_mono ?_ (silent_calls hp)
  rintro w' _ res rfl
  exact .of_not h res

/-- An error that is raised as it is. -/
theorem undone_error {cl : Call} (h : ¬ CutOff calls) (e : Exc) (row : Option Orm) (s : Session) :
    Undone w.db w (calls ++ [(cl, some (.error e))]) (some (.error ⟨e, row, s⟩)) := by
  by_cases hcut : CutOff (calls ++ [(cl, some (.error e))])
  · rcases hcut.append with hcut | ⟨cl', a, hmem, ha⟩
    · exact absurd hcut h
    · obtain ⟨-, rfl⟩ := Prod.mk.inj (List.mem_singleton.mp hmem)
      rcases ha with ha | ⟨⟨x, ha⟩, -⟩
      · exact absurd ha (by simp)
      · exact .inr ⟨rfl, x, Except.error.inj (Option.some.inj ha)⟩
  · exact .inl hcut

section
variable {x : Execution} {s : Session} {row : Orm}

theorem create_payment_undone (provider : RazorpayAdapter) (receipt : String) (amount : Int)
    (currency : String) (notes : List (String × String)) :
    (provider.create_payment H receipt amount currency notes).Wp (World.exec i) (fun w' c r =>
      w' = w ∧ ∀ a, r = some a → ¬ CutOff c ∨ ∃ e, a = .error (.http e)) [] w := by
  have hno : ∀ {a a' : Answer}, some a = some a' → ¬ CutOff [] ∨ ∃ e, a' = .error (.http e) :=
    fun _ => .inl not_cutOff_nil
  unfold RazorpayAdapter.create_payment RazorpayAdapter.request
  split
  · exact ⟨rfl, fun _ => hno⟩
  · split
    · exact ⟨rfl, fun _ => hno⟩
    · refine ⟨⟨rfl, fun _ h => absurd h (by simp)⟩, fun answer => ⟨rfl, fun a ha => ?_⟩⟩
      obtain rfl := Option.some.inj ha
      cases answer with
      | ok order => exact .inl (not_cutOff_ok not_cutOff_nil)
      | error e =>
        refine (undone_error (w := w) not_cutOff_nil e none []).imp id fun ⟨_, x, he⟩ => ⟨x, ?_⟩
        exact congrArg Except.error he

theorem create_order_undone : (create_order H x).Wp (World.exec i) (Undone w.db) [] w := by
  refine wp_query ?_
  split
  · exact Or.inl not_cutOff_nil
  · refine Prog.wp_bind (Prog.wp_mono ?_ (create_payment_undone _ _ _ _ _))
    rintro w' c r ⟨rfl, hr⟩
    match r with
    | none => exact fun _ => rfl
    | some (.error e) =>
      refine (hr _ rfl).imp id fun ⟨x, he⟩ => ⟨rfl, x, ?_⟩
      exact Except.error.inj he
    | some (.ok order) =>
      refine undone_silent ((hr _ rfl).resolve_right fun ⟨_, h⟩ => absurd h (by simp)) ?_
      dsimp only
      split
      · trivial
      · exact submit_order_calls
      · refine calls_loadTxn fun row => ?_
        split
        · trivial
        · exact calls_commit trivial

theorem confirm_agentic_undone (h : ¬ CutOff calls) (ref : Json) :
    (confirm_agentic H x s row ref).Wp (World.exec i) (Undone w.db) calls w := by
  unfold confirm_agentic
  split
  · exact Or.inl h
  · refine ⟨fun _ => rfl, fun answer => ?_⟩
    cases answer with
    | error e => exact undone_error h e _ _
    | ok data =>
      refine undone_silent (not_cutOff_ok h) ?_
      simp only [Prog.bind]
      split
      · trivial
      · exact Prog.calls_bind answerConsumed_calls fun _ => trivial
      · split
        · trivial
        · exact calls_audit fun _ => Prog.calls_bind answerConsumed_calls fun _ => trivial

theorem settle_capture_undone (h : ¬ CutOff calls) (ref reply : Json) :
    (settle_capture H x s row ref reply).Wp (World.exec i) (Undone w.db) calls w := by
  have hfinish : ∀ (to_state : TxnState) (text : String),
      (finish_capture x s row ref to_state text).Wp (World.exec i) (Undone w.db) calls w := by
    intro to_state text
    refine undone_silent h ?_
    unfold finish_capture
    split
    · trivial
    · exact Prog.calls_bind answerConsumed_calls fun _ => trivial
  unfold settle_capture
  split
  · exact Or.inl h
  · dsimp only
    split
    · exact confirm_agentic_undone h ref
    · split
      · exact hfinish _ _
      · split
        · exact hfinish _ _
        · exact hfinish _ _

theorem capture_agentic_undone {adapter : AgenticAdapter} (h : ¬ CutOff calls) (ref : Json) :
    (capture_agentic H x adapter ref).Wp (World.exec i) (Undone w.db) calls w := by
  refine wp_loadTxn (fun hcut => absurd hcut h) fun row _ => ?_
  dsimp only
  split
  · exact Or.inl h
  · split
    · exact fun hcut => absurd hcut h
    · refine wp_record_audit (wp_record_audit ⟨fun _ => rfl, fun answer => ?_⟩)
      cases answer with
      | error e =>
        -- an error on the capture is recorded, whatever it is
        refine undone_silent (fun hcut => ?_) ?_
        · rcases hcut.append with hcut | ⟨cl, a, hmem, ha⟩
          · exact h hcut
          · obtain ⟨rfl, rfl⟩ := Prod.mk.inj (List.mem_singleton.mp hmem)
            rcases ha with ha | ⟨-, hop⟩
            · exact absurd ha (by simp)
            · exact hop _ _ _ _ rfl
        · simp only [Prog.bind]
          exact Prog.calls_bind answerConsumed_calls fun _ => trivial
      | ok reply => exact settle_capture_undone (not_cutOff_ok h) ref reply

theorem consume_agentic_settlement_undone {adapter : AgenticAdapter} :
    (consume_agentic_settlement H x adapter).Wp (World.exec i) (Undone w.db) [] w := by
  refine wp_now (wp_query ?_)
  split
  · exact undone_silent not_cutOff_nil (Prog.calls_bind failClosed_calls fun _ => trivial)
  · refine ⟨fun _ => rfl, fun answer => ?_⟩
    cases answer with
    | error e => exact undone_error not_cutOff_nil e none []
    | ok validation =>
      have hvalidated : ∀ cl, ¬ CutOff ([] ++ [(cl, some (.ok validation))]) :=
        fun _ => not_cutOff_ok not_cutOff_nil
      simp only [Prog.bind]
      split
      · split
        · exact undone_silent (hvalidated _) (Prog.calls_bind failClosed_calls fun _ => trivial)
        · refine ⟨fun _ => rfl, fun answer => ?_⟩
          cases answer with
          | error e => exact undone_error (hvalidated _) e none []
          | ok paid =>
            have hpaid : ∀ cl cl', ¬ CutOff ([] ++ [(cl, some (.ok validation))] ++
                [(cl', some (.ok paid))]) := fun cl _ => not_cutOff_ok (hvalidated cl)
            simp only [Prog.bind]
            split
            · split
              · exact Or.inl (hpaid _ _)
              · exact capture_agentic_undone (hpaid _ _) _
            · exact Or.inl (hpaid _ _)
      · exact Or.inl (hvalidated _)

/-- The `except` blocks of either path. -/
theorem undone_handled {p : Handler (Except Raised Reply)} {k : Except Raised Reply → Handler Reply}
    (hp : p.Wp (World.exec i) (Undone w.db) [] w) (hreply : ∀ reply, k (.ok reply) = pure reply)
    (hhttp : ∀ raised e, raised.exc = .http e → k (.error raised) = pure (.error e))
    (hcalls : ∀ raised, (k (.error raised)).Calls fun _ => False) :
    (p >>= k).Wp (World.exec i) (fun w' c _ => CutOff c → w'.db = w.db) [] w := by
  refine Prog.wp_bind (Prog.wp_mono ?_ hp)
  intro w' c res hres
  match res with
  | none => exact hres
  | some (.ok reply) =>
    dsimp only
    rw [hreply]
    exact hres
  | some (.error raised) =>
    rcases hres with hno | ⟨hdb, e, he⟩
    · refine Prog.wp_mono ?_ (silent_calls (hcalls raised))
      rintro w'' _ r rfl hcut
      exact absurd hcut hno
    · dsimp only
      rw [hhttp raised e he]
      exact fun _ => hdb

theorem execute_undone : (execute H x).Wp (World.exec i)
    (fun w' c _ => CutOff c ∨ Unconfigured H x.auth.org_id → w'.db = w.db) [] w := by
  have hsilent : ∀ {p : Handler Reply}, ¬ Unconfigured H x.auth.org_id → p.Calls (fun _ => False) →
      p.Wp (World.exec i) (fun w' c _ => CutOff c ∨ Unconfigured H x.auth.org_id → w'.db = w.db) [] w := by
    intro p hconf hp
    refine Prog.wp_mono ?_ (silent_calls hp)
    rintro w' _ r rfl hor
    exact absurd hor (by simp [not_cutOff_nil, hconf])
  unfold execute
  split
  · next e hadapter =>
    refine hsilent (fun ⟨_, _, h, _⟩ => ?_) handle_raised_calls
    exact absurd (hadapter.symm.trans h) (by simp)
  · split
    · exact fun _ => rfl
    · next policy hpolicy =>
      have hconf : ¬ Unconfigured H x.auth.org_id := fun ⟨_, _, _, h⟩ =>
        absurd (hpolicy.symm.trans h) (by simp)
      split
      · refine Prog.wp_mono (fun _ _ _ h hor => h (hor.resolve_right hconf))
          (undone_handled consume_agentic_settlement_undone (fun _ => rfl) (fun raised e he => ?_)
            fun raised => ?_)
        · dsimp only
          rw [he]
        · dsimp only
          split
          · exact calls_access fun _ => calls_commit trivial
          · trivial
          · exact calls_access fun _ => calls_commit trivial
      · split
        · exact hsilent hconf failClosed_calls
        · refine Prog.wp_mono (fun _ _ _ h hor => h (hor.resolve_right hconf))
            (undone_handled create_order_undone (fun _ => rfl) (fun raised e he => ?_)
              fun raised => handle_raised_calls)
          dsimp only
          unfold handle_raised
          rw [he]

end

/-! ## A consumption -/

/-- The reservation's own commit tells nothing and leaves every state. -/
theorem reserved_keeps {db db' : DB} (hb : Books t db) {auth : BoundedAuthorization} {id : String}
    {pending : Session} (hid : auth.authorization_id = id) (howner : ∃ u ∈ db.users, u.1 = id)
    (hpending : pending.OnlyProofs) (h : db.applyAll (pending ++ countAttempt auth
      (db.txns.find? fun r => r.authorization_id == id)) = .ok db') :
    Books t db' ∧ db'.users = db.users := by
  have hwrites : ∀ x ∈ pending ++ countAttempt auth (db.txns.find? fun r => r.authorization_id == id),
      x.Mute t (some id) := by
    intro x hx
    rcases List.mem_append.mp hx with hx | hx
    · obtain ⟨p, rfl⟩ := hpending x hx
      trivial
    · cases hfind : db.txns.find? fun r => r.authorization_id == id with
      | none =>
        rw [hfind] at hx
        rcases List.mem_cons.mp hx with rfl | hx
        · exact congrArg some hid
        · rw [List.mem_singleton.mp hx]
          exact congrArg some hid
      | some r =>
        have hr : r.authorization_id = id := by simpa using List.find?_some hfind
        rw [hfind] at hx
        rw [List.mem_singleton.mp hx]
        exact congrArg some hr
  have hkept := applyAll_keeps_all (P := Write.Mute t (some id)) (K := fun db' =>
    db'.users = db.users ∧ db'.Keyed ∧ (∀ r ∈ db'.txns, ∃ u ∈ db.users, u.1 = r.authorization_id) ∧
      db'.pairs t = db.pairs t ∧ ∀ k, id ≠ k → db'.stateOf k = db.stateOf k) ?_ hwrites h
    ⟨rfl, hb.rows, hb.owned, rfl, fun _ _ => rfl⟩
  · obtain ⟨husers, hrows, howned, hpairs, hother⟩ := hkept
    refine ⟨hb.congr husers hrows howned hpairs fun u _ => ?_, husers⟩
    unfold DB.foundState
    by_cases hown : id = u.1
    · rw [← hown, (reserved_state hid hpending h).1]
      rfl
    · rw [hother _ hown]
  · rintro mid mid' x hx hap ⟨husers, hrows, howned, hpairs, hother⟩
    refine ⟨(hx.users hap).trans husers, apply_keyed hap hrows, fun r hr => ?_, ?_, fun k hk => ?_⟩
    · rcases apply_owner hap hr with ⟨r₀, hr₀, heq⟩ | rfl
      · exact heq ▸ howned r₀ hr₀
      · obtain rfl := Option.some.inj hx
        exact howner
    · rw [apply_pairs hap, hx.told, List.append_nil]
      exact hpairs
    · rw [apply_stateOf hap, hx.onState (fun heq => hk (Option.some.inj heq))]
      exact hother k hk

/-- A consumption keeps the books of other traces, and of its own where it was cut off. -/
theorem consume_keeps (hw : w.Orderly) (hb : Books t w.db) (ctx : RequestContext) (id token : String) :
    (consume_authorization H ctx id token).Wp (World.exec i) (fun w' c _ =>
      (∀ auth agent claims, Ready H w ctx id token auth agent claims → auth.transaction_id = t →
        CutOff c ∨ Unconfigured H auth.org_id) → Books t w'.db) [] w := by
  refine wp_query ?_
  split
  · exact fun _ => hb
  next auth hauth =>
  have hstored := stored_of_find hauth
  refine wp_authenticated (fun _ => hb) (fun _ _ => hb) fun tok a htok ha => ?_
  refine Prog.wp_bind (Prog.wp_mono ?_ (revalidate_execution_wp auth))
  rintro w' c r ⟨rfl, rfl, hr⟩
  match r with
  | none => exact fun _ => hb
  | some (.error e) => exact fun _ => hb
  | some (.ok agent) =>
    have hreserving : Beside t none (w'.exec i (.reserve id .consume)).db :=
      (beside_stable t none).exec i (fun ws h => absurd h (by simp)) hb.beside
    refine wp_reserve ?_
    split
    · exact fun _ => hreserving.1.rollback i
    next hreserved =>
    have hready : Ready H w' ctx id token auth agent a.claims :=
      ⟨hstored, hw.unused hstored (by simpa using hreserved), ⟨tok, htok, ha.claims⟩,
        ha.credential, hr agent rfl⟩
    -- the guarded `UPDATE` leaves the authorization's trace
    have howner : (id, auth.transaction_id) ∈ (w'.exec i (.reserve id .consume)).db.users := by
      refine hstored.2 ▸ ?_
      unfold World.exec DB.users
      dsimp only
      split
      · refine List.mem_map.mpr ⟨_, mem_updateWhere.mpr ⟨auth, hstored.1, rfl⟩, ?_⟩
        split <;> rfl
      · exact List.mem_map_of_mem hstored.1
    refine wp_query (wp_commit (fun _ _ _ => hreserving.1.rollback i) fun db' hdb' => ?_)
    obtain ⟨hb', husers⟩ := reserved_keeps hreserving.1 hstored.2 ⟨_, howner, rfl⟩
      ha.pending hdb'
    refine wp_query (wp_query ?_)
    by_cases htrace : auth.transaction_id = t
    · refine Prog.wp_mono ?_ execute_undone
      intro w'' c _ hundone hcut
      rw [hundone (hcut auth agent _ hready htrace)]
      exact hb'
    · have hx : Execution.May (Write.Mute t (some id)) ⟨auth, agent.agent_id,
          (parent_for db' agent).map ParentAuthority.parent_id, causal_labels db' auth.intent_id⟩ :=
        ⟨fun l c h => congrArg some (h.trans hstored.2), fun e he het => absurd (he.symm.trans het) htrace⟩
      refine Prog.wp_mono (fun _ _ _ h _ => h.1.1) ((beside_stable t (some id)).wp (execute_writes hx)
        ⟨hb', fun k hk => ?_⟩)
      obtain rfl := Option.some.inj hk
      exact ⟨_, husers ▸ howner, rfl, htrace⟩

/-! ## Every run -/

/-- The request settles nothing on the trace, and no review expires on it: a consumption
of the payment is cut off. -/
def Request.Accountable (H : Host) (w : World) (t : String) (answers : List Answer) : Request → Prop
  | .consume ctx id token => ∀ auth agent claims, Ready H w ctx id token auth agent claims →
    auth.transaction_id = t →
      CutOff (Server.serve H (.consume ctx id token) answers w).calls ∨ Unconfigured H auth.org_id
  | .sweep key => (∃ u, H.require_admin key = .ok u) →
    ∀ j ∈ w.db.intents, j.stale w.clock = true → j.transaction_id ≠ t
  | _ => True

def Server.Step.Accountable (H : Host) (w : World) (t : String) : Server.Step → Prop
  | .request r answers => r.Accountable H w t answers
  | .tick _ => True

theorem serve_keeps (hw : w.Orderly) (hb : Books t w.db) {r : Request} {answers : List Answer}
    (hok : r.Accountable H w t answers) : Books t (Server.serve H r answers w).store.db := by
  have hserve : Keeps t 0 (handler H r) [] w → Books t (Server.serve H r answers w).store.db :=
    fun h => Server.serve_spec (Q := fun w' _ _ => Books t w'.db) answers
      (Prog.wp_mono (fun _ _ _ h => h.rollback 0) h)
  cases r with
  | consume ctx id token =>
    refine Server.serve_spec (Q := fun w' c _ => (∀ auth agent claims,
      Ready H w ctx id token auth agent claims → auth.transaction_id = t →
        CutOff c ∨ Unconfigured H auth.org_id) → Books t w'.db) answers ?_ hok
    exact Prog.wp_mono (fun _ _ _ h hcut => (h hcut).rollback 0) (consume_keeps hw hb ctx id token)
  | sweep key => exact hserve (sweep_keeps hb key hok)
  | submit_intent ctx req => exact hserve (submit_payment_intent_keeps hb ctx req)
  | mfa_verify req => exact hserve (verify_mfa_challenge_keeps hb req)
  | revoke_authorization ctx id token =>
    exact hserve (muted_keeps hb (Handler.writes_mono (fun _ h => h.mute none)
      (revoke_authorization_writes ctx id token)))
  | webhook raw signature => exact hserve (razorpay_webhook_keeps hb raw signature)
  | refund ctx id req => exact hserve (refund_authorization_keeps hb ctx id req)
  | reconcile ctx id token => exact hserve (manual_reconcile_keeps hb ctx id token)
  | batch n => exact hserve (run_batch_keeps hb n)
  | _ =>
    exact hserve (muted_keeps hb (Handler.writes_mono (fun _ => Request.Quiet.mute rfl fun _ => by simp)
      (handler_quiet H rfl)))

theorem step_keeps (hw : w.Orderly) (hb : Books t w.db) {s : Server.Step} (hok : s.Accountable H w t) :
    Books t (Server.step H w s).db := by
  cases s with
  | request r answers => exact serve_keeps hw hb hok
  | tick d => exact hb

/-- An empty database keeps the books of every trace. -/
theorem Books.empty (t : String) : Books t DB.empty where
  keys := List.nodup_nil
  rows := List.nodup_nil
  owned := fun _ h => absurd h List.not_mem_nil
  unused := fun _ => rfl
  settled := fun _ h => absurd h.1 List.not_mem_nil

/-- **The trail of a payment accounts for its state.** In every run of requests handled
one at a time, whatever the providers do, the audit events of a transaction id that one
payment alone uses tell connected state changes that end in the payment's state, as long
as each consumption of the payment was cut off and no review expired under that id. -/
theorem trail_accounts {H : Host} {w : World} {t : String} (hw : w.Orderly) (hb : Books t w.db)
    (steps : List Server.Step) (hok : ∀ pre s post, steps = pre ++ s :: post →
      s.Accountable H (Server.run H w pre) t) :
    ∀ u, (Server.run H w steps).db.Sole t u → ∀ state,
      (Server.run H w steps).db.stateOf u.1 = some state →
      Accounts state.word ((Server.run H w steps).db.pairs t) := by
  have hend : (Server.run H w steps).Orderly ∧ Books t (Server.run H w steps).db := by
    refine @Server.run_invariant H (fun w => w.Orderly ∧ Books t w.db)
      (fun w s => s.Accountable H w t) ?_ steps w ⟨hw, hb⟩ hok
    exact fun w s h hs => ⟨Server.step_orderly h.1 s, step_keeps h.1 h.2 hs⟩
  intro u hu state hstate
  refine accounts_of_walk ?_
  have hwalk := hend.2.settled u hu
  unfold DB.foundState at hwalk
  rwa [hstate] at hwalk

namespace Sample

/-- The order the provider creates for the sample payment. -/
def createdOrder : Answer := .ok (.dict [("id", .str "order"), ("receipt", .str "auth"),
  ("amount", .int 100), ("currency", .str "INR")])

/-- The payment is submitted. -/
def submission : List Server.Step :=
  [.request (.consume ctx "auth" "agent") [createdOrder]]

/-- The provider never answers, and the worker comes by. -/
def cutOff : List Server.Step :=
  [.request (.consume ctx "auth" "agent") [], .request (.batch 5) []]

/-- One unused authorization. -/
def freshlyMinted : World := world (db [authorization 100] [txn .AUTHORIZED none none none])

theorem fresh_orderly : freshlyMinted.Orderly where
  keys := by constructor <;> decide
  single := by
    intro a ha
    rw [List.mem_singleton.mp ha]
    decide
  idle := rfl

theorem fresh_books : Books "trace" freshlyMinted.db where
  keys := by decide
  rows := by unfold DB.Keyed; decide
  owned := by decide
  unused := fun _ => rfl
  settled := by
    rintro u ⟨hu, -, -⟩
    rw [List.mem_singleton.mp hu]
    rfl

end Sample

/-- A consumption that is cut off, and a batch of the worker after it. -/
theorem trail_accounts_cut : Accounts "AUTHORIZED"
    ((Server.run (Sample.host false []) Sample.freshlyMinted Sample.cutOff).db.pairs "trace") := by
  have hsole : (Server.run (Sample.host false []) Sample.freshlyMinted Sample.cutOff).db.Sole "trace"
      ("auth", "trace") :=
    ⟨List.mem_singleton_self _, rfl, fun v hv _ =>
      List.mem_singleton.mp (show v ∈ [("auth", "trace")] from hv)⟩
  refine trail_accounts Sample.fresh_orderly Sample.fresh_books _ (fun pre s post h => ?_)
    _ hsole .AUTHORIZED rfl
  match pre, h with
  | [], h =>
    obtain ⟨rfl, -⟩ := List.cons.inj h
    exact fun _ _ _ _ _ => .inl ⟨Sample.orderCall, none, List.mem_singleton_self _, .inl rfl⟩
  | [_], h =>
    obtain ⟨-, h⟩ := List.cons.inj h
    obtain ⟨rfl, -⟩ := List.cons.inj h
    trivial
  | _ :: _ :: pre, h =>
    obtain ⟨-, h⟩ := List.cons.inj h
    obtain ⟨-, h⟩ := List.cons.inj h
    exact absurd h (by simp)

/-- A consumption that goes through tells its change twice. -/
theorem submission_told_twice : ∃ u state,
    (Server.run (Sample.host false []) Sample.freshlyMinted Sample.submission).db.Sole "trace" u ∧
    (Server.run (Sample.host false []) Sample.freshlyMinted Sample.submission).db.stateOf u.1 = some state ∧
    ¬ Accounts state.word
      ((Server.run (Sample.host false []) Sample.freshlyMinted Sample.submission).db.pairs "trace") := by
  refine ⟨("auth", "trace"), .PROVIDER_SUBMITTED, ⟨List.mem_singleton_self _, rfl, fun v hv _ => ?_⟩,
    rfl, fun h => ?_⟩
  · exact List.mem_singleton.mp (show v ∈ [("auth", "trace")] from hv)
  · have hchain : Connected
        [("AUTHORIZED", "PROVIDER_SUBMITTED"), ("AUTHORIZED", "PROVIDER_SUBMITTED")] := h.2
    exact absurd (List.isChain_cons_cons.mp hchain).1 (by decide)

end Paari
