import Mathlib.Data.List.Dedup
import Paari.Custody
import Paari.Evidence
import Paari.Tables

/-!
# A request proof is used once

Authentication looks its proof's `jti` up in `request_proofs` and burns it: a row
added to the session, which the end of the request discards. So a proof that was
accepted stays used exactly when the request goes on to commit. The first commit
after authentication carries the burnt row on every path of every endpoint
(`Carrying`), and no later write ever takes it away.

The unique index on `jti` makes a second session's flush of the same proof wait for
the first session to end, so the order in which exchanges end is all that matters here.
-/

namespace Paari

open Atomic

/-! ## Acceptance -/

/-- The `jti` an authenticated session has burnt. -/
def Session.burnt : Session → Option String
  | .insertProof p :: _ => some p.jti
  | _ => none

/-- The authentication an exchange goes through: its transport, the session token and
the agent it must belong to. -/
def Exchange.authentication (H : Host) (db : DB) :
    Exchange → Option (RequestContext × String × Option String)
  | .request (.submit_intent ctx req) =>
    (resolve_session_token H req.session_token ctx.authorization).toOption.map
      fun token => (ctx, token, none)
  | .request (.mfa_challenge ctx req) =>
    (db.intents.find? fun i => i.intent_id == req.intent_id).bind fun intent =>
      (resolve_session_token H req.session_token ctx.authorization).toOption.map
        fun token => (ctx, token, some intent.agent_id)
  | .request (.consume ctx id session_token)
  | .request (.revoke_authorization ctx id session_token)
  | .request (.reconcile ctx id session_token) =>
    (db.authorizations.find? fun a => a.authorization_id == id).bind fun auth =>
      (resolve_session_token H session_token ctx.authorization).toOption.map
        fun token => (ctx, token, some auth.agent_id)
  | .request (.refund ctx id req) =>
    (db.txns.find? fun t => t.authorization_id == id).bind fun txn =>
      (resolve_session_token H req.session_token ctx.authorization).toOption.map
        fun token => (ctx, token, some txn.agent_id)
  | .request _ => none
  | .active_mandate ctx agent_id =>
    (resolve_session_token H "" ctx.authorization).toOption.map fun token => (ctx, token, some agent_id)
  | .provider_binding ctx _ =>
    (resolve_session_token H "" ctx.authorization).toOption.map fun token => (ctx, token, none)
  | .audit ctx _ | .proof ctx _ =>
    ((resolve_session_token H "" ctx.authorization).toOption.filter (· ≠ "")).map
      fun token => (ctx, token, none)

/-- What `_authenticate` makes of it. -/
def authenticated (H : Host) (w : World) (ctx : RequestContext) (token : String)
    (expected : Option String) : Option (Except Reply Authenticated) :=
  ((authenticate H ctx token expected).eval (World.exec 0) [] w).value

/-- The `jti` that `verify_request_proof` accepts from an exchange that starts here. -/
def Exchange.accepted (H : Host) (w : World) (e : Exchange) : Option String :=
  (e.authentication H w.db).bind fun a =>
    match authenticated H w a.1 a.2.1 a.2.2 with
    | some (.ok authed) => authed.pending.burnt
    | _ => none

/-- The `jti`s accepted along a run, in order. -/
def Exchange.acceptances (H : Host) : World → List Exchange.Step → List String
  | _, [] => []
  | w, .exchange e answers :: steps =>
    (e.accepted H w).toList ++ acceptances H (Exchange.serve H e answers w).store steps
  | w, .tick d :: steps => acceptances H (w.tick d) steps

/-- `db.commit()` -/
def Stmt.isCommit : Stmt → Bool
  | .commit _ => true
  | _ => false

/-- The exchange, started here, comes to a commit, and its first one goes through. -/
def Exchange.Commits (H : Host) (w : World) (e : Exchange) (answers : List Answer) : Prop :=
  ∃ w' ws db', (Exchange.handler H e).first (World.exec 0) Stmt.isCommit answers w =
    some (w', .commit ws) ∧ w'.db.applyAll ws = .ok db'

/-! ## The rows stay -/

/-- The `jti` is on record. -/
def DB.Burnt (db : DB) (jti : String) : Prop := ∃ p ∈ db.proofs, p.jti = jti

theorem apply_burnt {jti : String} {db db' : DB} {x : Write} (h : db.apply x = some db')
    (hb : db.Burnt jti) : db'.Burnt jti := by
  cases x with
  | insertProof r =>
    simp only [DB.apply, insertUnique] at h
    split at h
    · exact absurd h (by simp)
    · obtain ⟨p, hp, hj⟩ := hb
      rw [← Option.some.inj h]
      exact ⟨p, List.mem_append_left _ hp, hj⟩
  | updateTxn l c =>
    simp only [DB.apply] at h
    split at h
    · exact absurd h (by simp)
    · rw [← Option.some.inj h]
      exact hb
  | _ =>
    -- an insert under a unique key, or an update of another table
    first
      | rw [← Option.some.inj h]
        exact hb
      | simp only [DB.apply, insertUnique] at h
        split at h
        · exact absurd h (by simp)
        · rw [← Option.some.inj h]
          exact hb

theorem applyAll_burnt {jti : String} {ws : List Write} {db db' : DB}
    (h : db.applyAll ws = .ok db') (hb : db.Burnt jti) : db'.Burnt jti :=
  applyAll_keeps_all (P := fun _ => True) (fun _ _ _ _ hx hb => apply_burnt hx hb)
    (fun _ _ => trivial) h hb

/-- A transaction that carries the burnt row records it. -/
theorem applyAll_burns {r : RequestProof} {ws : List Write} {db db' : DB}
    (h : db.applyAll ws = .ok db') (hr : .insertProof r ∈ ws) : db'.Burnt r.jti := by
  refine applyAll_brings (J := fun _ => True) (P := fun _ => True) (fun _ _ _ _ _ _ _ => trivial)
    (fun db db' hx _ => ?_) (fun _ _ _ _ hx hb => apply_burnt hx hb) hr (fun _ _ => trivial) h trivial
  simp only [DB.apply, insertUnique] at hx
  split at hx
  · exact absurd hx (by simp)
  · rw [← Option.some.inj hx]
    exact ⟨r, List.mem_append_right _ (List.mem_singleton_self r), rfl⟩

theorem rollback_proofs (w : World) (i : Nat) : (w.rollback i).db.proofs = w.db.proofs := by
  unfold World.rollback
  generalize w.reserved.filter (fun r => r.session = i) = rs
  induction rs with
  | nil => rfl
  | cons r rs ih => exact ih

theorem exec_burnt {jti : String} (i : Nat) (s : Stmt) (w : World) (hb : w.db.Burnt jti) :
    (World.exec i s w).db.Burnt jti := by
  have hrollback : (w.rollback i).db.Burnt jti := by
    unfold DB.Burnt
    rw [rollback_proofs]
    exact hb
  cases s with
  | commit ws =>
    show (World.commit i ws w).db.Burnt jti
    unfold World.commit
    split
    · next h => exact applyAll_burnt h hb
    · exact hrollback
  | try_gate g =>
    show (if w.free g then _ else w.rollback i : World).db.Burnt jti
    split
    · exact hb
    · exact hrollback
  | reserve id spend =>
    show (if w.reservable id then _ else w : World).db.Burnt jti
    split <;> exact hb
  | rollback => exact hrollback
  | _ => exact hb

theorem serve_burnt {H : Host} {jti : String} (e : Exchange) (answers : List Answer) {w : World}
    (hb : w.db.Burnt jti) : (Exchange.serve H e answers w).store.db.Burnt jti := by
  have hend := Prog.eval_spec answers (Prog.wp_of_invariant (I := fun w => w.db.Burnt jti)
    (exec_burnt 0) (Exchange.handler H e) [] hb)
  show (World.rollback 0 _).db.Burnt jti
  unfold DB.Burnt
  rw [rollback_proofs]
  exact hend

/-! ## What authentication burns -/

/-- A burnt `jti` was not on record. -/
def Session.Unseen (w : World) (s : Session) : Prop :=
  s = [] ∨ ∃ r, s = [.insertProof r] ∧ ¬ w.db.Burnt r.jti

theorem verify_request_proof_unseen {H : Host} {w : World} {agent : Agent} {public_key : String}
    {ctx : RequestContext} {token : String} {i : Nat} {calls : List (Call × Option Answer)} :
    (verify_request_proof H agent public_key ctx token).Wp (World.exec i)
      (fun _ _ r => ∀ s, r = some (some s) → s.Unseen w) calls w := by
  refine wp_now ?_
  split
  · exact fun s h => absurd h (by simp)
  split
  · exact fun s h => absurd h (by simp)
  next jti hjti =>
  refine wp_query ?_
  split
  · exact fun s h => absurd h (by simp)
  next hseen =>
  intro s h
  rw [← Option.some.inj (Option.some.inj h)]
  refine .inr ⟨_, rfl, fun hburnt => hseen ?_⟩
  obtain ⟨p, hp, hj⟩ := hburnt
  exact List.any_eq_true.mpr ⟨p, hp, by rw [hj]; exact beq_self_eq_true _⟩

theorem authenticate_unseen {H : Host} {w : World} {ctx : RequestContext} {token : String}
    {expected : Option String} {i : Nat} {calls : List (Call × Option Answer)} :
    (authenticate H ctx token expected).Wp (World.exec i)
      (fun _ _ r => ∀ a, r = some (.ok a) → a.pending.Unseen w) calls w := by
  refine wp_now ?_
  split
  · exact fun a h => absurd h (by simp)
  split
  · exact fun a h => absurd h (by simp)
  refine wp_query ?_
  split
  · exact fun a h => absurd h (by simp)
  split
  · exact fun a h => absurd h (by simp)
  refine wp_query (wp_now ?_)
  split
  · exact fun a h => absurd h (by simp)
  refine wp_query ?_
  split
  · exact fun a h => absurd h (by simp)
  split
  · exact fun a h => absurd h (by simp)
  split
  · intro a h
    rw [← Except.ok.inj (Option.some.inj h)]
    exact .inl rfl
  split
  · exact fun a h => absurd h (by simp)
  refine wp_now ?_
  split
  · exact fun a h => absurd h (by simp)
  refine Prog.wp_bind (Prog.wp_mono ?_ verify_request_proof_unseen)
  intro w' c r hr
  cases r with
  | none => exact fun a h => absurd h (by simp)
  | some burnt =>
    cases burnt with
    | none => exact fun a h => absurd h (by simp)
    | some s =>
      intro a h
      rw [← Except.ok.inj (Option.some.inj h)]
      exact hr s rfl

/-- What is accepted was not on record, and is the one row the session has pending. -/
theorem authenticated_burnt {H : Host} {w : World} {ctx : RequestContext} {token jti : String}
    {expected : Option String} {a : Authenticated}
    (ha : authenticated H w ctx token expected = some (.ok a)) (hj : a.pending.burnt = some jti) :
    ∃ r, a.pending = [.insertProof r] ∧ r.jti = jti ∧ ¬ w.db.Burnt jti := by
  rcases Prog.eval_spec [] authenticate_unseen a ha with hnil | ⟨r, hr, hun⟩
  · rw [hnil] at hj
    exact absurd hj (by simp [Session.burnt])
  · rw [hr] at hj
    obtain rfl : r.jti = jti := Option.some.inj hj
    exact ⟨r, hr, rfl, hun⟩

theorem accepted_unseen {H : Host} {w : World} {e : Exchange} {jti : String}
    (h : e.accepted H w = some jti) : ¬ w.db.Burnt jti := by
  obtain ⟨⟨ctx, token, expected⟩, _, h⟩ := Option.bind_eq_some_iff.mp h
  dsimp only at h
  split at h
  · next a ha =>
    obtain ⟨r, _, _, hun⟩ := authenticated_burnt ha h
    exact hun
  · exact absurd h (by simp)

/-! ## The first commit carries the burnt row -/

/-- The first commit of the part stores `r`; a part that does not commit returns only
values that satisfy `R`. -/
def Carrying {α : Type} (r : RequestProof) (R : α → Prop) (p : Handler α) : Prop :=
  p.Leads Stmt.isCommit (fun s => ∃ ws, s = .commit ws ∧ .insertProof r ∈ ws) R

section
variable {α β : Type} {r : RequestProof} {R : β → Prop} {T : α → Prop} {s : Session}

theorem carrying_query {f : DB → α} {k : α → Handler β} (h : ∀ a, Carrying r R (k a)) :
    Carrying r R (Handler.query f >>= k) := fun w => h (f w.db)

theorem carrying_now {k : Instant → Handler β} (h : ∀ t, Carrying r R (k t)) :
    Carrying r R (Handler.now >>= k) := fun w => h w.clock

theorem carrying_fresh {k : Nat → Handler β} (h : ∀ n, Carrying r R (k n)) :
    Carrying r R (Handler.fresh >>= k) := fun w => h w.next

theorem carrying_reserve {id : String} {spend : Spend} {k : Bool → Handler β}
    (h : ∀ b, Carrying r R (k b)) : Carrying r R (Handler.reserve id spend >>= k) :=
  fun w => h (w.reservable id)

theorem carrying_rollback {k : Unit → Handler β} (h : Carrying r R (k ())) :
    Carrying r R (Handler.rollback >>= k) := fun _ => h

theorem carrying_audit {H : Host} {a : AuditArgs} {k : Session → Handler β}
    (hs : .insertProof r ∈ s) (h : ∀ s', .insertProof r ∈ s' → Carrying r R (k s')) :
    Carrying r R (record_audit H s a >>= k) := fun _ => h _ (List.mem_append_left _ hs)

theorem carrying_bind {p : Handler α} {k : α → Handler β} (hp : Carrying r T p)
    (hk : ∀ a, T a → Carrying r R (k a)) : Carrying r R (p >>= k) := Prog.leads_bind hp hk

theorem carrying_of_reads {p : Handler β} (h : p.Reads R) : Carrying r R p :=
  Prog.leads_of_quiet (fun _ hs => by rw [hs]; rfl) h

/-- A commit of the session's own pending writes. -/
theorem carrying_commit {k : Unit → Handler β} (hs : .insertProof r ∈ s) :
    Carrying r R (Handler.commit s >>= k) := ⟨s, rfl, hs⟩

theorem carrying_tryCommit {k : Except Write Unit → Handler β} (hs : .insertProof r ∈ s) :
    Carrying r R (Handler.tryCommit s >>= k) := ⟨s, rfl, hs⟩

theorem carrying_audit_txn {H : Host} {t : ProviderTransaction} {kind : String}
    {detail : List (String × Json)} {k : Session → Handler β} (hs : .insertProof r ∈ s)
    (h : ∀ s', .insertProof r ∈ s' → Carrying r R (k s')) :
    Carrying r R (audit_txn H s t kind detail >>= k) := by
  refine carrying_bind (carrying_of_reads (audit_txn_reads H s t kind detail)) ?_
  intro s' hs'
  obtain ⟨e, _, rfl⟩ := hs'
  exact h _ (List.mem_append_left _ hs)

end

/-! ## Governance -/

section
variable {H : Host} {r : RequestProof} {s : Session}

/-- Recording an intent is where the burnt row goes. -/
theorem record_intent_carrying {agent : Agent} {req : PaymentIntentRequest} {v : Verdict}
    {R : PaymentIntent → Prop} (hs : .insertProof r ∈ s) :
    Carrying r R (record_intent H s agent req v) := by
  refine carrying_now fun t => carrying_fresh fun n => carrying_query fun parent => ?_
  refine carrying_audit (List.mem_append_left _ hs) fun s₁ h₁ => ?_
  exact carrying_audit h₁ fun s₂ h₂ => carrying_tryCommit h₂

theorem deny_carrying {agent : Agent} {req : PaymentIntentRequest} {check : String}
    {reasons : List String} (hs : .insertProof r ∈ s) :
    Carrying r (fun _ => True) (deny H s agent req check reasons) :=
  carrying_bind (T := fun _ => True) (record_intent_carrying hs) fun _ _ => trivial

theorem acquireEach_carrying {id : String} {ids : List String} {R : Bool → Prop}
    (hs : .insertProof r ∈ s) : Carrying r R (acquireEach H s (id :: ids)) :=
  ⟨s, rfl, hs⟩

theorem evaluate_mandate_carrying {agent_id org_id : String} {p : Proposal} {require_signed : Bool}
    (hs : .insertProof r ∈ s) :
    Carrying r (fun d => .insertProof r ∈ d.2)
      (evaluate_mandate H s agent_id org_id p require_signed) := by
  refine carrying_query fun active => ?_
  split
  · exact carrying_query fun lapsed => hs
  · next hactive =>
    -- there is a mandate, so there is a gate to acquire, and its commit comes first
    cases hids : ((active.map UserPaymentMandate.mandate_id).dedup.insertionSort (· ≤ ·)) with
    | nil =>
      obtain ⟨m, hm⟩ := List.exists_mem_of_ne_nil active fun h => hactive (by rw [h]; rfl)
      have hmem : m.mandate_id ∈
          (active.map UserPaymentMandate.mandate_id).dedup.insertionSort (· ≤ ·) :=
        (List.mem_insertionSort _).mpr (List.mem_dedup.mpr (List.mem_map_of_mem hm))
      rw [hids] at hmem
      exact absurd hmem List.not_mem_nil
    | cons id ids =>
      refine carrying_bind (T := fun _ => False) ?_ fun _ h => h.elim
      unfold acquire_all_mandate_gates
      rw [hids]
      exact acquireEach_carrying hs

theorem decide_intent_carrying {agent : Agent} {parent : ParentAuthority}
    {req : PaymentIntentRequest} {now : Instant} {d : MandateDecision} (hs : .insertProof r ∈ s) :
    Carrying r (fun _ => True) (decide_intent H s agent parent req now d) := by
  refine carrying_query fun recent => ?_
  dsimp only
  split
  · exact carrying_bind (T := fun _ => True) (record_intent_carrying hs) fun _ _ => trivial
  · exact carrying_bind (T := fun _ => False) (record_intent_carrying hs) fun _ h => h.elim

theorem mandate_layer_carrying {agent : Agent} {parent : ParentAuthority}
    {req : PaymentIntentRequest} {now : Instant} {policy : Host.MandatePolicy}
    (hs : .insertProof r ∈ s) :
    Carrying r (fun _ => True) (mandate_layer H s agent parent req now policy) := by
  refine carrying_bind (evaluate_mandate_carrying hs) ?_
  intro d hd
  dsimp only
  split
  · exact deny_carrying hd
  · split
    · exact deny_carrying hd
    · split
      · exact deny_carrying hd
      · exact decide_intent_carrying hd

/-! ## Reconciliation and refunds -/

section
variable {row : Orm} {auth : BoundedAuthorization} {provider : RazorpayAdapter}

theorem reconcileCommit_carrying {status : String} {R : Except Raised Reconciled → Prop}
    (hs : .insertProof r ∈ s) : Carrying r R (reconcileCommit s row status) :=
  carrying_bind (T := fun _ => False) ⟨_, rfl, List.mem_append_left _ hs⟩ fun _ h => h.elim

theorem reconcileExit_carrying {to_state : TxnState} {ref : String × Json}
    (hs : .insertProof r ∈ s) : Carrying r (fun _ => True) (reconcileExit H s row to_state ref) := by
  unfold reconcileExit
  dsimp only
  split
  · trivial
  · exact carrying_audit_txn hs fun _ h => reconcileCommit_carrying h

theorem finishAdoption_carrying {target : TxnState} {p : PaymentFields} (hs : .insertProof r ∈ s) :
    Carrying r (fun _ => True) (finishAdoption s row target p) := by
  unfold finishAdoption
  split
  · split
    · trivial
    · exact reconcileCommit_carrying hs
  · exact reconcileCommit_carrying hs

theorem rejectPayment_carrying {p : PaymentFields} {text : String} (hs : .insertProof r ∈ s) :
    Carrying r (fun _ => True) (rejectPayment H s row auth p text) :=
  carrying_audit_txn hs fun _ h => reconcileCommit_carrying h

theorem adopt_payment_carrying {p : PaymentFields} (hs : .insertProof r ∈ s) :
    Carrying r (fun _ => True) (adopt_payment H s row auth p) := by
  unfold adopt_payment
  split
  · trivial
  · split
    · trivial
    · exact rejectPayment_carrying hs
    · split
      · exact rejectPayment_carrying hs
      · split
        · exact finishAdoption_carrying hs
        · split
          · trivial
          · exact carrying_query fun _ => carrying_audit_txn hs fun _ h => finishAdoption_carrying h

theorem adopt_status_carrying {payment : Json} (hs : .insertProof r ∈ s) :
    Carrying r (fun _ => True) (adopt_status H s row auth payment) := by
  unfold adopt_status
  split
  · trivial
  · split
    · exact reconcileExit_carrying hs
    · exact adopt_payment_carrying hs

/-- A provider call commits nothing. -/
theorem request_carrying {op : Op} : Carrying r (fun _ => True) (provider.request H op) := by
  unfold RazorpayAdapter.request
  split
  · trivial
  · exact fun _ => trivial

theorem read_payment_carrying (t : ProviderTransaction) :
    Carrying r (fun _ => True) (read_payment H provider t) := by
  unfold read_payment
  split
  · exact request_carrying
  · split
    · have hfetch : Carrying r (fun _ => True)
          (provider.fetch_payments H (t.razorpay_order_id.getD "")) :=
        carrying_bind request_carrying fun _ _ => trivial
      exact carrying_bind hfetch fun _ _ => trivial
    · trivial

theorem fetch_order_carrying (receipt : String) :
    Carrying r (fun _ => True) (provider.fetch_order_by_receipt H receipt) :=
  carrying_bind request_carrying fun _ _ => trivial

theorem reconcile_read_carrying (hs : .insertProof r ∈ s) :
    Carrying r (fun _ => True) (reconcile_read H s provider row auth) := by
  refine carrying_bind (read_payment_carrying _) fun payment _ => ?_
  split
  · exact reconcileCommit_carrying hs
  · split
    · exact reconcileCommit_carrying hs
    · unfold reconcile_payment
      split
      · exact adopt_status_carrying hs
      · refine carrying_bind (fetch_order_carrying _) fun order _ => ?_
        dsimp only
        split
        · exact adopt_status_carrying hs
        · split
          · split
            · exact reconcileExit_carrying hs
            · split
              · exact reconcileExit_carrying hs
              · exact adopt_status_carrying hs
          · trivial
          · trivial

theorem reconcile_row_carrying (hs : .insertProof r ∈ s) :
    Carrying r (fun _ => True) (reconcile_row H s row) := by
  unfold reconcile_row
  split
  · trivial
  · refine carrying_query fun auth => ?_
    split
    · trivial
    · refine carrying_query fun provider => ?_
      split
      · exact reconcileCommit_carrying hs
      · split
        · refine carrying_bind (fetch_order_carrying _) fun found _ => ?_
          split
          · trivial
          · split
            · exact reconcile_read_carrying hs
            · split
              · trivial
              · split
                · exact reconcile_read_carrying hs
                · split
                  · trivial
                  · exact reconcile_read_carrying hs
        · exact reconcile_read_carrying hs

theorem record_refund_carrying {a : Option BoundedAuthorization} {amount : Int} {result : Json}
    (hs : .insertProof r ∈ s) : Carrying r (fun _ => True) (record_refund H s row a amount result) := by
  unfold record_refund
  dsimp only
  split
  · trivial
  · refine carrying_query fun _ => carrying_query fun _ => carrying_audit hs fun _ h => ?_
    exact carrying_commit (List.mem_append_left _ h)

theorem refund_row_carrying {id : String} {req : RefundRequest} {t : ProviderTransaction}
    (hs : .insertProof r ∈ s) : Carrying r (fun _ => True) (refund_row H s id req t) := by
  unfold refund_row
  dsimp only
  split
  · trivial
  · split
    · trivial
    · refine carrying_query fun a => ?_
      split
      · trivial
      · refine carrying_query fun provider => ?_
        cases provider with
        | error e => trivial
        | ok provider =>
          have hrefund : ∀ ref amount, Carrying r (fun _ => True) (provider.refund H ref amount) := by
            intro ref amount
            unfold RazorpayAdapter.refund
            split
            · trivial
            · exact request_carrying
          refine carrying_bind (hrefund _ _) fun result _ => ?_
          split
          · exact carrying_commit (List.mem_append_left _ hs)
          · exact record_refund_carrying hs

end

end

/-! ## Every endpoint -/

/-- What the endpoints that write have in common: they look up the row they are about,
then authenticate. -/
def guarded {α : Type} (H : Host) (f : DB → Option α) (missing : Reply) (ctx : RequestContext)
    (body_token : String) (expected : α → Option String)
    (k : α → Authenticated → Handler Reply) : Handler Reply :=
  Handler.query f >>= fun row =>
    match row with
    | none => pure missing
    | some x =>
      Handler.attempt (pure (resolve_session_token H body_token ctx.authorization)) fun token =>
      Handler.attempt (authenticate H ctx token (expected x)) (k x)

/-- Its continuations carry the burnt row to their first commit. -/
def Burning {α : Type} (k : α → Authenticated → Handler Reply) : Prop :=
  ∀ x a r, .insertProof r ∈ a.pending → Carrying r (fun _ => True) (k x a)

section
variable {H : Host}

theorem submit_intent_guarded (ctx : RequestContext) (req : PaymentIntentRequest) :
    ∃ k : Unit → Authenticated → Handler Reply, Burning k ∧
      submit_payment_intent H ctx req =
        Handler.attempt (pure (resolve_session_token H req.session_token ctx.authorization)) fun token =>
          Handler.attempt (authenticate H ctx token none) (k ()) := by
  refine ⟨fun _ => _, fun _ a r hs => ?_, rfl⟩
  dsimp only
  split
  · trivial
  refine carrying_now fun now => carrying_query fun existing => ?_
  split
  · exact carrying_query fun _ => trivial
  refine carrying_query fun parent => ?_
  split
  · exact deny_carrying hs
  split
  · exact deny_carrying hs
  split
  · trivial
  · exact deny_carrying hs
  split
  · trivial
  · exact mandate_layer_carrying hs

/-- `request_mfa_challenge` once authenticated. -/
def challenge_row (H : Host) (intent : PaymentIntent) (a : Authenticated) : Handler Reply := do
  if !intent.awaitsStepUp then
    return http 400 "This intent does not require step-up approval"
  let now ← Handler.now
  let challenge_id ← Handler.fresh
  let nonce ← Handler.fresh
  let challenge : MFAChallenge := {
    challenge_id := H.uuid4 challenge_id, intent_id := intent.intent_id, org_id := intent.org_id
    nonce := H.uuid4 nonce, expires_at := now + Host.MFA_CHALLENGE_TTL, used := false }
  Handler.commit (a.pending ++ [.voidChallenges intent.intent_id, .insertChallenge challenge])
  return .challenge {
    challenge_id := challenge.challenge_id, intent_id := intent.intent_id
    nonce := challenge.nonce, context_to_sign := context_to_sign H challenge intent
    expires_at := challenge.expires_at }

theorem mfa_challenge_guarded (ctx : RequestContext) (req : MFAChallengeRequest) :
    request_mfa_challenge H ctx req =
      guarded H (fun db => db.intents.find? fun i => i.intent_id == req.intent_id)
        (http 404 "Payment intent not found") ctx req.session_token
        (fun intent => some intent.agent_id) (challenge_row H) := by
  refine congrArg (Handler.query _ >>= ·) (funext fun row => ?_)
  cases row <;> rfl

theorem challenge_row_burning : Burning (challenge_row H) := by
  intro intent a r hs
  unfold challenge_row
  split
  · trivial
  · exact carrying_now fun now => carrying_fresh fun _ => carrying_fresh fun _ =>
      carrying_commit (List.mem_append_left _ hs)

/-- `BoundedAuthorization` by id. -/
def authorizationOf (id : String) (db : DB) : Option BoundedAuthorization :=
  db.authorizations.find? fun a => a.authorization_id == id

/-- `consume_authorization` once authenticated. -/
def consume_row (H : Host) (id : String) (auth : BoundedAuthorization) (a : Authenticated) :
    Handler Reply :=
  Handler.attempt (revalidate_execution H auth) fun agent => do
  let reserved ← Handler.reserve id .consume
  if !reserved then
    Handler.rollback
    return http 409 "Authorization already used or revoked"
  let txn ← Handler.query fun db => db.txns.find? fun t => t.authorization_id == id
  Handler.commit (a.pending ++ countAttempt auth txn)
  let parent ← Handler.query fun db => parent_for db agent
  let llm ← Handler.query fun db => causal_labels db auth.intent_id
  execute H ⟨auth, agent.agent_id, parent.map ParentAuthority.parent_id, llm⟩

theorem consume_guarded (ctx : RequestContext) (id session_token : String) :
    consume_authorization H ctx id session_token =
      guarded H (authorizationOf id) (http 404 "Authorization not found") ctx session_token
        (fun auth => some auth.agent_id) (consume_row H id) := by
  refine congrArg (Handler.query _ >>= ·) (funext fun row => ?_)
  cases row <;> rfl

theorem consume_row_burning (id : String) : Burning (consume_row H id) := by
  intro auth a r hs
  refine carrying_bind (carrying_of_reads (revalidate_execution_reads H auth)) fun checked _ => ?_
  cases checked with
  | error e => trivial
  | ok agent =>
    refine carrying_reserve fun reserved => ?_
    split
    · exact carrying_rollback trivial
    · exact carrying_query fun txn => carrying_commit (List.mem_append_left _ hs)

/-- `revoke_authorization` once authenticated. -/
def revoke_row (H : Host) (id : String) (auth : BoundedAuthorization) (a : Authenticated) :
    Handler Reply := do
  let burned ← Handler.reserve id .revoke
  if !burned then
    Handler.rollback
    return http 409 "Authorization already used or revoked"
  let s ← record_audit H a.pending {
    transaction_id := auth.transaction_id, agent_id := auth.agent_id, parent_id := none
    kind := "authorization_revoked", org_id := some auth.org_id
    detail := [("authorization_id", .str id)] }
  Handler.commit s
  return .authorization_revoked id

theorem revoke_guarded (ctx : RequestContext) (id session_token : String) :
    revoke_authorization H ctx id session_token =
      guarded H (authorizationOf id) (http 404 "Authorization not found") ctx session_token
        (fun auth => some auth.agent_id) (revoke_row H id) := by
  refine congrArg (Handler.query _ >>= ·) (funext fun row => ?_)
  cases row <;> rfl

theorem revoke_row_burning (id : String) : Burning (revoke_row H id) := by
  intro auth a r hs
  refine carrying_reserve fun burned => ?_
  split
  · exact carrying_rollback trivial
  · exact carrying_audit hs fun _ h => carrying_commit h

/-- `manual_reconcile` once authenticated. -/
def reconcile_after (H : Host) (id : String) (_ : BoundedAuthorization) (a : Authenticated) :
    Handler Reply := do
  let result ← reconcile_one H a.pending id
  match result with
  | .ok r => return .reconciled r.status r.state
  | .error _ => .halt

theorem reconcile_guarded (ctx : RequestContext) (id session_token : String) :
    manual_reconcile H ctx id session_token =
      guarded H (authorizationOf id) (http 404 "Authorization not found") ctx session_token
        (fun auth => some auth.agent_id) (reconcile_after H id) := by
  refine congrArg (Handler.query _ >>= ·) (funext fun row => ?_)
  cases row <;> rfl

theorem reconcile_after_burning (id : String) : Burning (reconcile_after H id) := by
  intro auth a r hs
  have hone : Carrying r (fun _ => True) (reconcile_one H a.pending id) := by
    refine carrying_query fun t => ?_
    split
    · trivial
    · exact reconcile_row_carrying hs
  refine carrying_bind hone fun result _ => ?_
  split <;> trivial

theorem refund_guarded (ctx : RequestContext) (id : String) (req : RefundRequest) :
    refund_authorization H ctx id req =
      guarded H (fun db => db.txns.find? fun t => t.authorization_id == id)
        (http 404 "Authorization not found") ctx req.session_token
        (fun txn => some txn.agent_id) (fun txn a => refund_row H a.pending id req txn) := by
  refine congrArg (Handler.query _ >>= ·) (funext fun row => ?_)
  cases row <;> rfl

/-- The part in front of a continuation only reads: it leaves the first commit to it. -/
theorem reads_first {α β : Type} {R : α → Prop} {k : α → Handler β} {w : World} {a : α}
    {answers : List Answer} : ∀ {p : Handler α}, p.Reads R →
      (p.eval (World.exec 0) [] w).value = some a →
      (p >>= k).first (World.exec 0) Stmt.isCommit answers w =
        (k a).first (World.exec 0) Stmt.isCommit answers w := by
  intro p
  induction p with
  | ret b =>
    intro _ h
    rw [← Option.some.inj h]
    rfl
  | halt => intro _ h; exact absurd h (by simp [Prog.eval])
  | stmt s k' ih =>
    intro h hvalue
    obtain rfl : s = .select := h.1
    exact ih w (h.2 w) hvalue
  | call c k' _ => intro h; exact h.elim

variable {w w' : World} {ws : List Write} {jti token : String} {ctx : RequestContext}
  {expected : Option String} {answers : List Answer}

/-- After an accepted proof, the first commit carries its row. -/
theorem authenticate_first {β : Type} {k : Except Reply Authenticated → Handler β}
    (hk : ∀ a r, .insertProof r ∈ a.pending → Carrying r (fun _ => True) (k (.ok a)))
    {a : Authenticated} (ha : authenticated H w ctx token expected = some (.ok a))
    (hj : a.pending.burnt = some jti)
    (hfirst : (authenticate H ctx token expected >>= k).first (World.exec 0) Stmt.isCommit answers w =
      some (w', .commit ws)) : ∃ r, .insertProof r ∈ ws ∧ r.jti = jti := by
  rw [reads_first (authenticate_reads H ctx token expected) ha] at hfirst
  obtain ⟨r, hr, hjti, _⟩ := authenticated_burnt ha hj
  obtain ⟨ws', hws, hmem⟩ :=
    Prog.leads_first (hk a r (by rw [hr]; exact List.mem_singleton_self _)) hfirst
  obtain rfl : ws = ws' := Stmt.commit.inj hws
  exact ⟨r, hmem, hjti⟩

/-- The same behind the session token of a request that writes. -/
theorem session_first {body_token : String} {k : Authenticated → Handler Reply}
    (hk : ∀ a r, .insertProof r ∈ a.pending → Carrying r (fun _ => True) (k a))
    (haccept : (((resolve_session_token H body_token ctx.authorization).toOption.map
      fun token => (ctx, token, expected)).bind fun a =>
        match authenticated H w a.1 a.2.1 a.2.2 with
        | some (.ok authed) => authed.pending.burnt
        | _ => none) = some jti)
    (hfirst : ((Handler.attempt (pure (resolve_session_token H body_token ctx.authorization))
      fun token => Handler.attempt (authenticate H ctx token expected) k) >>=
        fun x => pure (Response.reply x)).first (World.exec 0) Stmt.isCommit answers w =
      some (w', .commit ws)) : ∃ r, .insertProof r ∈ ws ∧ r.jti = jti := by
  cases hres : resolve_session_token H body_token ctx.authorization with
  | error e =>
    rw [hres] at haccept
    exact absurd haccept (by simp [Except.toOption])
  | ok token =>
    rw [hres] at haccept hfirst
    simp only [Except.toOption, Option.map_some, Option.bind_some] at haccept
    split at haccept
    · next a ha =>
      unfold Handler.attempt at hfirst
      rw [Prog.pure_eq, Prog.ret_bind] at hfirst
      dsimp only at hfirst
      rw [Prog.bind_assoc] at hfirst
      refine authenticate_first (fun a r hr => ?_) ha haccept hfirst
      exact carrying_bind (hk a r hr) fun _ _ => trivial
    · exact absurd haccept (by simp)

theorem guarded_first {α : Type} {f : DB → Option α} {missing : Reply} {body_token : String}
    {expected : α → Option String} {k : α → Authenticated → Handler Reply} (hk : Burning k)
    (haccept : (((f w.db).bind fun x =>
      (resolve_session_token H body_token ctx.authorization).toOption.map
        fun token => (ctx, token, expected x)).bind fun a =>
          match authenticated H w a.1 a.2.1 a.2.2 with
          | some (.ok authed) => authed.pending.burnt
          | _ => none) = some jti)
    (hfirst : (guarded H f missing ctx body_token expected k >>=
        fun x => pure (Response.reply x)).first (World.exec 0) Stmt.isCommit answers w =
      some (w', .commit ws)) : ∃ r, .insertProof r ∈ ws ∧ r.jti = jti := by
  cases hrow : f w.db with
  | none =>
    rw [hrow] at haccept
    exact absurd haccept (by simp)
  | some x =>
    rw [hrow, Option.bind_some] at haccept
    replace hfirst : ((match f w.db with
      | none => pure missing
      | some x =>
        Handler.attempt (pure (resolve_session_token H body_token ctx.authorization)) fun token =>
        Handler.attempt (authenticate H ctx token (expected x)) (k x) : Handler Reply) >>=
          fun x => pure (Response.reply x)).first (World.exec 0) Stmt.isCommit answers w =
        some (w', .commit ws) := hfirst
    rw [hrow] at hfirst
    exact session_first (hk x) haccept hfirst

/-- An endpoint that only looks comes to no commit at all. -/
theorem asAgent_first {required : Bool} {k : Agent → Handler Response}
    (hk : ∀ agent, (k agent).Reads fun _ => True) :
    (asAgent H ctx required expected k).first (World.exec 0) Stmt.isCommit answers w ≠
      some (w', .commit ws) := by
  intro hfirst
  have hreads : (asAgent H ctx required expected k).Reads fun _ => True := by
    unfold asAgent
    split
    · trivial
    · split
      · trivial
      · refine Handler.reads_bind (authenticate_reads _ _ _ _) fun authed _ => ?_
        split
        · trivial
        · exact hk _
  exact Prog.leads_first
    (Prog.leads_of_quiet (P := fun _ => False) (fun _ hs => by rw [hs]; rfl) hreads) hfirst

theorem active_mandate_reads (agent_id : String) : (get_active_user_payment_mandate H ctx agent_id).first
    (World.exec 0) Stmt.isCommit answers w ≠ some (w', .commit ws) := by
  refine asAgent_first fun agent => Handler.reads_now fun now => Handler.reads_query fun m => ?_
  split
  · exact Handler.reads_query fun _ => trivial
  · refine Handler.reads_query fun view => ?_
    split <;> trivial

theorem provider_binding_reads (mandate_id : String) : (get_provider_binding H ctx mandate_id).first
    (World.exec 0) Stmt.isCommit answers w ≠ some (w', .commit ws) := by
  refine asAgent_first fun agent => Handler.reads_query fun b => ?_
  split <;> trivial

theorem audit_reads (transaction_id : String) : (query_audit H ctx transaction_id).first
    (World.exec 0) Stmt.isCommit answers w ≠ some (w', .commit ws) := by
  refine asAgent_first fun agent => Handler.reads_query fun events => ?_
  split
  · trivial
  split
  · trivial
  split
  · trivial
  exact Handler.reads_query fun _ => trivial

theorem proof_reads (transaction_id : String) : (get_proof_bundle H ctx transaction_id).first
    (World.exec 0) Stmt.isCommit answers w ≠ some (w', .commit ws) := by
  refine asAgent_first fun agent => Handler.reads_query fun bundle => ?_
  split
  · split
    · trivial
    · split <;> trivial
  · trivial
  · split <;> trivial

/-- Whichever exchange it is, an accepted proof is in its first commit. -/
theorem exchange_first {e : Exchange} (haccept : e.accepted H w = some jti)
    (hfirst : (Exchange.handler H e).first (World.exec 0) Stmt.isCommit answers w =
      some (w', .commit ws)) : ∃ r, .insertProof r ∈ ws ∧ r.jti = jti := by
  cases e with
  | active_mandate ctx id => exact absurd hfirst (active_mandate_reads id)
  | provider_binding ctx id => exact absurd hfirst (provider_binding_reads id)
  | audit ctx id => exact absurd hfirst (audit_reads id)
  | proof ctx id => exact absurd hfirst (proof_reads id)
  | request req =>
    replace hfirst : (handler H req >>= fun x => pure (Response.reply x)).first (World.exec 0)
      Stmt.isCommit answers w = some (w', .commit ws) := hfirst
    cases req with
    | submit_intent ctx req =>
      obtain ⟨k, hk, heq⟩ := submit_intent_guarded (H := H) ctx req
      rw [show handler H (.submit_intent ctx req) = _ from heq] at hfirst
      exact session_first (hk ()) haccept hfirst
    | mfa_challenge ctx req =>
      rw [show handler H (.mfa_challenge ctx req) = _ from mfa_challenge_guarded ctx req] at hfirst
      refine guarded_first challenge_row_burning ?_ hfirst
      exact haccept
    | consume ctx id token =>
      rw [show handler H (.consume ctx id token) = _ from consume_guarded ctx id token] at hfirst
      refine guarded_first (consume_row_burning id) ?_ hfirst
      exact haccept
    | revoke_authorization ctx id token =>
      rw [show handler H (.revoke_authorization ctx id token) = _ from
        revoke_guarded ctx id token] at hfirst
      refine guarded_first (revoke_row_burning id) ?_ hfirst
      exact haccept
    | reconcile ctx id token =>
      rw [show handler H (.reconcile ctx id token) = _ from
        reconcile_guarded ctx id token] at hfirst
      refine guarded_first (reconcile_after_burning id) ?_ hfirst
      exact haccept
    | refund ctx id req =>
      rw [show handler H (.refund ctx id req) = _ from refund_guarded ctx id req] at hfirst
      refine guarded_first (fun _ _ _ hs => refund_row_carrying hs) ?_ hfirst
      exact haccept
    | _ => exact absurd haccept (by simp [Exchange.accepted, Exchange.authentication])

/-- One exchange: a proof it accepts and then commits is on record. -/
theorem serve_burns {e : Exchange} (haccept : e.accepted H w = some jti)
    (hcommits : e.Commits H w answers) : (Exchange.serve H e answers w).store.db.Burnt jti := by
  obtain ⟨w₁, ws, db', hfirst, happly⟩ := hcommits
  obtain ⟨r, hr, rfl⟩ := exchange_first haccept hfirst
  have hdone : (World.exec 0 (.commit ws) w₁).db.Burnt r.jti := by
    show (World.commit 0 ws w₁).db.Burnt r.jti
    unfold World.commit
    rw [happly]
    exact applyAll_burns happly hr
  have hend : ((Exchange.handler H e).eval (World.exec 0) answers w).store.db.Burnt r.jti :=
    Prog.first_eval (I := fun w => w.db.Burnt r.jti) (exec_burnt 0) hdone hfirst
  show (World.rollback 0 _).db.Burnt r.jti
  unfold DB.Burnt
  rw [rollback_proofs]
  exact hend

/-- What is on record is not accepted in the rest of the run. -/
theorem burnt_not_accepted {steps : List Exchange.Step} : ∀ {w : World}, w.db.Burnt jti →
    jti ∉ Exchange.acceptances H w steps := by
  induction steps with
  | nil => intro w _; exact List.not_mem_nil
  | cons s steps ih =>
    intro w hb
    cases s with
    | tick d => exact ih hb
    | exchange e answers =>
      intro hmem
      rcases List.mem_append.mp hmem with h | h
      · exact accepted_unseen (Option.mem_toList.mp h) hb
      · exact ih (serve_burnt e answers hb) h

end

/-- **A request proof is accepted at most once**, in every run whose accepting exchanges
all come to a commit that goes through: no idempotent replay, no refusal after
authentication, no look-up. -/
theorem proof_single_use {H : Host} {w : World} {steps : List Exchange.Step}
    (hcommits : ∀ pre e answers post, steps = pre ++ .exchange e answers :: post →
      ∀ jti, e.accepted H (Exchange.run H w pre) = some jti →
        e.Commits H (Exchange.run H w pre) answers) :
    ∀ jti, (Exchange.acceptances H w steps).count jti ≤ 1 := by
  refine List.nodup_iff_count_le_one.mp ?_
  induction steps generalizing w with
  | nil => exact List.nodup_nil
  | cons s steps ih =>
    have hrest : (Exchange.acceptances H (Exchange.step H w s) steps).Nodup := by
      refine ih fun pre e answers post h => ?_
      exact hcommits (s :: pre) e answers post (by rw [h, List.cons_append])
    cases s with
    | tick d => exact hrest
    | exchange e answers =>
      show ((e.accepted H w).toList ++ _).Nodup
      cases haccept : e.accepted H w with
      | none => exact hrest
      | some jti =>
        have hburnt := serve_burns haccept (hcommits [] e answers steps rfl jti haccept)
        exact List.nodup_cons.mpr ⟨burnt_not_accepted hburnt, hrest⟩

namespace Sample

/-- A host whose sessions are protocol 1.0 and whose proofs name their method. -/
def provingHost : Host :=
  { host false [] with
    jwt_decode := fun _ token =>
      some ⟨some "paari_session", some token, some token, some "1.0", ""⟩
    proof_decode := fun _ _ method =>
      some ⟨"EdDSA", some "paari-proof", some "agent", some method, some "/", "agent", 0, some "jti"⟩ }

/-- One unused authorization of the agent. -/
def unspent : World := world (db [authorization 100] [txn .AUTHORIZED none none none])

/-- The agent's session with a proof for this method. -/
def proofCtx (method : String) : RequestContext := ⟨method, "/", method, "bearer agent"⟩

/-- The agent revokes the authorization, twice with the same proof. -/
def revokedTwice : List Exchange.Step :=
  [.exchange (.request (.revoke_authorization (proofCtx "POST") "auth" "")) [],
    .exchange (.request (.revoke_authorization (proofCtx "POST") "auth" "")) []]

/-- The agent asks for an audit trail, twice with the same proof. -/
def lookedTwice : List Exchange.Step :=
  [.exchange (.audit (proofCtx "GET") "trace") [], .exchange (.audit (proofCtx "GET") "trace") []]

end Sample

set_option maxRecDepth 2000 in
theorem proof_single_use_revoked :
    (Exchange.acceptances Sample.provingHost Sample.unspent Sample.revokedTwice).count "jti" ≤ 1 := by
  refine proof_single_use ?_ "jti"
  intro pre e answers post h jti haccept
  rcases pre with _ | ⟨s, _ | ⟨s', pre⟩⟩
  · obtain ⟨hs, _⟩ := List.cons.inj h
    obtain ⟨rfl, rfl⟩ := Exchange.Step.exchange.inj hs
    exact ⟨_, _, _, rfl, rfl⟩
  · -- the second time the proof is on record
    obtain ⟨rfl, hrest⟩ := List.cons.inj h
    obtain ⟨hs, _⟩ := List.cons.inj hrest
    obtain ⟨rfl, rfl⟩ := Exchange.Step.exchange.inj hs
    have hnone : Exchange.accepted Sample.provingHost
        (Exchange.run Sample.provingHost Sample.unspent (Sample.revokedTwice.take 1))
        (.request (.revoke_authorization (Sample.proofCtx "POST") "auth" "")) = none := rfl
    exact absurd (hnone.symm.trans haccept) (by simp)
  · have hlen := congrArg List.length h
    simp [Sample.revokedTwice] at hlen

set_option maxRecDepth 2000 in
/-- A look-up never commits, so its proof stays good for the next one. -/
theorem proof_used_twice :
    (Exchange.acceptances Sample.provingHost Sample.unspent Sample.lookedTwice).count "jti" = 2 := by
  have haccepted : Exchange.acceptances Sample.provingHost Sample.unspent Sample.lookedTwice =
      ["jti", "jti"] := rfl
  rw [haccepted]
  rfl

end Paari
