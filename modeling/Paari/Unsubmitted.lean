import Paari.Accounting

/-!
# Payments that were never handed to a provider

A transaction is with no provider yet while it is `AUTHORIZED`, `EXPIRED` or `CANCELLED`
and names no order and no payment. No webhook finds such a row and no reconciliation
reads anything for it, so besides the consumption that reserved its authorization only
the worker's dead-letter rule moves it. In every run, however its requests interleave, a
payment that no consumption reserved stays with no provider as long as no batch reads
its row with one attempt less than the rule allows (`never_submitted`).
-/

namespace Paari

open Atomic

/-- With no provider yet. -/
def ProviderTransaction.PreProvider (t : ProviderTransaction) : Prop :=
  t.state ∈ [TxnState.AUTHORIZED, .EXPIRED, .CANCELLED] ∧
    present t.razorpay_order_id = false ∧ present t.razorpay_payment_id = false

instance (t : ProviderTransaction) : Decidable t.PreProvider :=
  inferInstanceAs (Decidable (_ ∧ _ ∧ _))

/-- Equal in what `PreProvider` looks at. -/
structure ProviderTransaction.Alike (l c : ProviderTransaction) : Prop where
  state : c.state = l.state
  order : c.razorpay_order_id = l.razorpay_order_id
  payment : c.razorpay_payment_id = l.razorpay_payment_id

theorem ProviderTransaction.PreProvider.alike {l c : ProviderTransaction} (hl : l.PreProvider)
    (h : l.Alike c) : c.PreProvider := by
  unfold ProviderTransaction.PreProvider
  rw [h.state, h.order, h.payment]
  exact hl

/-! ## What a request does to such a row -/

/-- `P` lets alone what is with no provider yet: besides logs it allows any change of a
payment that is with a provider, and of the others what `PreProvider` does not look at. -/
structure Spares (P : Write → Prop) : Prop where
  logs : ∀ x : Write, x.Logs → P x
  moved : ∀ l c : ProviderTransaction, ¬ l.PreProvider → P (.updateTxn l c)
  kept : ∀ l c : ProviderTransaction, l.Alike c → P (.updateTxn l c)

section
variable {H : Host} {P : Write → Prop} {s : Session} {row row' : Orm} {α β : Type} {R : β → Prop}
  {auth : BoundedAuthorization} {provider : RazorpayAdapter}

theorem Session.All.audit (hP : ∀ x : Write, x.Logs → P x) (hs : s.All P) (e : AuditEvent) :
    Session.All P (s ++ [.insertAudit e]) :=
  hs.append (Session.all_one (hP _ (Write.logs_audit e)))

theorem writes_audit_txn {t : ProviderTransaction} {kind : String} {detail : List (String × Json)}
    {k : Session → Handler β} (h : ∀ e, (k (s ++ [.insertAudit e])).Writes P R) :
    (audit_txn H s t kind detail >>= k).Writes P R := by
  refine Handler.writes_reads (audit_txn_reads H s t kind detail) ?_
  rintro s' ⟨e, -, rfl⟩
  exact h e

theorem fetch_payments_writes (order_id : String) :
    (provider.fetch_payments H order_id).Writes P fun _ => True :=
  Handler.writes_bind (request_writes provider _) fun _ _ => trivial

theorem read_payment_writes (t : ProviderTransaction) :
    (read_payment H provider t).Writes P fun _ => True := by
  unfold read_payment
  split
  · exact request_writes provider _
  · split
    · exact Handler.writes_bind (fetch_payments_writes _) fun _ _ => trivial
    · trivial

/-- Nothing is read for a row that names nothing. -/
theorem read_payment_bare {t : ProviderTransaction} (h : t.PreProvider) :
    read_payment H provider t = pure (.ok .null) := by
  unfold read_payment
  rw [if_neg (by simp [h.2.2]), if_neg (by simp [h.2.1])]

theorem fetch_order_writes (receipt : String) :
    (provider.fetch_order_by_receipt H receipt).Writes P fun _ => True :=
  Handler.writes_bind (request_writes provider _) fun _ _ => trivial

theorem commit_writes (hs : s.All P) : (Handler.commit s).Writes P fun _ => True := by
  refine fun w => ⟨(), fun ws' h => ?_, ?_⟩
  · obtain rfl := Stmt.commit.inj h
    exact hs
  · show (Handler.committed (w.db.applyAll s)).Conforms (writing P) _ _
    cases w.db.applyAll s <;> trivial

/-- An expired row is read again. -/
theorem writes_reload {id : String} {k : Orm → Handler β}
    (h : ∀ t, (k (Orm.fresh t)).Writes P R) : (loadTxn id >>= k).Writes P R := by
  exact conforms_loadTxn fun w => ⟨(), fun _ hs => absurd hs (by simp), fun t _ _ => h t⟩

theorem commitState_writes (hs : s.All P) (hrow : P row.write) :
    (commitState s row).Writes P fun _ => True :=
  Handler.writes_commit (hs.append (Session.all_one hrow)) (writes_loadTxn fun _ _ => trivial)

/-- What `reconcile_one` leaves of a row it was given: that row, or one it may change. -/
def Remains (P : Write → Prop) (row : Orm) : Except Raised Reconciled → Prop
  | .error raised => raised.pending.All P ∧
      ∃ r, raised.row = some r ∧ ¬ r.loaded.PreProvider
  | .ok result => result.pending.All P ∧
      ∀ r, result.row = some r → r = row ∨ ¬ r.loaded.PreProvider

theorem reconcileCommit_writes (hs : s.All P) (hrow : P row.write) (status : String) :
    (reconcileCommit s row status).Writes P (Remains P row') :=
  Handler.writes_bind (commitState_writes hs hrow) fun _ _ =>
    ⟨Session.all_nil, fun _ h => absurd h (by simp)⟩

theorem reconcileReturn_remains (hs : s.All P) (hl : ¬ row.loaded.PreProvider) (status : String) :
    Remains P row' (reconcileReturn s row status) :=
  ⟨hs, fun _ h => .inr (Option.some.inj h ▸ hl)⟩

/-- A row found by its order is with a provider. -/
theorem txnByOrder_moved {db : DB} {order_id : String} (hid : order_id ≠ "")
    {t : ProviderTransaction} (h : txnByOrder db order_id = some t) : ¬ t.PreProvider := by
  have horder : t.razorpay_order_id = some order_id := by simpa using List.find?_some h
  intro ht
  have habsent := ht.2.1
  rw [horder] at habsent
  exact absurd habsent (by simp [present, hid])

theorem writes_select {f : DB → α} {k : α → Handler β} (h : ∀ db, (k (f db)).Writes P R) :
    (Handler.query f >>= k).Writes P R :=
  fun w => ⟨(), fun _ hs => absurd hs (by simp), h w.db⟩

variable (hP : Spares P)
include hP

/-! ### Confirming a capture -/

theorem rejectConfirmation_writes (hl : ¬ row.loaded.PreProvider) (text : String)
    (detail : List (String × Json)) :
    (rejectConfirmation H row text detail).Writes P fun _ => True :=
  writes_audit_txn fun e =>
    commitState_writes (Session.all_nil.audit hP.logs e) (hP.moved _ _ hl)

theorem confirmPaid_writes (hl : ¬ row.loaded.PreProvider) (p : PaymentFields) :
    (confirmPaid H row auth p).Writes P fun _ => True := by
  unfold confirmPaid
  split
  · trivial
  · exact rejectConfirmation_writes hP hl _ _
  split
  · exact rejectConfirmation_writes hP hl _ _
  dsimp only
  split
  · trivial
  · next moved hm =>
    obtain ⟨-, rfl⟩ := Orm.move_ok hm
    split
    · trivial
    · exact writes_audit_txn fun e =>
        commitState_writes (Session.all_nil.audit hP.logs e) (hP.moved _ _ hl)

theorem confirmFailed_writes (hl : ¬ row.loaded.PreProvider) (p : PaymentFields) :
    (confirmFailed H row p).Writes P fun _ => True := by
  unfold confirmFailed
  dsimp only
  split
  · trivial
  · next moved hm =>
    obtain ⟨-, rfl⟩ := Orm.move_ok hm
    exact writes_audit_txn fun e =>
      commitState_writes (Session.all_nil.audit hP.logs e) (hP.moved _ _ hl)

theorem confirm_capture_writes (t : ProviderTransaction) :
    (confirm_capture H provider (Orm.fresh t)).Writes P fun _ => True := by
  refine Handler.writes_query fun auth => ?_
  split
  · trivial
  by_cases ht : t.PreProvider
  · rw [show read_payment H provider (Orm.fresh t).cur = _ from read_payment_bare ht]
    trivial
  refine Handler.writes_bind (read_payment_writes _) fun payment _ => ?_
  split
  · exact commitState_writes Session.all_nil (hP.moved _ _ ht)
  split
  · trivial
  split
  · trivial
  split
  · exact confirmPaid_writes hP ht _
  split
  · exact confirmFailed_writes hP ht _
  · trivial

/-! ### Reconciling -/

theorem reconcileExit_writes (hs : s.All P) (hl : ¬ row.loaded.PreProvider) (to_state : TxnState)
    (ref : String × Json) :
    (reconcileExit H s row to_state ref).Writes P (Remains P row') := by
  unfold reconcileExit
  dsimp only
  split
  · exact reconcileReturn_remains hs hl _
  · next moved hm =>
    obtain ⟨-, rfl⟩ := Orm.move_ok hm
    refine writes_audit_txn fun e => reconcileCommit_writes (hs.audit hP.logs e) ?_ _
    exact hP.moved _ _ hl

theorem rejectPayment_writes (hs : s.All P) (hl : ¬ row.loaded.PreProvider) (p : PaymentFields)
    (text : String) : (rejectPayment H s row auth p text).Writes P (Remains P row') := by
  refine writes_audit_txn fun e => reconcileCommit_writes (hs.audit hP.logs e) ?_ _
  exact hP.moved _ _ hl

theorem finishAdoption_writes (hs : s.All P) (hl : ¬ row.loaded.PreProvider) (target : TxnState)
    (p : PaymentFields) : (finishAdoption s row target p).Writes P (Remains P row') := by
  unfold finishAdoption
  split
  · split
    · trivial
    · refine reconcileCommit_writes hs ?_ _
      exact hP.moved _ _ hl
  · exact reconcileCommit_writes hs (hP.moved _ _ hl) _

theorem adopt_payment_writes (hs : s.All P) (hl : ¬ row.loaded.PreProvider) (p : PaymentFields) :
    (adopt_payment H s row auth p).Writes P (Remains P row') := by
  unfold adopt_payment
  split
  · exact reconcileReturn_remains hs hl _
  split
  · exact ⟨hs, row, rfl, hl⟩
  · exact rejectPayment_writes hP hs hl _ _
  split
  · exact rejectPayment_writes hP hs hl _ _
  split
  · exact finishAdoption_writes hP hs hl _ _
  split
  · exact reconcileReturn_remains hs hl _
  · next moved hm =>
    obtain ⟨-, rfl⟩ := Orm.move_ok hm
    refine Handler.writes_query fun llm => writes_audit_txn fun e => ?_
    refine finishAdoption_writes hP (hs.audit hP.logs e) ?_ _ _
    exact hl

theorem adopt_status_writes (hs : s.All P) (hl : ¬ row.loaded.PreProvider) (payment : Json) :
    (adopt_status H s row auth payment).Writes P (Remains P row') := by
  unfold adopt_status
  split
  · exact ⟨hs, row, rfl, hl⟩
  split
  · exact reconcileExit_writes hP hs hl _ _
  · exact adopt_payment_writes hP hs hl _

theorem reconcile_payment_writes (hs : s.All P) (hl : ¬ row.loaded.PreProvider) (payment : Json) :
    (reconcile_payment H s provider row auth payment).Writes P (Remains P row') := by
  have hadopt : (adopt_status H s row auth payment).Writes P (Remains P row') :=
    adopt_status_writes hP hs hl payment
  unfold reconcile_payment
  split
  · exact hadopt
  refine Handler.writes_bind (fetch_order_writes _) fun order _ => ?_
  dsimp only
  split
  · exact hadopt
  split
  · split
    · exact reconcileExit_writes hP hs hl _ _
    split
    · exact reconcileExit_writes hP hs hl _ _
    · exact hadopt
  · exact ⟨hs, row, rfl, hl⟩
  · exact ⟨hs, row, rfl, hl⟩

theorem reconcile_read_writes (hs : s.All P) (hl : ¬ row.loaded.PreProvider) :
    (reconcile_read H s provider row auth).Writes P (Remains P row') := by
  refine Handler.writes_bind (read_payment_writes _) fun payment _ => ?_
  split
  · refine reconcileCommit_writes hs ?_ _
    exact hP.moved _ _ hl
  split
  · exact reconcileCommit_writes hs (hP.moved _ _ hl) _
  · exact reconcile_payment_writes hP hs hl _

theorem reconcile_row_writes (hs : s.All P) (t : ProviderTransaction) :
    (reconcile_row H s (Orm.fresh t)).Writes P (Remains P (Orm.fresh t)) := by
  have hreturn : ∀ status, Remains P (Orm.fresh t) (reconcileReturn s (Orm.fresh t) status) :=
    fun status => ⟨hs, fun _ h => .inl (Option.some.inj h).symm⟩
  unfold reconcile_row
  split
  · exact hreturn _
  refine Handler.writes_query fun auth => ?_
  split
  · exact hreturn _
  refine Handler.writes_query fun provider => ?_
  split
  · exact reconcileCommit_writes hs (hP.kept _ _ ⟨rfl, rfl, rfl⟩) _
  next provider =>
  by_cases ht : t.PreProvider
  · rw [if_neg]
    case hnc =>
      rintro ⟨hunknown, -⟩
      exact absurd ht.1 (by rw [show t.state = .PROVIDER_UNKNOWN from hunknown]; decide)
    unfold reconcile_read
    rw [show read_payment H provider (Orm.fresh t).cur = _ from read_payment_bare ht]
    exact reconcileCommit_writes hs (hP.kept _ _ ⟨rfl, rfl, rfl⟩) _
  · split
    · refine Handler.writes_bind (fetch_order_writes _) fun found _ => ?_
      split
      · exact ⟨hs, _, rfl, ht⟩
      split
      · exact reconcile_read_writes hP hs ht
      split
      · exact ⟨hs, _, rfl, ht⟩
      split
      · exact reconcile_read_writes hP hs ht
      split
      · trivial
      · exact reconcile_read_writes hP hs ht
    · exact reconcile_read_writes hP hs ht

theorem manual_reconcile_writes (ctx : RequestContext) (id token : String) :
    (manual_reconcile H ctx id token).Writes P fun _ => True := by
  refine Handler.writes_query fun auth => ?_
  split
  · trivial
  refine writes_authenticated fun a ha => ?_
  have hone : (reconcile_one H a.pending id).Writes P fun _ => True := by
    refine Handler.writes_query fun t => ?_
    split
    · trivial
    · next t =>
      exact Prog.conforms_mono (fun _ _ _ => trivial)
        (reconcile_row_writes hP (ha.notes fun _ h => hP.logs _ h.logs) t)
  refine Handler.writes_bind hone fun r _ => ?_
  split <;> trivial

/-! ### The worker -/

/-- The dead-letter rule: what it does to a row that is with no provider, `P` must allow. -/
theorem dead_letter_writes {n : Int}
    (hdead : ∀ l c : ProviderTransaction, l.PreProvider → l.state = .AUTHORIZED →
      n ≤ l.attempts + 1 → P (.updateTxn l c))
    (hs : s.All P) (hrow : (∃ t, row = Orm.fresh t) ∨ ¬ row.loaded.PreProvider) :
    (dead_letter H n s row).Writes P fun _ => True := by
  unfold dead_letter
  dsimp only
  split
  · -- one more attempt
    refine commit_writes (hs.append (Session.all_one ?_))
    rcases hrow with ⟨t, rfl⟩ | hl
    · exact hP.kept _ _ ⟨rfl, rfl, rfl⟩
    · exact hP.moved _ _ hl
  next hn =>
  split
  · refine commit_writes (hs.append (Session.all_one ?_))
    rcases hrow with ⟨t, rfl⟩ | hl
    · exact hP.kept _ _ ⟨rfl, rfl, rfl⟩
    · exact hP.moved _ _ hl
  · next moved hm =>
    obtain ⟨hmem, rfl⟩ := Orm.move_ok hm
    refine writes_audit_txn fun e => ?_
    refine commit_writes ((hs.audit hP.logs e).append (Session.all_one ?_))
    rcases hrow with ⟨t, rfl⟩ | hl
    · by_cases ht : t.PreProvider
      · refine hdead t _ ht ?_ (Int.not_lt.mp hn)
        -- of the three states only `AUTHORIZED` may become `PROVIDER_UNKNOWN`
        have hstates : ∀ st ∈ [TxnState.AUTHORIZED, .EXPIRED, .CANCELLED],
            TxnState.PROVIDER_UNKNOWN ∈ TRANSITION_TABLE st → st = .AUTHORIZED := by decide
        exact hstates _ ht.1 hmem
      · exact hP.moved _ _ ht
    · exact hP.moved _ _ hl

theorem batch_row_writes {n : Int}
    (hdead : ∀ l c : ProviderTransaction, l.PreProvider → l.state = .AUTHORIZED →
      n ≤ l.attempts + 1 → P (.updateTxn l c)) (t : ProviderTransaction) :
    (batch_row H n (Orm.fresh t)).Writes P fun _ => True := by
  refine Handler.writes_bind (reconcile_row_writes hP Session.all_nil t) fun r hr => ?_
  cases r with
  | error raised =>
    obtain ⟨hs, r, hrow, hl⟩ := hr
    simp only [hrow, Option.getD_some]
    exact commit_writes (hs.append (Session.all_one (hP.moved _ _ hl)))
  | ok result =>
    obtain ⟨hs, hrow⟩ := hr
    dsimp only
    split
    · trivial
    split
    · next after hafter =>
      refine dead_letter_writes hP hdead hs ?_
      rcases hrow after hafter with rfl | hl
      · exact .inl ⟨t, rfl⟩
      · exact .inr hl
    · exact writes_reload fun r => dead_letter_writes hP hdead hs (.inl ⟨r, rfl⟩)

theorem run_batch_writes {n : Int}
    (hdead : ∀ l c : ProviderTransaction, l.PreProvider → l.state = .AUTHORIZED →
      n ≤ l.attempts + 1 → P (.updateTxn l c)) : (run_batch H n).Writes P fun _ => True := by
  have hrest : ∀ rows : List ProviderTransaction, (batch_rest H n rows).Writes P fun _ => True := by
    intro rows
    induction rows with
    | nil => trivial
    | cons t rows ih =>
      exact writes_reload fun r => Handler.writes_bind (batch_row_writes hP hdead r) fun _ _ => ih
  refine Handler.writes_query fun rows => ?_
  split
  · trivial
  · exact Handler.writes_bind (batch_row_writes hP hdead _) fun _ _ =>
      Handler.writes_bind (hrest _) fun _ _ => trivial

/-! ### Events, refunds and revocations -/

theorem rejectEvent_writes (kind org_id : String) (detail : List (String × Json)) (reply : Reply) :
    (rejectEvent H auth kind org_id detail reply).Writes P fun _ => True :=
  Handler.writes_record_audit fun e _ _ =>
    Handler.writes_commit (Session.all_nil.audit hP.logs e) trivial

theorem applyEvent_writes (hl : ¬ row.loaded.PreProvider) (e : WebhookEvent) (event_id : String)
    (target : TxnState) :
    (applyEvent H provider row auth e event_id target).Writes P fun _ => True := by
  unfold applyEvent
  dsimp only
  split
  · trivial
  · next moved hm =>
    obtain ⟨-, rfl⟩ := Orm.move_ok hm
    split
    · trivial
    refine Handler.writes_query fun parent => Handler.writes_query fun llm => ?_
    refine Handler.writes_record_audit fun a _ _ => ?_
    refine Handler.writes_commit ((Session.all_nil.audit hP.logs a).append (Session.all_one ?_)) ?_
    · exact hP.moved _ _ hl
    · refine writes_reload fun t => ?_
      split
      · exact Handler.writes_bind (confirm_capture_writes hP t) fun _ _ => trivial
      · trivial

theorem checkEvent_writes (hl : ¬ row.loaded.PreProvider) (raw : String) (e : WebhookEvent) :
    (checkEvent H provider raw row auth e).Writes P fun _ => True := by
  refine Handler.writes_query fun mismatch => ?_
  split
  · trivial
  · exact rejectEvent_writes hP _ _ _ _
  split
  · refine Handler.writes_query fun seen => ?_
    split
    · trivial
    split
    · trivial
    split
    · trivial
    · exact rejectEvent_writes hP _ _ _ _
    · exact applyEvent_writes hP hl _ _ _
  · trivial

theorem razorpay_webhook_writes (raw signature : String) :
    (razorpay_webhook H raw signature).Writes P fun _ => True := by
  unfold razorpay_webhook
  split
  · trivial
  split
  · trivial
  split
  · trivial
  next e _ =>
  split
  · trivial
  next order_id horder =>
  refine writes_select fun db => Handler.writes_query fun provider => ?_
  split
  · trivial
  next provider _ =>
  split
  · trivial
  split
  · trivial
  next order_id =>
  have hid : order_id ≠ "" := by
    rintro rfl
    split at horder
    · next htruthy =>
      cases ho : e.order_id with
      | str x =>
        rw [ho] at horder htruthy
        obtain rfl : x = "" := Option.some.inj (Option.some.inj horder)
        exact absurd htruthy (by decide)
      | _ => rw [ho] at horder; simp [bindText] at horder
    · exact absurd horder (by simp [bindText])
  refine writes_select fun db' => ?_
  split
  · trivial
  next found hfound =>
  refine Handler.writes_query fun auth => ?_
  split
  · trivial
  refine checkEvent_writes hP ?_ _ _
  -- the row the session already held, or the one found now
  show ¬ (identity ((some order_id).bind (txnByOrder db)) found).PreProvider
  unfold identity
  split
  · next t ht =>
    split
    · exact txnByOrder_moved hid ht
    · exact txnByOrder_moved hid hfound
  · exact txnByOrder_moved hid hfound

theorem record_refund_writes (hs : s.All P) (hl : ¬ row.loaded.PreProvider)
    (auth : Option BoundedAuthorization) (amount : Int) (result : Json) :
    (record_refund H s row auth amount result).Writes P fun _ => True := by
  unfold record_refund
  dsimp only
  split
  · trivial
  · next moved hm =>
    obtain ⟨-, rfl⟩ := Orm.move_ok hm
    refine Handler.writes_query fun parent => Handler.writes_query fun llm => ?_
    refine Handler.writes_record_audit fun e _ _ => ?_
    refine Handler.writes_commit ((hs.audit hP.logs e).append (Session.all_one ?_)) ?_
    · exact hP.moved _ _ hl
    · refine writes_reload fun t => ?_
      split <;> trivial

theorem refund_authorization_writes (ctx : RequestContext) (id : String) (req : RefundRequest) :
    (refund_authorization H ctx id req).Writes P fun _ => True := by
  refine Handler.writes_query fun txn => ?_
  split
  · trivial
  next t =>
  refine writes_authenticated fun a ha => ?_
  have hs := ha.notes fun x h => hP.logs x h.logs
  dsimp only
  split
  · trivial
  next hpaid =>
  have ht : ¬ t.PreProvider := by
    rw [ne_eq, not_not] at hpaid
    exact fun h => absurd h.1 (by rw [show t.state = .PAID from hpaid]; decide)
  split
  · trivial
  refine Handler.writes_query fun auth => ?_
  split
  · trivial
  refine Handler.writes_query fun provider => ?_
  split
  · trivial
  next provider =>
  have hrefund : ∀ payment_id amount, (provider.refund H payment_id amount).Writes P fun _ => True := by
    intro payment_id amount
    unfold RazorpayAdapter.refund
    split
    · trivial
    · exact request_writes provider _
  refine Handler.writes_bind (hrefund _ _) fun result _ => ?_
  split
  · exact Handler.writes_commit (hs.append (Session.all_one (hP.moved _ _ ht))) trivial
  · exact record_refund_writes hP hs ht _ _ _

end

/-! ## The protocol of every handler -/

/-- What a handler has in hand: transaction rows it has read, the authorization it
reserved in order to consume it, and the dead-letter limit, if it is the worker. -/
structure Hand where
  rows : List ProviderTransaction
  taken : Option String
  limit : Option Int

/-- Where the row of an `UPDATE` comes from: read before, inserted by the same commit, or
updated by it once already. -/
def Hand.Has (q : Hand) (ws : List Write) (l : ProviderTransaction) : Prop :=
  l ∈ q.rows ∨ .insertTxn l ∈ ws ∨
    ∃ k ∈ q.rows, .updateTxn k l ∈ ws ∧ k.authorization_id = l.authorization_id

/-- What excuses an `UPDATE` that takes a payment to a provider: the handler reserved its
authorization, or parks it under the dead-letter rule. -/
def Hand.Excused (q : Hand) (l : ProviderTransaction) : Prop :=
  q.taken = some l.authorization_id ∨
    ∃ n, q.limit = some n ∧ l.state = .AUTHORIZED ∧ n ≤ l.attempts + 1

/-- The writes a handler may commit. -/
structure Hand.May (q : Hand) (ws : List Write) : Prop where
  insert : ∀ t, .insertTxn t ∈ ws → t.PreProvider
  update : ∀ l c, .updateTxn l c ∈ ws → c.authorization_id = l.authorization_id ∧ q.Has ws l ∧
    ((l.PreProvider → c.PreProvider) ∨ q.Excused l)

/-- The protocol of every handler. -/
def counter : Protocol World Stmt Call Answer Hand where
  stmt q s w q' :=
    q'.limit = q.limit ∧ (∀ t ∈ q'.rows, t ∈ q.rows ∨ s = .select ∧ t ∈ w.db.txns) ∧
      (q'.taken = q.taken ∨
        ∃ id, s = .reserve id .consume ∧ w.reservable id = true ∧ q'.taken = some id) ∧
      ∀ ws, s = .commit ws → q.May ws
  call q _ _ q' := q' = q

/-- The dead-letter limit of the worker. -/
def Request.limit : Request → Option Int
  | .batch n => some n
  | _ => none

/-- The writes of a settlement handler that consumes nothing. -/
def Write.Spare (limit : Option Int) : Write → Prop
  | .updateTxn l c => (l.PreProvider → c.PreProvider) ∨
      ∃ n, limit = some n ∧ l.state = .AUTHORIZED ∧ n ≤ l.attempts + 1
  | .insertTxn _ => False
  | _ => True

theorem spares_spare (limit : Option Int) : Spares (Write.Spare limit) where
  logs x hx := by
    rcases hx with ⟨e, rfl⟩ | ⟨p, rfl⟩ <;> trivial
  moved _ _ hl := .inl fun h => absurd h hl
  kept _ _ h := .inl fun hl => hl.alike h

/-- The writes of a consumption that reserved its authorization. -/
def Write.Spends (id : String) : Write → Prop
  | .updateTxn l _ => l.authorization_id = id
  | .insertTxn _ => False
  | _ => True

section
variable {H : Host} {α : Type}

/-- A commit at the desk that `P` restricts is one the handler may make. -/
theorem May.of_desk {d : Desk} {q : Hand} {ws : List Write} (h : d.Submittable H ws)
    (hrows : q.rows = d.rows) (hinsert : ∀ t, .insertTxn t ∉ ws)
    (hupdate : ∀ l c, .updateTxn l c ∈ ws → (l.PreProvider → c.PreProvider) ∨ q.Excused l) :
    q.May ws where
  insert t ht := absurd ht (hinsert t)
  update l c hlc := by
    have hmem := mem_updates.mpr hlc
    rcases h.rows with hnone | ⟨l', c', hone, hl', hsound⟩ | ⟨l', m, c', htwo, hl', hne, hlm, hmc, -⟩
    · rw [hnone] at hmem
      exact absurd hmem List.not_mem_nil
    · rw [hone] at hmem
      obtain ⟨rfl, rfl⟩ := Prod.mk.inj (List.mem_singleton.mp hmem)
      exact ⟨hsound.key, .inl (hrows ▸ hl'.resolve_right (hinsert l)), hupdate l c hlc⟩
    · rw [htwo] at hmem
      rcases List.mem_cons.mp hmem with hfirst | hsecond
      · obtain ⟨rfl, rfl⟩ := Prod.mk.inj hfirst
        exact ⟨hlm.key, .inl (hrows ▸ hl'), hupdate l c hlc⟩
      · obtain ⟨rfl, rfl⟩ := Prod.mk.inj (List.mem_singleton.mp hsecond)
        have hfirst : .updateTxn l' l ∈ ws := mem_updates.mp (by rw [htwo]; exact List.mem_cons_self)
        exact ⟨hmc.key, .inr (.inr ⟨l', hrows ▸ hl', hfirst, hlm.key.symm⟩),
          hupdate l c hlc⟩

/-- A settlement handler that consumes nothing. -/
theorem counter_of_spare {limit : Option Int} {p : Handler α} {d : Desk}
    (hdesk : p.Conforms (desk H) (fun _ _ => True) d)
    (hwrites : p.Writes (Write.Spare limit) fun _ => True) :
    p.Conforms counter (fun _ _ => True) ⟨d.rows, none, limit⟩ := by
  refine Prog.conforms_map (fun q : Desk × Unit => (⟨q.1.rows, none, limit⟩ : Hand)) ?_ ?_ ?_
    (Prog.conforms_prod hdesk hwrites)
  · rintro ⟨d, _⟩ s w ⟨d', _⟩ ⟨⟨hallow, hd'⟩, hspare⟩
    obtain rfl : d' = d.after s w := hd'
    refine ⟨rfl, ?_, .inl rfl, ?_⟩
    · intro t ht
      cases s with
      | select => exact (List.mem_append.mp ht).imp_right fun h => ⟨rfl, h⟩
      | commit ws => exact absurd ht List.not_mem_nil
      | _ => exact .inl ht
    · rintro ws rfl
      have hws := hspare ws rfl
      exact May.of_desk hallow rfl (fun t ht => hws _ ht) fun l c hlc => (hws _ hlc).imp_right .inr
  · rintro ⟨d, _⟩ c a ⟨d', _⟩ ⟨⟨-, hd'⟩, -⟩
    obtain rfl : d' = d.called c a := hd'
    rfl
  · exact fun _ _ _ => trivial

/-- A consumption from its reservation on. -/
theorem counter_of_spends {id : String} {p : Handler α} {d : Desk}
    (hdesk : p.Conforms (desk H) (fun _ _ => True) d)
    (hwrites : p.Writes (Write.Spends id) fun _ => True) :
    p.Conforms counter (fun _ _ => True) ⟨d.rows, some id, none⟩ := by
  refine Prog.conforms_map (fun q : Desk × Unit => (⟨q.1.rows, some id, none⟩ : Hand)) ?_ ?_ ?_
    (Prog.conforms_prod hdesk hwrites)
  · rintro ⟨d, _⟩ s w ⟨d', _⟩ ⟨⟨hallow, hd'⟩, hspends⟩
    obtain rfl : d' = d.after s w := hd'
    refine ⟨rfl, ?_, .inl rfl, ?_⟩
    · intro t ht
      cases s with
      | select => exact (List.mem_append.mp ht).imp_right fun h => ⟨rfl, h⟩
      | commit ws => exact absurd ht List.not_mem_nil
      | _ => exact .inl ht
    · rintro ws rfl
      have hws := hspends ws rfl
      exact May.of_desk hallow rfl (fun t ht => hws _ ht) fun l c hlc =>
        .inr (.inl (congrArg some (hws _ hlc).symm))
  · rintro ⟨d, _⟩ c a ⟨d', _⟩ ⟨⟨-, hd'⟩, -⟩
    obtain rfl : d' = d.called c a := hd'
    rfl
  · exact fun _ _ _ => trivial

/-- A handler that updates no transaction. -/
theorem counter_of_writes {P : Write → Prop} {p : Handler α} (hp : p.Writes P fun _ => True)
    (hinsert : ∀ t, P (.insertTxn t) → t.PreProvider) (hupdate : ∀ l c, ¬ P (.updateTxn l c)) :
    p.Conforms counter (fun _ _ => True) ⟨[], none, none⟩ := by
  have hp' : p.Conforms (writing P) (fun _ _ => True) () := hp
  refine Prog.conforms_map (fun _ => (⟨[], none, none⟩ : Hand)) ?_ ?_ ?_ hp'
  · rintro _ s w _ hs
    refine ⟨rfl, fun t ht => absurd ht List.not_mem_nil, .inl rfl, ?_⟩
    rintro ws rfl
    exact ⟨fun t ht => hinsert t (hs ws rfl _ ht), fun l c hlc => absurd (hs ws rfl _ hlc) (hupdate l c)⟩
  · exact fun _ _ _ _ _ => rfl
  · exact fun _ _ _ => trivial

end

/-! ## Every handler follows it -/

section
variable {H : Host} {q : Hand} {α β : Type} {Post : β → Hand → Prop}

theorem counter_select (q : Hand) (w : World) : counter.stmt q .select w q :=
  ⟨rfl, fun _ => .inl, .inl rfl, fun _ h => absurd h (by simp)⟩

theorem counter_query {f : DB → α} {k : α → Handler β}
    (h : ∀ db, (k (f db)).Conforms counter Post q) :
    (Handler.query f >>= k).Conforms counter Post q :=
  fun w => ⟨q, counter_select q w, h w.db⟩

/-- A query whose rows the handler keeps in hand. -/
theorem counter_load {f : DB → α} {k : α → Handler β}
    (h : ∀ db, (k (f db)).Conforms counter Post { q with rows := db.txns }) :
    (Handler.query f >>= k).Conforms counter Post q := by
  refine fun w => ⟨{ q with rows := w.db.txns }, ⟨rfl, ?_, .inl rfl, ?_⟩, h w.db⟩
  · exact fun t ht => .inr ⟨rfl, ht⟩
  · exact fun _ hs => absurd hs (by simp)

theorem counter_reads {R : α → Prop} {p : Handler α} {k : α → Handler β} (hp : p.Reads R)
    (hk : ∀ a, R a → (k a).Conforms counter Post q) : (p >>= k).Conforms counter Post q := by
  have hstep : ∀ q s w, s = Stmt.select → ∃ q', counter.stmt q s w q' ∧ q = q' := by
    rintro q s w rfl
    exact ⟨q, counter_select q w, rfl⟩
  have hquiet : p.Conforms counter (fun a q' => q = q' ∧ R a) q :=
    Prog.conforms_of_quiet (fun _ => rfl) (fun _ _ _ => Eq.trans) hstep hp
  refine Prog.conforms_seq hquiet ?_
  rintro a q' ⟨rfl, ha⟩
  exact hk a ha

theorem counter_attempt {R : Except Reply α → Prop} {p : Handler (Except Reply α)}
    {k : α → Handler Reply} (hp : p.Reads R)
    (hk : ∀ a, R (.ok a) → (k a).Conforms counter (fun _ _ => True) q) :
    (Handler.attempt p k).Conforms counter (fun _ _ => True) q := by
  refine counter_reads hp fun r hr => ?_
  cases r with
  | error e => trivial
  | ok a => exact hk a hr

theorem counter_commit {ws : List Write} {k : Unit → Handler β} (hws : q.May ws)
    (h : (k ()).Conforms counter Post { q with rows := [] }) :
    (Handler.commit ws >>= k).Conforms counter Post q := by
  refine Handler.conforms_commit fun w =>
    ⟨{ q with rows := [] }, ⟨rfl, ?_, .inl rfl, ?_⟩, fun _ _ => h⟩
  · exact fun t ht => absurd ht List.not_mem_nil
  · intro ws' hs
    obtain rfl := Stmt.commit.inj hs
    exact hws

theorem record_provider_txn_pre (auth : BoundedAuthorization) :
    (record_provider_txn auth).PreProvider := ⟨by simp [record_provider_txn], rfl, rfl⟩

/-- The commit of a reservation only counts an attempt. -/
theorem May.of_attempt {s : Session} (hs : s.OnlyProofs) (auth : BoundedAuthorization)
    {txn : Option ProviderTransaction} (htxn : ∀ t, txn = some t → t ∈ q.rows) :
    q.May (s ++ countAttempt auth txn) := by
  have hproof : ∀ x ∈ s, ∃ p, x = .insertProof p := hs
  refine ⟨fun t ht => ?_, fun l c hlc => ?_⟩
  · rcases List.mem_append.mp ht with ht | ht
    · obtain ⟨p, hp⟩ := hproof _ ht
      exact absurd hp (by simp)
    cases txn with
    | some t' => simp [countAttempt] at ht
    | none =>
      simp only [countAttempt, List.mem_cons, Write.insertTxn.injEq, reduceCtorEq, List.not_mem_nil,
        or_false] at ht
      exact ht ▸ record_provider_txn_pre auth
  · rcases List.mem_append.mp hlc with h | h
    · obtain ⟨p, hp⟩ := hproof _ h
      exact absurd hp (by simp)
    cases txn with
    | some t' =>
      simp only [countAttempt, List.mem_singleton, Write.updateTxn.injEq] at h
      obtain ⟨rfl, rfl⟩ := h
      exact ⟨rfl, .inl (htxn _ rfl), .inl fun hl => hl.alike ⟨rfl, rfl, rfl⟩⟩
    | none =>
      simp only [countAttempt, List.mem_cons, Write.updateTxn.injEq, reduceCtorEq, false_or,
        List.not_mem_nil, or_false] at h
      obtain ⟨rfl, rfl⟩ := h
      refine ⟨rfl, .inr (.inl ?_), .inl fun hl => hl.alike ⟨rfl, rfl, rfl⟩⟩
      exact List.mem_append_right _ List.mem_cons_self

theorem consume_authorization_counter (ctx : RequestContext) (id token : String) :
    (consume_authorization H ctx id token).Conforms counter (fun _ _ => True) ⟨[], none, none⟩ := by
  refine counter_query fun db => ?_
  split
  · trivial
  next auth hfind =>
  obtain rfl : auth.authorization_id = id := by simpa using List.find?_some hfind
  have hpure : (pure (resolve_session_token H token ctx.authorization) :
      Handler (Except Reply String)).Reads fun _ => True := trivial
  refine counter_attempt hpure fun token _ => ?_
  refine counter_attempt (authenticate_reads H ctx token _) fun a ha => ?_
  refine counter_attempt (revalidate_execution_reads H auth) fun agent _ => ?_
  refine fun w₁ => ?_
  show ∃ q', _ ∧ (if !w₁.reservable auth.authorization_id then _ else _ : Handler Reply).Conforms _ _ _
  cases hfree : w₁.reservable auth.authorization_id with
  | false =>
    refine ⟨_, ⟨rfl, fun _ => .inl, .inl rfl, fun _ h => absurd h (by simp)⟩, ?_⟩
    exact fun w₂ => ⟨⟨[], none, none⟩, ⟨rfl, fun _ => .inl, .inl rfl, fun _ h => absurd h (by simp)⟩,
      trivial⟩
  | true =>
    refine ⟨⟨[], some auth.authorization_id, none⟩,
      ⟨rfl, fun _ => .inl, .inr ⟨_, rfl, hfree, rfl⟩, fun _ h => absurd h (by simp)⟩, ?_⟩
    refine counter_load fun db => ?_
    refine counter_commit (May.of_attempt (ha a rfl) auth fun t ht => List.mem_of_find?_eq_some ht) ?_
    refine counter_query fun db₁ => counter_query fun db₂ => ?_
    have hdesk := execute_conforms (H := H)
      (q := ⟨[auth], [], [], .won auth.authorization_id, .consume⟩)
      ⟨auth, agent.agent_id, (parent_for db₁ agent).map ParentAuthority.parent_id,
        causal_labels db₂ auth.intent_id⟩ (List.mem_singleton_self _) ⟨rfl, rfl⟩
    exact counter_of_spends hdesk (execute_writes ⟨fun _ _ h => h, fun _ _ => trivial⟩)

/-- The writes of a request that moves no transaction, but may mint one. -/
def Write.Fresh : Write → Prop
  | .insertTxn t => t.PreProvider
  | .updateTxn _ _ => False
  | _ => True

theorem Write.Logs.fresh {x : Write} (h : x.Logs) : x.Fresh := by
  rcases h with ⟨e, rfl⟩ | ⟨p, rfl⟩ <;> trivial

theorem counter_of_fresh {p : Handler α} (hp : p.Writes Write.Fresh fun _ => True) :
    p.Conforms counter (fun _ _ => True) ⟨[], none, none⟩ :=
  counter_of_writes hp (fun _ h => h) fun _ _ h => h

theorem Request.Allows.fresh {r : Request} (hr : r.quiet = true)
    (hverify : ∀ req, r ≠ .mfa_verify req) {x : Write} (h : r.Allows x) : x.Fresh := by
  rcases h with h | h
  · exact h.fresh
  · cases r with
    | mfa_verify req => exact absurd rfl (hverify req)
    | _ =>
      revert h
      cases x <;> simp [Request.mayWrite, Write.Enrols, Write.Fresh, Request.quiet] at hr ⊢

/-- **Every handler follows the protocol.** -/
theorem handler_counter (H : Host) (r : Request) :
    (handler H r).Conforms counter (fun _ _ => True) ⟨[], none, r.limit⟩ := by
  have hlogs : ∀ x : Write, x.Logs → x.Fresh := fun _ h => h.fresh
  have hspare := spares_spare none
  cases r with
  | consume ctx id token => exact consume_authorization_counter ctx id token
  | batch n =>
    refine counter_of_spare (handler_conforms H (r := .batch n) rfl) (run_batch_writes
      (spares_spare (some n)) fun l c _ hauth hle => .inr ⟨n, rfl, hauth, hle⟩)
  | revoke_authorization ctx id token =>
    refine counter_of_spare (handler_conforms H (r := .revoke_authorization ctx id token) rfl) ?_
    exact Handler.writes_mono (fun x hx => hspare.logs x hx.logs)
      (revoke_authorization_writes ctx id token)
  | webhook raw signature =>
    exact counter_of_spare (handler_conforms H (r := .webhook raw signature) rfl)
      (razorpay_webhook_writes hspare raw signature)
  | refund ctx id req =>
    exact counter_of_spare (handler_conforms H (r := .refund ctx id req) rfl)
      (refund_authorization_writes hspare ctx id req)
  | reconcile ctx id token =>
    exact counter_of_spare (handler_conforms H (r := .reconcile ctx id token) rfl)
      (manual_reconcile_writes hspare ctx id token)
  | submit_intent ctx req =>
    exact counter_of_fresh (submit_payment_intent_writes hlogs (fun _ => trivial)
      (fun _ _ => trivial) record_provider_txn_pre ctx req)
  | mfa_verify req =>
    exact counter_of_fresh (verify_mfa_challenge_writes (fun x h => hlogs x h.logs)
      (fun _ => trivial) (fun _ _ => trivial) (fun _ _ => trivial) record_provider_txn_pre req)
  | sweep key =>
    refine counter_of_fresh (Handler.writes_mono (fun x hx => ?_) (handler_writes H (.sweep key)))
    rcases hx with h | h
    · exact h.fresh
    · revert h
      cases x <;> simp [Request.mayWrite, Write.Fresh]
  | _ =>
    refine counter_of_fresh (Handler.writes_mono (fun x hx => ?_) (handler_writes H _))
    exact hx.fresh rfl (by simp)

end

/-! ## Runs -/

/-- Every payment of the authorization is with no provider yet. -/
def DB.Waiting (id : String) (db : DB) : Prop :=
  ∀ t ∈ db.txns, t.authorization_id = id → t.PreProvider

/-- The step of a consumption that takes the authorization's use. -/
def Reserves (id : String) : Event World Stmt Call Answer → Prop
  | .stmt _ (.reserve id' .consume) w => id' = id ∧ w.reservable id = true
  | _ => False

instance (id : String) : DecidablePred (Reserves id) := fun ev =>
  match ev with
  | .stmt _ (.reserve id' .consume) w =>
    inferInstanceAs (Decidable (id' = id ∧ w.reservable id = true))
  | .stmt _ (.reserve _ .revoke) _ | .stmt _ .select _ | .stmt _ .fresh _ | .stmt _ (.commit _) _
  | .stmt _ (.try_gate _) _ | .stmt _ .rollback _ | .call _ _ _ _ | .died _ _ =>
    inferInstanceAs (Decidable False)

/-- Some consumption reserved the authorization. -/
def Reserved (id : String) (tr : List (Event World Stmt Call Answer)) : Prop :=
  ∃ ev ∈ tr, Reserves id ev

instance (id : String) : DecidablePred (Reserved id) :=
  fun tr => inferInstanceAs (Decidable (∃ ev ∈ tr, Reserves id ev))

/-- The dead-letter rule does not park a row read like this. -/
def ProviderTransaction.Early (limit : Option Int) (t : ProviderTransaction) : Prop :=
  ∀ n ∈ limit, t.state = .AUTHORIZED → t.attempts + 1 < n

instance (limit : Option Int) (t : ProviderTransaction) : Decidable (t.Early limit) :=
  inferInstanceAs (Decidable (∀ n ∈ limit, t.state = .AUTHORIZED → t.attempts + 1 < n))

/-- As long as nobody has reserved the authorization, no batch commits a row of it that it
loaded when one more attempt would reach its limit. -/
def Patient (reqs : List Request) (id : String) (tr : List (Event World Stmt Call Answer)) :
    Event World Stmt Call Answer → Prop
  | .stmt i (.commit ws) _ => ¬ Reserved id tr → ∀ u ∈ updates ws,
      u.1.authorization_id = id → u.1.Early (reqs[i]?.bind Request.limit)
  | _ => True

instance (reqs : List Request) (id : String) (tr : List (Event World Stmt Call Answer)) :
    DecidablePred (Patient reqs id tr) := fun ev =>
  match ev with
  | .stmt i (.commit ws) _ => inferInstanceAs (Decidable (¬ Reserved id tr →
      ∀ u ∈ updates ws, u.1.authorization_id = id →
        u.1.Early (reqs[i]?.bind Request.limit)))
  | .stmt _ (.reserve _ _) _ | .stmt _ .fresh _ | .stmt _ .select _ | .stmt _ (.try_gate _) _
  | .stmt _ .rollback _ | .call _ _ _ _ | .died _ _ => inferInstanceAs (Decidable True)

section
variable {id : String} {db db' : DB} {w : World}

theorem DB.Waiting.congr (h : db.Waiting id) (htxns : db'.txns = db.txns) : db'.Waiting id := by
  intro t ht
  rw [htxns] at ht
  exact h t ht

/-- An `UPDATE` gives a row its own columns or the session's. -/
theorem ProviderTransaction.PreProvider.patch {l c t : ProviderTransaction} (ht : t.PreProvider)
    (hc : c.PreProvider) : (ProviderTransaction.patch l c t).PreProvider := by
  refine ⟨?_, ?_, ?_⟩
  · show (if c.state = l.state then t.state else c.state) ∈ _
    split
    · exact ht.1
    · exact hc.1
  · show present (if _ then t.razorpay_order_id else c.razorpay_order_id) = false
    split
    · exact ht.2.1
    · exact hc.2.1
  · show present (if _ then t.razorpay_payment_id else c.razorpay_payment_id) = false
    split
    · exact ht.2.2
    · exact hc.2.2

/-- What a write does to the payments of `id`, it does with no provider. -/
def Write.Waits (id : String) : Write → Prop
  | .insertTxn t => t.PreProvider
  | .updateTxn l c => l.authorization_id = id → c.PreProvider
  | _ => True

theorem apply_waiting {x : Write} (hx : x.Waits id) (h : db.apply x = some db')
    (hw : db.Waiting id) : db'.Waiting id := by
  cases x with
  | updateTxn l c =>
    simp only [DB.apply] at h
    split at h
    · exact absurd h (by simp)
    obtain rfl := Option.some.inj h
    intro r hr hid
    obtain ⟨t, ht, rfl⟩ := mem_updateWhere.mp hr
    by_cases hl : t.authorization_id = l.authorization_id
    · rw [if_pos (by simpa using hl)] at hid ⊢
      have hid : t.authorization_id = id := hid
      exact (hw t ht hid).patch (hx (hl.symm.trans hid))
    · rw [if_neg (by simpa using hl)] at hid ⊢
      exact hw t ht hid
  | insertTxn t =>
    obtain ⟨rows, hrows, heq⟩ := Option.bind_eq_some_iff.mp h
    obtain ⟨rfl, -⟩ := insertUnique_eq hrows
    obtain rfl := Option.some.inj heq
    intro r hr hid
    rcases List.mem_append.mp hr with hr | hr
    · exact hw r hr hid
    · rw [List.mem_singleton.mp hr]
      exact hx
  | _ =>
    -- a write to another table
    refine hw.congr ?_
    first
      | rw [← Option.some.inj h]
      | obtain ⟨_, _, hrows⟩ := Option.bind_eq_some_iff.mp h
        rw [← Option.some.inj hrows]

theorem exec_waiting {i : Nat} {s : Stmt} (hw : w.db.Waiting id)
    (hs : ∀ ws, s = .commit ws → ∀ x ∈ ws, x.Waits id) : (w.exec i s).db.Waiting id := by
  cases s with
  | select => exact hw
  | fresh => exact hw
  | rollback => exact hw.congr (rollback_txns i w)
  | try_gate g =>
    unfold World.exec
    dsimp only
    split
    · exact hw
    · exact hw.congr (rollback_txns i w)
  | reserve id' spend =>
    unfold World.exec
    dsimp only
    split
    · exact hw.congr rfl
    · exact hw
  | commit ws =>
    unfold World.exec World.commit
    dsimp only
    cases hdb : w.db.applyAll ws with
    | ok db' =>
      exact applyAll_keeps_all (fun _ _ _ hx happly => apply_waiting hx happly) (hs ws rfl) hdb hw
    | error x => exact hw.congr (rollback_txns i w)

/-- What a handler in that hand may commit keeps the payments waiting. -/
theorem Hand.May.waits {q : Hand} {ws : List Write} (h : q.May ws) (htaken : q.taken ≠ some id)
    (hrows : ∀ l ∈ q.rows, l.authorization_id = id → l.PreProvider)
    (hearly : ∀ u ∈ updates ws, u.1.authorization_id = id → u.1.Early q.limit) :
    ∀ x ∈ ws, x.Waits id := by
  have hupdate : ∀ l c, .updateTxn l c ∈ ws → l.authorization_id = id → l.PreProvider →
      c.PreProvider := by
    intro l c hlc hid hl
    rcases (h.update l c hlc).2.2 with hpre | hexcuse
    · exact hpre hl
    rcases hexcuse with htook | ⟨n, hn, hauth, hle⟩
    · exact absurd (hid ▸ htook) htaken
    · have hlt : l.attempts + 1 < n := hearly (l, c) (mem_updates.mpr hlc) hid n hn hauth
      omega
  intro x hx
  cases x with
  | insertTxn t => exact h.insert t hx
  | updateTxn l c =>
    intro hid
    refine hupdate l c hx hid ?_
    rcases (h.update l c hx).2.1 with hmem | hnew | ⟨k, hk, hkl, hkid⟩
    · exact hrows l hmem hid
    · exact h.insert l hnew
    · have hkid : k.authorization_id = id := hkid.trans hid
      exact hupdate k l hkl hkid (hrows k hk hkid)
  | _ => trivial

end

/-- What holds along a patient run. -/
structure Unsent (reqs : List Request) (id : String) (w : World) (qs : Nat → Hand)
    (tr : List (Event World Stmt Call Answer)) : Prop where
  limit : ∀ i, (qs i).limit = reqs[i]?.bind Request.limit
  taken : ∀ i id', (qs i).taken = some id' → Reserved id' tr
  waiting : ¬ Reserved id tr → w.db.Waiting id
  read : ¬ Reserved id tr → ∀ i, ∀ l ∈ (qs i).rows, l.authorization_id = id →
    l.PreProvider

section
variable {reqs : List Request} {id : String} {w : World} {qs : Nat → Hand}
  {tr : List (Event World Stmt Call Answer)}

theorem Reserved.append {ev : Event World Stmt Call Answer} (h : Reserved id tr) :
    Reserved id (tr ++ [ev]) := by
  obtain ⟨ev', hmem, hev⟩ := h
  exact ⟨ev', List.mem_append_left _ hmem, hev⟩

/-- An event at which nobody's hand changes. -/
theorem Unsent.idle {w' : World} {ev : Event World Stmt Call Answer} (h : Unsent reqs id w qs tr)
    (hdb : w'.db.txns = w.db.txns) : Unsent reqs id w' qs (tr ++ [ev]) where
  limit := h.limit
  taken i id' htaken := (h.taken i id' htaken).append
  waiting hno := (h.waiting fun hr => hno hr.append).congr hdb
  read hno := h.read fun hr => hno hr.append

theorem Unsent.stmt {i : Nat} {s : Stmt} {q' : Hand} (h : Unsent reqs id w qs tr)
    (hok : Patient reqs id tr (.stmt i s w)) (hs : counter.stmt (qs i) s w q') :
    Unsent reqs id (w.exec i s) (Function.update qs i q') (tr ++ [.stmt i s w]) := by
  obtain ⟨hlimit, hrows, htaken, hcommit⟩ := hs
  refine ⟨fun j => ?_, fun j id' hj => ?_, fun hno => ?_, fun hno j l hl hid => ?_⟩
  · by_cases hij : j = i
    · subst hij
      rw [Function.update_self, hlimit]
      exact h.limit j
    · rw [Function.update_of_ne hij]
      exact h.limit j
  · by_cases hij : j = i
    · subst hij
      rw [Function.update_self] at hj
      rcases htaken with hsame | ⟨id'', rfl, hfree, htook⟩
      · exact (h.taken j id' (hsame ▸ hj)).append
      · obtain rfl := Option.some.inj (htook.symm.trans hj)
        exact ⟨_, List.mem_append_right _ (List.mem_singleton_self _), rfl, hfree⟩
    · rw [Function.update_of_ne hij] at hj
      exact (h.taken j id' hj).append
  · have hno' : ¬ Reserved id tr := fun hr => hno hr.append
    refine exec_waiting (h.waiting hno') fun ws hws => ?_
    subst hws
    refine (hcommit ws rfl).waits (fun htook => hno' (h.taken i id htook)) (h.read hno' i) ?_
    rw [h.limit i]
    exact hok hno'
  · have hno' : ¬ Reserved id tr := fun hr => hno hr.append
    by_cases hij : j = i
    · subst hij
      rw [Function.update_self] at hl
      rcases hrows l hl with hold | ⟨-, hdb⟩
      · exact h.read hno' j l hold hid
      · exact h.waiting hno' l hdb hid
    · rw [Function.update_of_ne hij] at hl
      exact h.read hno' j l hl hid

end

/-- **Never-submitted payments stay with no provider.** In every run, however its requests
interleave, stop and are answered, the payments of an authorization that no consumption
reserved are authorized, expired or cancelled, as long as no batch commits one of them that
it loaded when one more attempt would reach its dead-letter limit. -/
theorem never_submitted {H : Host} {reqs : List Request} {w : World} {id : String}
    {c : Pool World Stmt Call Answer Reply} (hw : w.db.Waiting id)
    (h : Pool.Reach machine (Patient reqs id) (Pool.start w (reqs.map (handler H))) c)
    (hnever : ¬ Reserved id c.trace) :
    ∀ t ∈ c.store.db.txns, t.authorization_id = id →
      t.state ∈ [TxnState.AUTHORIZED, .EXPIRED, .CANCELLED] := by
  have hstart : (Pool.start w (reqs.map (handler H))).Follows counter (fun _ _ _ => True)
      fun i => ⟨[], none, reqs[i]?.bind Request.limit⟩ := by
    intro i p hp
    simp only [Pool.start, List.getElem?_map, Option.map_eq_some_iff] at hp
    obtain ⟨r, hr, rfl⟩ := hp
    show (handler H r).Conforms counter (fun _ _ => True) ⟨[], none, reqs[i]?.bind Request.limit⟩
    rw [hr]
    exact handler_counter H r
  have hfirst : Unsent reqs id w (fun i => ⟨[], none, reqs[i]?.bind Request.limit⟩) [] :=
    ⟨fun _ => rfl, fun _ _ h => absurd h (by simp), fun _ => hw,
      fun _ _ _ h => absurd h List.not_mem_nil⟩
  obtain ⟨qs, hJ, -⟩ := Pool.sim (J := Unsent reqs id)
    (fun st qs tr i s q' hJ hok hs => hJ.stmt hok hs)
    (fun st qs tr i cl a q' hJ _ hq => by
      obtain rfl : q' = qs i := hq
      rw [Function.update_eq_self]
      exact hJ.idle rfl)
    (fun st qs tr i wait hJ _ _ => by
      refine ⟨qs i, ?_⟩
      rw [Function.update_eq_self]
      exact hJ.idle (rollback_txns i st))
    (fun st qs tr d hJ => ⟨hJ.limit, hJ.taken, fun hno => (hJ.waiting hno).congr rfl, hJ.read⟩)
    hfirst hstart h
  exact fun t ht hid => (hJ.waiting hnever t ht hid).1

/-- A batch over one authorized payment that nobody has consumed yet. -/
def waitingBatch (limit : Int) : Pool World Stmt Call Answer Reply :=
  Pool.start (Sample.world (Sample.db [Sample.authorization 100]
    [Sample.txn .AUTHORIZED none none none])) ([.batch limit].map (handler (Sample.host false [])))

/-- That batch from its first statement to its last. -/
def scanned (limit : Int) : Pool World Stmt Call Answer Reply :=
  (waitingBatch limit).run machine (List.replicate 10 (.run 0 (.ok .null)))

/-- Below the limit the batch only counts an attempt. -/
theorem never_submitted_scanned : ¬ Reserved "auth" (scanned 2).trace ∧
    (scanned 2).store.db.txns.map (fun t => (t.authorization_id, t.attempts)) = [("auth", 1)] ∧
    ∀ t ∈ (scanned 2).store.db.txns, t.authorization_id = "auth" →
      t.state ∈ [TxnState.AUTHORIZED, .EXPIRED, .CANCELLED] := by
  have hnever : ¬ Reserved "auth" (scanned 2).trace := by decide
  have hpatient : Pool.Throughout (Patient [.batch 2] "auth") (scanned 2).trace :=
    Pool.throughout_of_take (by decide)
  have hwaiting : (Sample.db [Sample.authorization 100]
      [Sample.txn .AUTHORIZED none none none]).Waiting "auth" := by
    intro t ht _
    obtain rfl := List.mem_singleton.mp ht
    decide
  exact ⟨hnever, rfl, never_submitted hwaiting (Pool.reach_of_throughout _ _ .start hpatient) hnever⟩

/-- At the limit the worker gives up on a payment that nobody ever sent: with no provider
asked and no use reserved it reads as `PROVIDER_UNKNOWN`. -/
theorem dead_lettered_unsent :
    Pool.Reach machine Pool.Free (waitingBatch 1) (scanned 1) ∧
      ¬ Reserved "auth" (scanned 1).trace ∧ Pool.calls (scanned 1).trace = [] ∧
      (scanned 1).store.db.txns.map (fun t => (t.authorization_id, t.state)) =
        [("auth", .PROVIDER_UNKNOWN)] ∧
      ¬ ∀ t ∈ (scanned 1).store.db.txns, t.authorization_id = "auth" →
        t.state ∈ [TxnState.AUTHORIZED, .EXPIRED, .CANCELLED] := by
  refine ⟨Pool.reach_run _ _ _ _ .start, by decide, rfl, rfl, fun h => ?_⟩
  exact absurd (h _ (List.mem_singleton_self _) rfl) (by decide)

end Paari
